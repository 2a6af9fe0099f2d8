/-
  LivediskForensic.Lib.Styled
  ───────────────────────────
  ONE TEXT IN TWO MODES.  A text is written from pieces: plain stretches, and
  runs of columns drawn with a pen.  Plainly a column is the pen's glyph; in
  colour it is a block, with sequences around the run.

      writeAll_plain     — the plain text is its cells
      shown_writeAll_iff — and a terminal shows the colour text as the same
                           cells, coloured, exactly when the plain text holds
                           no escape character
-/
import LivediskForensic.Lib.Ansi

namespace LivediskForensic.Lib.Ansi

/-- How a kind of pens is drawn. -/
structure PenSet (π : Type) where
  glyph : π → Char
  rendition : π → Rendition
  block : Char
  /-- No pen begins a sequence, or ends one early. -/
  glyph_ne : ∀ p, glyph p ≠ ESC
  rendition_open : ∀ p, 'm' ∉ rendition p
  block_ne : block ≠ ESC

inductive Piece (π : Type) where
  | plain (text : List Char)
  | run (pen : π) (width : Nat)

/-- What stands at one place of the screen. -/
inductive Cell (π : Type) where
  | char (c : Char)
  | column (pen : π)

section

variable {π : Type}

def Piece.cells : Piece π → List (Cell π)
  | .plain text => text.map .char
  | .run pen w => List.replicate w (.column pen)

variable (s : PenSet π)

def Piece.write (color : Bool) : Piece π → List Char
  | .plain text => text
  | .run pen w =>
      if w = 0 then []
      else if color then sgr (s.rendition pen) ++ (List.replicate w s.block ++ sgr ['0'])
      else List.replicate w (s.glyph pen)

/-- The cell in plain mode. -/
def Cell.plainly : Cell π → Char
  | .char c => c
  | .column pen => s.glyph pen

/-- The cell in colour. -/
def Cell.coloured : Cell π → Rendition × Char
  | .char c => (['0'], c)
  | .column pen => (s.rendition pen, s.block)

/-- The text of the pieces. -/
def writeAll (color : Bool) (ps : List (Piece π)) : List Char := ps.flatMap (Piece.write s color)

/-- The cells of the pieces. -/
def cellsOf (ps : List (Piece π)) : List (Cell π) := ps.flatMap Piece.cells

/-! ## §1. Writing. -/

section Write

variable (color : Bool)

@[simp] theorem write_plain (text : List Char) :
    (Piece.plain text : Piece π).write s color = text := rfl

@[simp] theorem writeAll_nil : writeAll s color [] = [] := rfl

@[simp] theorem writeAll_cons (p : Piece π) (ps : List (Piece π)) :
    writeAll s color (p :: ps) = p.write s color ++ writeAll s color ps := List.flatMap_cons

@[simp] theorem writeAll_append (ps qs : List (Piece π)) :
    writeAll s color (ps ++ qs) = writeAll s color ps ++ writeAll s color qs :=
  List.flatMap_append

theorem writeAll_flatMap {α : Type} (f : α → List (Piece π)) (l : List α) :
    writeAll s color (l.flatMap f) = l.flatMap (fun a => writeAll s color (f a)) :=
  List.flatMap_assoc

theorem writeAll_map {α : Type} (f : α → Piece π) (l : List α) :
    writeAll s color (l.map f) = l.flatMap (fun a => (f a).write s color) :=
  List.flatMap_map _ _ l

end Write

/-! ## §2. What is shown. -/

/-- A terminal shows no escape character. -/
theorem escape_not_shown : ∀ (text : List Char) (mode : Mode) (style : Rendition),
    ∀ x ∈ scan mode style text, x.2 ≠ ESC
  | [], _, _, x, hx => by
      simp only [scan, List.not_mem_nil] at hx
  | c :: cs, .text, style, x, hx => by
      by_cases hc : c = ESC
      · rw [scan, if_pos hc] at hx
        exact escape_not_shown cs .escape style x hx
      · rw [scan, if_neg hc, List.mem_cons] at hx
        rcases hx with hx | hx
        · rw [hx]
          exact hc
        · exact escape_not_shown cs .text style x hx
  | c :: cs, .escape, style, x, hx => by
      by_cases hc : c = '['
      · rw [scan, if_pos hc] at hx
        exact escape_not_shown cs (.parameters []) style x hx
      · rw [scan, if_neg hc] at hx
        exact escape_not_shown cs .text style x hx
  | c :: cs, .parameters seen, style, x, hx => by
      by_cases hc : c = 'm'
      · rw [scan, if_pos hc] at hx
        exact escape_not_shown cs .text seen.reverse x hx
      · rw [scan, if_neg hc] at hx
        exact escape_not_shown cs (.parameters (c :: seen)) style x hx

theorem write_cells (p : Piece π) : p.write s false = p.cells.map (Cell.plainly s) := by
  cases p with
  | plain text =>
      show text = (text.map Cell.char).map (Cell.plainly s)
      rw [List.map_map]
      exact (List.map_id text).symm
  | run pen w =>
      show (if w = 0 then [] else List.replicate w (s.glyph pen)) = _
      by_cases hw : w = 0
      · rw [if_pos hw, hw]
        rfl
      · rw [if_neg hw]
        show _ = (List.replicate w (Cell.column pen)).map _
        rw [List.map_replicate]
        rfl

/-- **In plain mode the text is its cells.** -/
theorem writeAll_plain (ps : List (Piece π)) :
    writeAll s false ps = (cellsOf ps).map (Cell.plainly s) := by
  unfold writeAll cellsOf
  rw [List.map_flatMap, funext (write_cells s)]

/-- A piece without an escape character shows its cells and leaves the default rendition behind. -/
theorem scan_write (p : Piece π) (h : ESC ∉ p.write s false) (rest : List Char) :
    scan .text ['0'] (p.write s true ++ rest)
      = p.cells.map (Cell.coloured s) ++ scan .text ['0'] rest := by
  cases p with
  | plain text =>
      have htext : ESC ∉ text := h
      show scan .text ['0'] (text ++ rest) = (text.map Cell.char).map _ ++ _
      rw [scan_append_run _ _ _ htext, List.map_map]
      rfl
  | run pen w =>
      by_cases hw : w = 0
      · show scan .text ['0'] ((if w = 0 then [] else _) ++ rest) = _
        rw [if_pos hw, hw]
        rfl
      · have hblocks : ESC ∉ List.replicate w s.block := by
          intro hmem
          exact s.block_ne (List.eq_of_mem_replicate hmem).symm
        show scan .text ['0'] ((if w = 0 then [] else
          sgr (s.rendition pen) ++ (List.replicate w s.block ++ sgr ['0'])) ++ rest) = _
        -- set the rendition, show the blocks, set it back
        rw [if_neg hw, List.append_assoc, List.append_assoc, scan_sgr (s.rendition_open pen),
          scan_append_run _ _ _ hblocks, scan_sgr (by decide), List.map_replicate]
        show _ = (List.replicate w (Cell.column pen)).map _ ++ _
        rw [List.map_replicate]
        rfl

/-- In colour the terminal shows the cells. -/
theorem shown_writeAll (ps : List (Piece π)) (h : ESC ∉ writeAll s false ps) :
    shown (writeAll s true ps) = (cellsOf ps).map (Cell.coloured s) := by
  unfold cellsOf
  induction ps with
  | nil => rfl
  | cons p ps ih =>
      rw [writeAll_cons, List.mem_append, not_or] at h
      have hrest : scan .text ['0'] (writeAll s true ps)
          = (ps.flatMap Piece.cells).map (Cell.coloured s) := ih h.2
      rw [writeAll_cons]
      show scan .text ['0'] (p.write s true ++ writeAll s true ps) = _
      rw [scan_write s p h.1, hrest, List.flatMap_cons, List.map_append]

/-- Cells that a terminal shows are not escape characters, in plain mode neither. -/
theorem escape_not_mem_of_shown {text : List Char} {cells : List (Cell π)}
    (h : shown text = cells.map (Cell.coloured s)) : ESC ∉ cells.map (Cell.plainly s) := by
  intro hmem
  obtain ⟨cell, hcell, hesc⟩ := List.mem_map.mp hmem
  cases cell with
  | char c =>
      have hc : (['0'], c) ∈ shown text := by
        rw [h]
        exact List.mem_map.mpr ⟨.char c, hcell, rfl⟩
      exact escape_not_shown text .text ['0'] _ hc hesc
  | column pen => exact s.glyph_ne pen hesc

/-- **The colour text shows the cells exactly when the plain text holds no escape character.** -/
theorem shown_writeAll_iff (ps : List (Piece π)) :
    shown (writeAll s true ps) = (cellsOf ps).map (Cell.coloured s)
      ↔ ESC ∉ (cellsOf ps).map (Cell.plainly s) := by
  constructor
  · exact escape_not_mem_of_shown s
  · intro h
    rw [← writeAll_plain] at h
    exact shown_writeAll s ps h

end

end LivediskForensic.Lib.Ansi
