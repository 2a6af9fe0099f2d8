/-
  LivediskForensic.Render.BarAgreement — THE BAR, ITS TWO COLOUR MODES AND ITS
  LEGEND AGREE.

  One abstract drawing stands behind all four texts: a list of PENS, one per
  segment, each the free pen or a slot of the palette.  The row shows
  `allocateWidths[i]` columns of pen `i`, the legend one line with a swatch of
  pen `i`; the mode only decides whether a pen shows as its glyph or as a block
  in its colour.  In colour mode "what is shown" is what a terminal shows of
  the escape sequences (`Ansi.shown`).

      diskBar_eq     — the drawing always succeeds, and this is its text
      diskBar_agrees — the row and the legend of both modes, read back
-/
import LivediskForensic.Lib.Ansi
import LivediskForensic.Render.Slots
import LivediskForensic.Render.Widths

namespace LivediskForensic.Render

open LivediskForensic.Lib
open LivediskForensic.Lib.Ansi

/-! ## §1. Pens. -/

/-- What a segment is drawn with. -/
inductive Pen where
  | free
  | slot (k : Fin 8)
  deriving Repr, DecidableEq

def Pen.ansi : Pen → Nat
  | .free => FREE_ANSI
  | .slot k => PALETTE.getD k 0

def Pen.glyph : Pen → Char
  | .free => FREE_GLYPH
  | .slot k => GLYPHS.getD k ' '

/-- The rendition a pen sets. -/
def Pen.rendition (pen : Pen) : Rendition := "38;5;".toList ++ Nat.toDigits 10 pen.ansi

/-- The pen of a segment. -/
def penAt (slots : List Nat) (seg : Segment) : Pen :=
  match seg.index with
  | some idx => .slot (Fin.ofNat 8 (slots.getD idx 0))
  | none => .free

/-- A column of a drawing, per pen and width. -/
def columns (pens : List Pen) (widths : List Nat) : List Pen :=
  (pens.zip widths).flatMap (fun pw => List.replicate pw.2 pw.1)

theorem penAt_eq_free_iff (slots : List Nat) (seg : Segment) :
    penAt slots seg = .free ↔ seg.index = none := by
  unfold penAt
  cases seg.index with
  | none => simp
  | some idx => simp

/-- The free pen's glyph and colour are no other pen's. -/
theorem slot_ne_free : ∀ k : Fin 8,
    (Pen.slot k).glyph ≠ FREE_GLYPH ∧ (Pen.slot k).ansi ≠ FREE_ANSI := by
  decide

/-- The two palettes agree in length, so a slot of the table has a pen. -/
theorem penOf_eq {slots : List Nat} {seg : Segment}
    (h : ∀ idx, seg.index = some idx → ∃ s, slots[idx]? = some s ∧ s < PALETTE.length) :
    penOf slots seg = some ((penAt slots seg).ansi, (penAt slots seg).glyph) := by
  unfold penOf penAt
  cases hidx : seg.index with
  | none => rfl
  | some idx =>
      obtain ⟨s, hs, hlt⟩ := h idx hidx
      have hget : slots.getD idx 0 = s := by
        rw [List.getD_eq_getElem?_getD, hs, Option.getD_some]
      -- eight slots, each with a colour and a glyph
      have hpalette : ∀ k < PALETTE.length,
          (PALETTE[k]?.bind fun ansi => GLYPHS[k]?.bind fun glyph => some (ansi, glyph))
            = some ((Pen.slot (Fin.ofNat 8 k)).ansi, (Pen.slot (Fin.ofNat 8 k)).glyph) := by
        decide
      show (slots[idx]?.bind fun slot => _) = some
        ((Pen.slot (Fin.ofNat 8 (slots.getD idx 0))).ansi,
          (Pen.slot (Fin.ofNat 8 (slots.getD idx 0))).glyph)
      rw [hs, hget]
      exact hpalette s hlt

/-! ## §2. The text of the drawing. -/

/-- The row, given the pens. -/
def rowText (color : Bool) (pens : List Pen) (widths : List Nat) : List Char :=
  (pens.zip widths).flatMap (fun pw => pushSlice color pw.1.ansi pw.1.glyph pw.2)

/-- A legend line, given the pen. -/
def legendLine (fmt : NumberFormat) (color : Bool) (total : UInt64) (pen : Pen) (seg : Segment) :
    List Char :=
  ' ' :: swatch color pen.ansi pen.glyph ++ ' ' :: legendText fmt total seg

theorem barLoop_eq (color : Bool) {slots : List Nat} :
    ∀ (segs : List Segment) (widths : List Nat),
      (∀ seg ∈ segs, penOf slots seg = some ((penAt slots seg).ansi, (penAt slots seg).glyph)) →
      barLoop color slots (segs.zip widths) = some (rowText color (segs.map (penAt slots)) widths)
  | [], _, _ => rfl
  | _ :: _, [], _ => rfl
  | seg :: segs, w :: widths, h => by
      have ih := barLoop_eq color segs widths (fun s hs => h s (List.mem_cons_of_mem _ hs))
      show ((penOf slots seg).bind fun pen => (barLoop color slots (segs.zip widths)).bind fun out =>
        some (pushSlice color pen.1 pen.2 w ++ out)) = _
      rw [h seg List.mem_cons_self, ih]
      rfl

theorem legendLoop_eq (fmt : NumberFormat) (color : Bool) {slots : List Nat} (total : UInt64) :
    ∀ segs : List Segment,
      (∀ seg ∈ segs, penOf slots seg = some ((penAt slots seg).ansi, (penAt slots seg).glyph)) →
      legendLoop fmt color slots total segs
        = some (segs.flatMap (fun seg => legendLine fmt color total (penAt slots seg) seg))
  | [], _ => rfl
  | seg :: segs, h => by
      have ih := legendLoop_eq fmt color total segs (fun s hs => h s (List.mem_cons_of_mem _ hs))
      show ((penOf slots seg).bind fun pen => (legendLoop fmt color slots total segs).bind fun out =>
        some (' ' :: swatch color pen.1 pen.2 ++ ' ' :: legendText fmt total seg ++ out)) = _
      rw [h seg List.mem_cons_self, ih]
      rfl

/-- The widths of the segments. -/
def segmentWidths (disk : PhysicalDisk) (width : Nat) : List Nat :=
  allocateWidths ((segments disk).map Segment.sizeBytes) width

/-- The text of a drawing. -/
def drawing (fmt : NumberFormat) (disk : PhysicalDisk) (width : Nat) (color : Bool)
    (pens : List Pen) : List Char :=
  '[' :: rowText color pens (segmentWidths disk width) ++ ']' :: '\n'
    :: (List.zipWith (legendLine fmt color (max disk.sizeBytes 1)) pens (segments disk)).flatten

/-- The text of the drawing, given the slot table. -/
theorem diskBar_of_slots (fmt : NumberFormat) {disk : PhysicalDisk} (width : Nat) (color : Bool)
    {accent : Nat} {slots : List Nat}
    (hslots : partitionSlots (segments disk) (accent % PALETTE.length) = some slots)
    (hread : ∀ seg ∈ segments disk, ∀ idx, seg.index = some idx →
      ∃ s, slots[idx]? = some s ∧ s < PALETTE.length) :
    diskBar fmt disk width color accent
      = some (String.ofList
          (drawing fmt disk width color ((segments disk).map (penAt slots)))) := by
  have hpens : ∀ seg ∈ segments disk,
      penOf slots seg = some ((penAt slots seg).ansi, (penAt slots seg).glyph) :=
    fun seg hseg => penOf_eq (hread seg hseg)
  show ((partitionSlots (segments disk) (accent % PALETTE.length)).bind fun slots =>
    (barLoop color slots ((segments disk).zip (segmentWidths disk width))).bind fun row =>
      (legendLoop fmt color slots (max disk.sizeBytes 1) (segments disk)).bind fun legend =>
        some (String.ofList ('[' :: row ++ ']' :: '\n' :: legend))) = _
  rw [hslots, Option.bind_some, barLoop_eq color _ _ hpens, Option.bind_some,
    legendLoop_eq fmt color _ _ hpens, Option.bind_some]
  unfold drawing
  rw [List.zipWith_map_left, List.zipWith_self]
  rfl

/-- **The drawing always succeeds**, with the same pens in both modes. -/
theorem diskBar_eq (fmt : NumberFormat) (disk : PhysicalDisk) (width accent : Nat) :
    ∃ slots, ∀ color, diskBar fmt disk width color accent
      = some (String.ofList
          (drawing fmt disk width color ((segments disk).map (penAt slots)))) := by
  have hacc := slot_lt accent
  obtain ⟨slots, hslots, hread⟩ := partitionSlots_spec disk hacc
  exact ⟨slots, fun color => diskBar_of_slots fmt width color hslots hread⟩

/-! ## §3. What the row shows. -/

/-- No pen writes the bracket that ends the row, nor the letter that ends a sequence early. -/
theorem pen_spec : ∀ pen : Pen,
    pen.glyph ≠ ']' ∧ ']' ∉ pen.rendition ∧ 'm' ∉ pen.rendition
  | .free => by decide
  | .slot k => by
      revert k
      decide

/-- A coloured run is a sequence, the blocks, and the sequence back. -/
theorem colored_eq (pen : Pen) (blocks : List Char) :
    colored pen.ansi blocks = sgr pen.rendition ++ (blocks ++ sgr ['0']) := by
  have hopen : "[38;5;".toList = '[' :: "38;5;".toList := by decide
  have hclose : Char.ofNat 0x1B :: "[0m".toList = sgr ['0'] := by decide
  have hrendition : pen.rendition = "38;5;".toList ++ Nat.toDigits 10 pen.ansi := rfl
  unfold colored
  rw [hopen, hclose, hrendition]
  simp [sgr, ESC]

theorem bracket_not_mem_pushSlice (color : Bool) (pen : Pen) (w : Nat) :
    ']' ∉ pushSlice color pen.ansi pen.glyph w := by
  obtain ⟨hglyph, hrendition, _⟩ := pen_spec pen
  have hblock : ']' ≠ BLOCK := by decide
  have hreset : ']' ∉ sgr ['0'] := by decide
  have hesc : ']' ≠ ESC := by decide
  intro h
  unfold pushSlice at h
  by_cases hw : w = 0
  · rw [if_pos hw] at h
    exact absurd h (List.not_mem_nil)
  · rw [if_neg hw] at h
    cases color with
    | false => exact hglyph (List.eq_of_mem_replicate h).symm
    | true =>
        change ']' ∈ colored pen.ansi (List.replicate w BLOCK) at h
        rw [colored_eq, List.mem_append, List.mem_append] at h
        rcases h with hsgr | hrun | hback
        · unfold sgr at hsgr
          simp [hesc, hrendition] at hsgr
        · exact hblock (List.eq_of_mem_replicate hrun)
        · exact hreset hback

/-- A slice in colour shows its columns and leaves the default rendition behind. -/
theorem scan_pushSlice (pen : Pen) (w : Nat) (rest : List Char) :
    scan .text ['0'] (pushSlice true pen.ansi pen.glyph w ++ rest)
      = List.replicate w (pen.rendition, BLOCK) ++ scan .text ['0'] rest := by
  unfold pushSlice
  by_cases hw : w = 0
  · rw [if_pos hw, hw]
    rfl
  · have hesc : ESC ∉ List.replicate w BLOCK := by
      intro h
      exact absurd (List.eq_of_mem_replicate h) (by decide)
    rw [if_neg hw]
    show scan .text ['0'] (colored pen.ansi (List.replicate w BLOCK) ++ rest) = _
    -- set the rendition, show the blocks, set it back
    rw [colored_eq, List.append_assoc, List.append_assoc, scan_sgr (pen_spec pen).2.2,
      scan_append_run _ _ _ hesc, scan_sgr (by decide), List.map_replicate]

/-- **In colour the row shows its columns**, each a block in the pen's colour. -/
theorem shown_rowText : ∀ (pens : List Pen) (widths : List Nat),
    shown (rowText true pens widths)
      = (columns pens widths).map (fun pen => (pen.rendition, BLOCK))
  | [], _ => rfl
  | _ :: _, [] => rfl
  | pen :: pens, w :: widths => by
      have ih := shown_rowText pens widths
      show scan .text ['0'] (pushSlice true pen.ansi pen.glyph w ++ rowText true pens widths)
        = (List.replicate w pen ++ columns pens widths).map _
      rw [scan_pushSlice, List.map_append, List.map_replicate, ← ih]
      rfl

theorem pushSlice_ascii (ansi : Nat) (glyph : Char) (w : Nat) :
    pushSlice false ansi glyph w = List.replicate w glyph := by
  unfold pushSlice
  by_cases hw : w = 0
  · rw [if_pos hw, hw]
    rfl
  · rw [if_neg hw]
    rfl

/-- In ASCII the row is its columns, each the pen's glyph. -/
theorem rowText_ascii : ∀ (pens : List Pen) (widths : List Nat),
    rowText false pens widths = (columns pens widths).map Pen.glyph
  | [], _ => rfl
  | _ :: _, [] => rfl
  | pen :: pens, w :: widths => by
      have ih := rowText_ascii pens widths
      show pushSlice false pen.ansi pen.glyph w ++ rowText false pens widths
        = (List.replicate w pen ++ columns pens widths).map _
      rw [pushSlice_ascii, ih, List.map_append, List.map_replicate]

theorem bracket_not_mem_rowText (color : Bool) (pens : List Pen) (widths : List Nat) :
    ']' ∉ rowText color pens widths := by
  intro h
  obtain ⟨pw, _, hpw⟩ := List.mem_flatMap.mp h
  exact bracket_not_mem_pushSlice color pw.1 pw.2 hpw

theorem length_columns : ∀ (pens : List Pen) (widths : List Nat),
    pens.length = widths.length → (columns pens widths).length = widths.sum
  | [], [], _ => rfl
  | pen :: pens, w :: widths, h => by
      have ih := length_columns pens widths (Nat.succ.inj h)
      show (List.replicate w pen ++ columns pens widths).length = (w :: widths).sum
      rw [List.length_append, List.length_replicate, ih, List.sum_cons]

/-- The columns fill the bar, when some segment is not empty. -/
theorem length_columns_segments {disk : PhysicalDisk} (width : Nat) {pens : List Pen}
    (hpens : pens.length = (segments disk).length) (h : ∃ seg ∈ segments disk, seg.sizeBytes ≠ 0) :
    (columns pens (segmentWidths disk width)).length = width := by
  have hlen : pens.length = (segmentWidths disk width).length := by
    unfold segmentWidths
    rw [hpens, length_allocateWidths, List.length_map]
  rw [length_columns pens _ hlen]
  obtain ⟨seg, hseg, hne⟩ := h
  exact sum_allocateWidths width ⟨seg.sizeBytes, List.mem_map_of_mem hseg, hne⟩

/-! ## §4. The agreement. -/

/-- The text between the brackets. -/
def barText (out : String) : List Char := (out.toList.drop 1).takeWhile (fun c => c ≠ ']')

/-- The two texts of a drawing, against its pens. -/
structure Agrees (fmt : NumberFormat) (disk : PhysicalDisk) (width accent : Nat) (pens : List Pen)
    (ascii colour : String) : Prop where
  /-- Both drawings come out: no index is out of range. -/
  ascii_drawn : diskBar fmt disk width false accent = some ascii
  colour_drawn : diskBar fmt disk width true accent = some colour
  /-- One pen per segment, the free pen for the gaps and for nothing else. -/
  pens_free : List.Forall₂ (fun pen seg => pen = .free ↔ seg.index = none) pens (segments disk)
  free_reserved : ∀ pen ∈ pens, pen ≠ .free → pen.glyph ≠ FREE_GLYPH ∧ pen.ansi ≠ FREE_ANSI
  /-- In segment order, the allocated number of columns of each pen. -/
  ascii_columns : barText ascii = (columns pens (segmentWidths disk width)).map Pen.glyph
  colour_columns : shown (barText colour)
    = (columns pens (segmentWidths disk width)).map (fun pen => (pen.rendition, BLOCK))
  full_width : (∃ seg ∈ segments disk, seg.sizeBytes ≠ 0) →
    (barText ascii).length = width ∧ (shown (barText colour)).length = width
  /-- One legend line per segment, in order, beginning with the swatch of the segment's pen. -/
  ascii_legend : ascii.toList = '[' :: barText ascii ++ ']' :: '\n'
    :: (List.zipWith (legendLine fmt false (max disk.sizeBytes 1)) pens (segments disk)).flatten
  colour_legend : colour.toList = '[' :: barText colour ++ ']' :: '\n'
    :: (List.zipWith (legendLine fmt true (max disk.sizeBytes 1)) pens (segments disk)).flatten
  /-- A swatch is one column of its pen. -/
  ascii_swatch : ∀ pen ∈ pens, swatch false pen.ansi pen.glyph = [pen.glyph]
  colour_swatch : ∀ pen ∈ pens, shown (swatch true pen.ansi pen.glyph) = [(pen.rendition, BLOCK)]

/-- The row of a drawing is the text between its brackets. -/
theorem barText_drawing (fmt : NumberFormat) (disk : PhysicalDisk) (width : Nat) (color : Bool)
    (pens : List Pen) :
    barText (String.ofList (drawing fmt disk width color pens))
      = rowText color pens (segmentWidths disk width) := by
  have hrow : ∀ c ∈ rowText color pens (segmentWidths disk width), decide (c ≠ ']') = true := by
    intro c hc
    apply decide_eq_true
    intro h
    exact bracket_not_mem_rowText color pens _ (h ▸ hc)
  unfold barText drawing
  rw [String.toList_ofList]
  show (rowText color pens (segmentWidths disk width) ++ ']' :: _).takeWhile _ = _
  rw [List.takeWhile_append_of_pos hrow, List.takeWhile_cons_of_neg (by simp), List.append_nil]

/-- **BAR, MODES AND LEGEND AGREE**, for every disk, width and accent. -/
theorem diskBar_agrees (fmt : NumberFormat) (disk : PhysicalDisk) (width accent : Nat) :
    ∃ pens ascii colour, Agrees fmt disk width accent pens ascii colour := by
  obtain ⟨slots, hdrawn⟩ := diskBar_eq fmt disk width accent
  -- the pens do not depend on the mode: both texts are drawings with the same list
  set pens := (segments disk).map (penAt slots) with hpens
  have hlen : pens.length = (segments disk).length := by
    rw [hpens, List.length_map]
  have hascii := barText_drawing fmt disk width false pens
  have hcolour := barText_drawing fmt disk width true pens
  refine ⟨pens, String.ofList (drawing fmt disk width false pens),
    String.ofList (drawing fmt disk width true pens), ?_⟩
  refine
    { ascii_drawn := hdrawn false
      colour_drawn := hdrawn true
      pens_free := ?_
      free_reserved := ?_
      ascii_columns := ?_
      colour_columns := ?_
      full_width := ?_
      ascii_legend := ?_
      colour_legend := ?_
      ascii_swatch := fun _ _ => rfl
      colour_swatch := ?_ }
  · rw [hpens, List.forall₂_map_left_iff, List.forall₂_same]
    intro seg _
    exact penAt_eq_free_iff slots seg
  · intro pen _ hne
    cases pen with
    | free => exact absurd rfl hne
    | slot k => exact slot_ne_free k
  · rw [hascii, rowText_ascii]
  · rw [hcolour, shown_rowText]
  · intro hsome
    have hfull := length_columns_segments width hlen hsome
    rw [hascii, hcolour, rowText_ascii, shown_rowText, List.length_map, List.length_map]
    exact ⟨hfull, hfull⟩
  · rw [hascii, String.toList_ofList]
    rfl
  · rw [hcolour, String.toList_ofList]
    rfl
  · intro pen _
    have hslice := scan_pushSlice pen 1 []
    rw [List.append_nil] at hslice
    exact hslice

end LivediskForensic.Render
