/-
  LivediskForensic.Render.Modes — THE TWO COLOUR MODES OF THE WHOLE VIEWS.

  `color` selects blocks in escape sequences or pipe-safe glyphs, and nothing
  else: every view is written from the same pieces in both modes.  Each piece is
  a plain stretch of text, a slice of a bar or a swatch.  So what a terminal
  shows of the colour text is, place by place, the ASCII text, with the columns
  of the slices and the swatches as blocks in the colours of their pens.

  Names, models, labels and mount points are printed as they are.  One escape
  character in them, and the terminal shows other cells than the file holds.

      diskBar_pieces, renderOverview_pieces, renderListing_pieces
                  — the views are written from their pieces
      modes_agree — both views, for every list of disks
-/
import LivediskForensic.Lib.Styled
import LivediskForensic.Render.Views

namespace LivediskForensic.Render

open LivediskForensic.Lib
open LivediskForensic.Lib.Ansi

/-! ## §1. The pens. -/

theorem glyph_ne_escape : ∀ pen : Pen, pen.glyph ≠ ESC
  | .free => by decide
  | .slot k => by
      revert k
      decide

theorem block_ne_escape : BLOCK ≠ ESC := by decide

/-- The pens of the bars. -/
def barPens : PenSet Pen where
  glyph := Pen.glyph
  rendition := Pen.rendition
  block := BLOCK
  glyph_ne := glyph_ne_escape
  rendition_open pen := (pen_spec pen).2.2
  block_ne := block_ne_escape

/-- A slice is a run of columns. -/
theorem pushSlice_piece (color : Bool) (pen : Pen) (w : Nat) :
    pushSlice color pen.ansi pen.glyph w = (Piece.run pen w).write barPens color := by
  unfold pushSlice
  rw [colored_eq]
  rfl

/-- A swatch is a run of one column. -/
theorem swatch_piece (color : Bool) (pen : Pen) :
    swatch color pen.ansi pen.glyph = (Piece.run pen 1).write barPens color :=
  pushSlice_piece color pen 1

/-! ## §2. The bar. -/

/-- A line of the legend. -/
def legendPieces (fmt : NumberFormat) (total : UInt64) (pen : Pen) (seg : Segment) :
    List (Piece Pen) :=
  [.plain [' '], .run pen 1, .plain (' ' :: legendText fmt total seg)]

/-- The row of a disk and its legend. -/
def barPieces (fmt : NumberFormat) (disk : PhysicalDisk) (width accent : Nat) :
    List (Piece Pen) :=
  let slots := (partitionSlots (segments disk) (accent % PALETTE.length)).getD []
  .plain ['['] :: ((segments disk).zip (segmentWidths disk width)).map
      (fun x => .run (penAt slots x.1) x.2)
    ++ .plain [']', '\n'] :: (segments disk).flatMap
      (fun seg => legendPieces fmt (max disk.sizeBytes 1) (penAt slots seg) seg)

theorem legendLine_pieces (fmt : NumberFormat) (color : Bool) (total : UInt64) (pen : Pen)
    (seg : Segment) :
    legendLine fmt color total pen seg
      = writeAll barPens color (legendPieces fmt total pen seg) := by
  unfold legendLine legendPieces
  rw [swatch_piece]
  simp only [writeAll_cons, writeAll_nil, write_plain, List.append_nil, List.cons_append,
    List.nil_append]

theorem rowText_pieces (color : Bool) (slots : List Nat) (segs : List Segment)
    (widths : List Nat) :
    rowText color (segs.map (penAt slots)) widths
      = writeAll barPens color ((segs.zip widths).map (fun x => .run (penAt slots x.1) x.2)) := by
  unfold rowText
  rw [writeAll_map, List.zip_map_left, List.flatMap_map]
  congr 1
  funext x
  exact pushSlice_piece color (penAt slots x.1) x.2

/-- **A bar is written from its pieces.** -/
theorem diskBar_pieces (fmt : NumberFormat) (disk : PhysicalDisk) (width accent : Nat)
    (color : Bool) :
    diskBar fmt disk width color accent
      = some (String.ofList (writeAll barPens color (barPieces fmt disk width accent))) := by
  obtain ⟨slots, hslots, hread⟩ := partitionSlots_spec disk (slot_lt accent)
  have hlegend : (List.zipWith (legendLine fmt color (max disk.sizeBytes 1))
      ((segments disk).map (penAt slots)) (segments disk)).flatten
        = writeAll barPens color ((segments disk).flatMap
            (fun seg => legendPieces fmt (max disk.sizeBytes 1) (penAt slots seg) seg)) := by
    rw [List.zipWith_map_left, List.zipWith_self, writeAll_flatMap, List.flatMap_def]
    simp only [legendLine_pieces]
  rw [diskBar_of_slots fmt width color hslots hread]
  unfold drawing barPieces
  rw [hslots, Option.getD_some, rowText_pieces, hlegend]
  simp only [writeAll_append, writeAll_cons, write_plain, List.cons_append, List.nil_append]

/-! ## §3. The sections. -/

/-- What stands below the header line of the `k`-th disk. -/
def bodyPieces (fmt : NumberFormat) (width k : Nat) (d : PhysicalDisk) : List (Piece Pen) :=
  if d.partitions.isEmpty then [.plain "  (no partitions)\n".toList]
  else if d.synthesized then
    [.plain (d.partitions.flatMap (volumeLine fmt)
      ++ "  (volumes share container space)\n".toList)]
  else barPieces fmt d width k

def sectionPieces (fmt : NumberFormat) (width : Nat) (x : PhysicalDisk × Nat) :
    List (Piece Pen) :=
  .plain (sectionHead fmt x.1) :: bodyPieces fmt width x.2 x.1 ++ [.plain ['\n']]

theorem sectionBody_pieces (fmt : NumberFormat) (width : Nat) (color : Bool) (k : Nat)
    (d : PhysicalDisk) :
    sectionBody fmt width color k d
      = some (writeAll barPens color (bodyPieces fmt width k d)) := by
  unfold sectionBody bodyPieces
  by_cases hempty : d.partitions.isEmpty = true
  · rw [if_pos hempty, if_pos hempty, writeAll_cons, write_plain, writeAll_nil, List.append_nil]
  · rw [if_neg hempty, if_neg hempty]
    by_cases hsynth : d.synthesized = true
    · rw [if_pos hsynth, if_pos hsynth, writeAll_cons, write_plain, writeAll_nil, List.append_nil]
    · rw [if_neg hsynth, if_neg hsynth, diskBar_pieces, Option.map_some, String.toList_ofList]

theorem sectionOf_pieces (fmt : NumberFormat) (width : Nat) (color : Bool)
    (x : PhysicalDisk × Nat) :
    sectionOf fmt width color x = writeAll barPens color (sectionPieces fmt width x) := by
  unfold sectionOf diskSection sectionPieces
  rw [sectionBody_pieces]
  simp only [Option.bind_eq_bind, Option.bind_some, Option.getD_some, writeAll_append,
    writeAll_cons, writeAll_nil, write_plain, List.append_nil, List.append_assoc]

/-- **The sections of a listing.** -/
theorem listingLoop_pieces (fmt : NumberFormat) (width : Nat) (color : Bool)
    (disks : List PhysicalDisk) :
    listingLoop fmt width color 0 disks
      = some (writeAll barPens color
          ((numbered 0 disks).flatMap (sectionPieces fmt width))) := by
  rw [listingLoop_eq, writeAll_flatMap, List.flatMap_def, funext (sectionOf_pieces fmt width color)]

/-! ## §4. The chart. -/

/-- The row of the `x.2`-th physical disk. -/
def rowPieces (fmt : NumberFormat) (width : Nat) (physical : List PhysicalDisk)
    (x : PhysicalDisk × Nat) : List (Piece Pen) :=
  let fill := barFill width (maxSize physical) x.1.sizeBytes
  [ .plain (' ' :: padRight (nameWidth physical) x.1.name.toList ++ "  [".toList),
    .run (diskPen x.2) fill,
    .plain (List.replicate (width - fill) ' ' ++ "] ".toList
      ++ padLeft 10 (fmt.humanSize x.1.sizeBytes).toList ++ "  ".toList
      ++ padLeft 4 (fmt.percent x.1.sizeBytes (max (totalSize physical) 1)).toList
      ++ ['%', '\n']) ]

def chartPieces (fmt : NumberFormat) (width : Nat) (physical : List PhysicalDisk) :
    List (Piece Pen) :=
  .plain (overviewHeader fmt physical.length (totalSize physical))
    :: physical.zipIdx.flatMap (rowPieces fmt width physical)

theorem overviewRow_pieces (fmt : NumberFormat) (width : Nat) (color : Bool)
    (physical : List PhysicalDisk) (x : PhysicalDisk × Nat) :
    overviewRow fmt width color physical (totalSize physical)
        ((diskPen x.2).ansi, (diskPen x.2).glyph) x.1
      = writeAll barPens color (rowPieces fmt width physical x) := by
  unfold overviewRow rowPieces
  simp only [pushSlice_piece, writeAll_cons, writeAll_nil, write_plain, List.append_nil,
    List.append_assoc]

theorem overviewOf_pieces (fmt : NumberFormat) (width : Nat) (color : Bool)
    (physical : List PhysicalDisk) :
    overviewOf fmt width color physical
      = writeAll barPens color (chartPieces fmt width physical) := by
  unfold overviewOf overviewLines chartPieces
  rw [writeAll_cons, write_plain, writeAll_flatMap, List.flatMap_def,
    funext (overviewRow_pieces fmt width color physical)]

/-! ## §5. The views. -/

/-- The chart, or nothing when there are fewer than two physical disks. -/
def overviewPieces (fmt : NumberFormat) (disks : List PhysicalDisk) (width : Nat) :
    List (Piece Pen) :=
  if (physicalDisks disks).length < 2 then [] else chartPieces fmt width (physicalDisks disks)

/-- The chart and an empty line, and a section for each disk. -/
def listingPieces (fmt : NumberFormat) (disks : List PhysicalDisk) (width : Nat) :
    List (Piece Pen) :=
  if disks.isEmpty then [.plain "No disks found.\n".toList]
  else (if (physicalDisks disks).length < 2 then []
      else chartPieces fmt width (physicalDisks disks) ++ [.plain ['\n']])
    ++ (numbered 0 disks).flatMap (sectionPieces fmt width)

theorem renderOverview_pieces (fmt : NumberFormat) (disks : List PhysicalDisk) (width : Nat)
    (color : Bool) :
    renderOverview fmt disks width color
      = some (String.ofList (writeAll barPens color (overviewPieces fmt disks width))) := by
  unfold overviewPieces
  by_cases hfew : (physicalDisks disks).length < 2
  · rw [if_pos hfew]
    exact if_pos hfew
  · rw [if_neg hfew, renderOverview_eq fmt width color (Nat.le_of_not_lt hfew), overviewOf_pieces]

theorem renderListing_pieces (fmt : NumberFormat) (disks : List PhysicalDisk) (width : Nat)
    (color : Bool) :
    renderListing fmt disks width color
      = some (String.ofList (writeAll barPens color (listingPieces fmt disks width))) := by
  unfold listingPieces
  by_cases hempty : disks.isEmpty = true
  · rw [if_pos hempty, writeAll_cons, write_plain, writeAll_nil, List.append_nil,
      String.ofList_toList]
    exact if_pos hempty
  · rw [if_neg hempty]
    by_cases hfew : (physicalDisks disks).length < 2
    -- no chart, and no empty line for it
    · have hoverview : renderOverview fmt disks width color = some "" := if_pos hfew
      unfold renderListing
      rw [if_neg hempty, if_pos hfew, hoverview, listingLoop_pieces]
      rfl
    · have hflatten : (sectionsOf fmt width color disks).flatten
          = writeAll barPens color ((numbered 0 disks).flatMap (sectionPieces fmt width)) :=
        Option.some.inj ((listingLoop_eq fmt width color disks 0).symm.trans
          (listingLoop_pieces fmt width color disks))
      rw [if_neg hfew, renderListing_eq fmt width color (Nat.le_of_not_lt hfew), hflatten,
        overviewOf_pieces]
      simp only [writeAll_append, writeAll_cons, write_plain, List.append_assoc, List.cons_append,
        List.nil_append]

/-- The two texts of a view, against its pieces. -/
structure ModesAgree (view : Bool → Option String) (pieces : List (Piece Pen)) : Prop where
  /-- The ASCII text is the cells, each column its pen's glyph. -/
  ascii : view false = some (String.ofList ((cellsOf pieces).map (Cell.plainly barPens)))
  /-- A terminal shows the same cells of the colour text, each column a block in its pen's colour
  and each character in the default rendition, exactly when none is an escape character. -/
  colour : ∃ text, view true = some text
    ∧ (shown text.toList = (cellsOf pieces).map (Cell.coloured barPens)
      ↔ ESC ∉ (cellsOf pieces).map (Cell.plainly barPens))

theorem modesAgree_of_pieces {view : Bool → Option String} {pieces : List (Piece Pen)}
    (h : ∀ color, view color = some (String.ofList (writeAll barPens color pieces))) :
    ModesAgree view pieces where
  ascii := by rw [h false, writeAll_plain]
  colour := by
    refine ⟨_, h true, ?_⟩
    rw [String.toList_ofList]
    exact shown_writeAll_iff barPens pieces

/-- **THE MODES AGREE**, for every list of disks and every width. -/
theorem modes_agree (fmt : NumberFormat) (disks : List PhysicalDisk) (width : Nat) :
    ModesAgree (fun color => renderOverview fmt disks width color) (overviewPieces fmt disks width)
      ∧ ModesAgree (fun color => renderListing fmt disks width color)
          (listingPieces fmt disks width) :=
  ⟨modesAgree_of_pieces (renderOverview_pieces fmt disks width),
    modesAgree_of_pieces (renderListing_pieces fmt disks width)⟩

end LivediskForensic.Render
