/-
  LivediskForensic.Render.Views — THE OVERVIEW AND THE SECTIONS SHOW A DISK IN
  ONE COLOUR.

  Both views number the physical disks.  The overview's numbers are places in
  the filtered list; the listing's come from a counter, and `numbered` writes
  them down.  The two stay in step, for any mixture of disks
  (`filter_numbered`); the rest is what each view does with the number:

      overviewRows_eq  — the row of disk `k` is drawn with slot `k`
      diskBar_accent   — and so is the largest partition of its bar
      views_agree      — both, and synthesized disks do not matter to either
-/
import LivediskForensic.Render.BarAgreement
import LivediskForensic.Render.Listing
import LivediskForensic.Render.SegmentCover

namespace LivediskForensic.Render

open LivediskForensic.Lib

/-! ## §1. Numbers. -/

/-- The disks with the number of physical disks in front of each. -/
def numbered : Nat → List PhysicalDisk → List (PhysicalDisk × Nat)
  | _, [] => []
  | k, d :: ds => (d, k) :: numbered (if d.synthesized then k else k + 1) ds

theorem map_fst_numbered (disks : List PhysicalDisk) : ∀ k,
    (numbered k disks).map Prod.fst = disks := by
  induction disks with
  | nil =>
      intro k
      rfl
  | cons d ds ih =>
      intro k
      unfold numbered
      rw [List.map_cons, ih]

/-- **The counter is in step with the filtered list.** -/
theorem filter_numbered (disks : List PhysicalDisk) : ∀ k,
    (numbered k disks).filter (fun x => !x.1.synthesized) = (physicalDisks disks).zipIdx k := by
  induction disks with
  | nil =>
      intro k
      rfl
  | cons d ds ih =>
      intro k
      unfold numbered physicalDisks
      cases hd : d.synthesized with
      | true =>
          rw [List.filter_cons_of_neg (by simp [hd]), List.filter_cons_of_neg (by simp [hd])]
          exact ih k
      | false =>
          rw [List.filter_cons_of_pos (by simp [hd]), List.filter_cons_of_pos (by simp [hd]),
            List.zipIdx_cons]
          exact congrArg _ (ih (k + 1))

/-! ## §2. The overview. -/

/-- The pen of the `k`-th physical disk. -/
def diskPen (k : Nat) : Pen := .slot ⟨k % 8, Nat.mod_lt k (by decide)⟩

theorem diskPen_mod (k : Nat) : diskPen (k % PALETTE.length) = diskPen k := by
  have hmod : k % 8 % 8 = k % 8 := Nat.mod_mod k 8
  exact congrArg Pen.slot (Fin.ext hmod)

/-- A slot of the palette has a colour and a glyph. -/
theorem palette_diskPen : ∀ k < PALETTE.length,
    PALETTE[k]? = some (diskPen k).ansi ∧ GLYPHS[k]? = some (diskPen k).glyph := by
  decide

theorem overviewRows_eq (fmt : NumberFormat) (width : Nat) (color : Bool)
    (physical : List PhysicalDisk) (total : UInt64) (ds : List PhysicalDisk) : ∀ i,
    overviewRows fmt width color physical total i ds = some ((ds.zipIdx i).flatMap (fun x =>
      overviewRow fmt width color physical total ((diskPen x.2).ansi, (diskPen x.2).glyph) x.1)) := by
  induction ds with
  | nil =>
      intro i
      rfl
  | cons d ds ih =>
      intro i
      obtain ⟨hansi, hglyph⟩ := palette_diskPen (i % PALETTE.length) (slot_lt i)
      rw [diskPen_mod] at hansi hglyph
      unfold overviewRows
      simp only [hansi, hglyph, ih, Option.bind_eq_bind, Option.bind_some, List.zipIdx_cons,
        List.flatMap_cons]

/-- The rows of the chart. -/
def overviewLines (fmt : NumberFormat) (width : Nat) (color : Bool) (physical : List PhysicalDisk) :
    List (List Char) :=
  physical.zipIdx.map (fun x => overviewRow fmt width color physical (totalSize physical)
    ((diskPen x.2).ansi, (diskPen x.2).glyph) x.1)

/-- The chart of the physical disks. -/
def overviewOf (fmt : NumberFormat) (width : Nat) (color : Bool) (physical : List PhysicalDisk) :
    List Char :=
  overviewHeader fmt physical.length (totalSize physical)
    ++ (overviewLines fmt width color physical).flatten

theorem renderOverview_eq (fmt : NumberFormat) {disks : List PhysicalDisk} (width : Nat)
    (color : Bool) (h : 2 ≤ (physicalDisks disks).length) :
    renderOverview fmt disks width color
      = some (String.ofList (overviewOf fmt width color (physicalDisks disks))) := by
  have hnot : ¬ (physicalDisks disks).length < 2 := by omega
  show (if (physicalDisks disks).length < 2 then _ else _) = _
  rw [if_neg hnot]
  unfold overviewText
  rw [overviewRows_eq, Option.bind_eq_bind, Option.bind_some, List.flatMap_def]
  rfl

/-! ## §3. The bar. -/

/-- `p` is the largest partition, at place `i` in start-offset order; of equals the last. -/
def LargestAt (disk : PhysicalDisk) (i : Nat) (p : Partition) : Prop :=
  (byOffset disk)[i]? = some p ∧ ∀ (j : Nat) (q : Partition), (byOffset disk)[j]? = some q →
    q.sizeBytes ≤ p.sizeBytes ∧ (i < j → q.sizeBytes < p.sizeBytes)

/-- The largest of the parts is the largest partition. -/
theorem largestAt_of_maxByKey {disk : PhysicalDisk} {part : Nat × UInt64}
    (h : maxByKey (fun p => p.2.toNat) (partsOf (segments disk)) = some part) :
    ∃ i p, LargestAt disk i p ∧ part.1 = i + 1 := by
  have hget : ∀ j, (partsOf (segments disk))[j]?
      = ((byOffset disk)[j]?).map (fun p => (j + 1, p.sizeBytes)) := by
    intro j
    rw [partsOf_segments, List.getElem?_map, List.getElem?_zipIdx, Option.map_map]
    simp only [Function.comp_def, Nat.zero_add]
  obtain ⟨i, hi, hmax⟩ := maxByKey_spec h
  rw [hget, Option.map_eq_some_iff] at hi
  obtain ⟨p, hp, rfl⟩ := hi
  refine ⟨i, p, ⟨hp, ?_⟩, rfl⟩
  intro j q hq
  have hj := hmax j (j + 1, q.sizeBytes) (by rw [hget, hq]; rfl)
  rw [UInt64.le_iff_toNat_le, UInt64.lt_iff_toNat_lt]
  exact hj

/-- Each partition has its segment. -/
theorem exists_segment {disk : PhysicalDisk} {i : Nat} {p : Partition}
    (h : (byOffset disk)[i]? = some p) :
    ∃ j : Nat, (segments disk)[j]? = some (partitionSegment i p) := by
  have hmem : partitionSegment i p ∈ (segments disk).filter (fun s => s.index.isSome) := by
    show _ ∈ (segmentLoop disk.sizeBytes 0 0 (byOffset disk)).filter _
    rw [filter_segmentLoop]
    refine List.mem_map.mpr ⟨(p, i), ?_, rfl⟩
    rwa [List.mem_zipIdx_iff_getElem?]
  exact List.getElem?_of_mem (List.mem_of_mem_filter hmem)

/-- **The largest partition of a bar is drawn in the accent**, in the row and in the legend. -/
theorem diskBar_accent (fmt : NumberFormat) {disk : PhysicalDisk} (width : Nat) (color : Bool)
    (k : Nat) (h : disk.partitions ≠ []) :
    ∃ (pens : List Pen) (i : Nat) (p : Partition) (j : Nat), diskBar fmt disk width color k
        = some (String.ofList (drawing fmt disk width color pens))
      ∧ pens.length = (segments disk).length ∧ LargestAt disk i p
      ∧ (segments disk)[j]? = some (partitionSegment i p) ∧ pens[j]? = some (diskPen k) := by
  have hacc := slot_lt k
  obtain ⟨slots, hslots, hread⟩ := partitionSlots_spec disk hacc
  have hne : partsOf (segments disk) ≠ [] := by
    intro hnil
    have hlen := length_partsOf (indices_segments disk)
    rw [hnil] at hlen
    exact h (List.length_eq_zero_iff.mp hlen.symm)
  obtain ⟨part, hpart⟩ :=
    Option.ne_none_iff_exists'.mp (fun hnone => hne (maxByKey_eq_none.mp hnone))
  obtain ⟨i, p, hlargest, hidx⟩ := largestAt_of_maxByKey hpart
  obtain ⟨j, hj⟩ := exists_segment hlargest.1
  refine ⟨(segments disk).map (penAt slots), i, p, j,
    diskBar_of_slots fmt width color hslots hread, List.length_map _, hlargest, hj, ?_⟩
  have hslot := partitionSlots_largest hslots hpart
  rw [hidx] at hslot
  rw [List.getElem?_map, hj, Option.map_some]
  show some (Pen.slot (Fin.ofNat 8 (slots.getD (i + 1) 0))) = _
  rw [List.getD_eq_getElem?_getD, hslot, Option.getD_some]
  exact congrArg some (diskPen_mod k)

/-! ## §4. The sections. -/

/-- No section panics. -/
theorem diskSection_isSome (fmt : NumberFormat) (width : Nat) (color : Bool) (k : Nat)
    (d : PhysicalDisk) : (diskSection fmt width color k d).isSome = true := by
  obtain ⟨slots, hbar⟩ := diskBar_eq fmt d width k
  have hbody : (sectionBody fmt width color k d).isSome = true := by
    unfold sectionBody
    by_cases hp : d.partitions.isEmpty = true
    · rw [if_pos hp]
      rfl
    · rw [if_neg hp]
      by_cases hs : d.synthesized = true
      · rw [if_pos hs]
        rfl
      · rw [if_neg hs, hbar color]
        rfl
  obtain ⟨body, hsome⟩ := Option.isSome_iff_exists.mp hbody
  unfold diskSection
  rw [hsome]
  rfl

/-- The section of a numbered disk. -/
def sectionOf (fmt : NumberFormat) (width : Nat) (color : Bool) (x : PhysicalDisk × Nat) :
    List Char := (diskSection fmt width color x.2 x.1).getD []

theorem diskSection_eq (fmt : NumberFormat) (width : Nat) (color : Bool) (k : Nat)
    (d : PhysicalDisk) :
    diskSection fmt width color k d = some (sectionOf fmt width color (d, k)) := by
  obtain ⟨text, htext⟩ := Option.isSome_iff_exists.mp (diskSection_isSome fmt width color k d)
  unfold sectionOf
  rw [htext]
  rfl

/-- The sections of a listing. -/
def sectionsOf (fmt : NumberFormat) (width : Nat) (color : Bool) (disks : List PhysicalDisk) :
    List (List Char) := (numbered 0 disks).map (sectionOf fmt width color)

theorem listingLoop_eq (fmt : NumberFormat) (width : Nat) (color : Bool)
    (disks : List PhysicalDisk) : ∀ k, listingLoop fmt width color k disks
      = some ((numbered k disks).map (sectionOf fmt width color)).flatten := by
  induction disks with
  | nil =>
      intro k
      rfl
  | cons d ds ih =>
      intro k
      unfold listingLoop numbered
      rw [diskSection_eq, Option.bind_eq_bind, Option.bind_some, ih, Option.bind_some,
        List.map_cons, List.flatten_cons]

theorem renderListing_eq (fmt : NumberFormat) {disks : List PhysicalDisk} (width : Nat)
    (color : Bool) (h : 2 ≤ (physicalDisks disks).length) :
    renderListing fmt disks width color = some (String.ofList
      (overviewOf fmt width color (physicalDisks disks)
        ++ '\n' :: (sectionsOf fmt width color disks).flatten)) := by
  have hne : ¬ disks.isEmpty = true := by
    intro hempty
    rw [List.isEmpty_iff] at hempty
    rw [hempty] at h
    exact absurd h (by decide)
  -- the overview begins with its title
  have hoverview : ¬ (String.ofList
      (overviewOf fmt width color (physicalDisks disks))).isEmpty = true := by
    rw [String.isEmpty_iff, ← String.toList_inj, String.toList_ofList]
    exact List.cons_ne_nil _ _
  unfold renderListing
  rw [if_neg hne, renderOverview_eq fmt width color h, Option.bind_eq_bind, Option.bind_some,
    listingLoop_eq, Option.bind_eq_bind, Option.bind_some, if_neg hoverview, String.toList_ofList,
    List.append_assoc]
  rfl

/-- The sections of the physical disks. -/
def physicalSections (disks : List PhysicalDisk) (sections : List (List Char)) :
    List (List Char) :=
  ((disks.zip sections).filter (fun x => !x.1.synthesized)).map Prod.snd

/-- **What the listing prints of the physical disks depends on them only.** -/
theorem physicalSections_sectionsOf (fmt : NumberFormat) (width : Nat) (color : Bool)
    (disks : List PhysicalDisk) :
    physicalSections disks (sectionsOf fmt width color disks)
      = (physicalDisks disks).zipIdx.map (sectionOf fmt width color) := by
  have hzip : disks.zip (sectionsOf fmt width color disks)
      = (numbered 0 disks).map (fun x => (x.1, sectionOf fmt width color x)) := by
    have hfst := map_fst_numbered disks 0
    unfold sectionsOf
    calc disks.zip ((numbered 0 disks).map (sectionOf fmt width color))
        = ((numbered 0 disks).map Prod.fst).zip
            ((numbered 0 disks).map (sectionOf fmt width color)) := by rw [hfst]
      _ = _ := List.zip_map' ..
  unfold physicalSections
  rw [hzip, List.filter_map, List.map_map, ← filter_numbered]
  rfl

/-! ## §5. The two views. -/

/-- A section whose bar and legend show the largest partition of the disk with the given pen. -/
structure LargestDrawnWith (fmt : NumberFormat) (width : Nat) (color : Bool) (d : PhysicalDisk)
    (text : List Char) (pen : Pen) where
  pens : List Pen
  /-- The place of the largest partition in start-offset order. -/
  place : Nat
  largest : Partition
  /-- The place of its segment. -/
  segment : Nat
  text_eq : text = sectionHead fmt d ++ drawing fmt d width color pens ++ ['\n']
  length_pens : pens.length = (segments d).length
  largestAt : LargestAt d place largest
  segment_eq : (segments d)[segment]? = some (partitionSegment place largest)
  pen_eq : pens[segment]? = some pen

/-- The overview, by its rows, and the listing, by its sections, in the same colours. -/
structure SameColours (fmt : NumberFormat) (width : Nat) (color : Bool) (disks : List PhysicalDisk)
    (rows sections : List (List Char)) : Prop where
  overview_drawn : ∃ overview, renderOverview fmt disks width color = some overview
    ∧ overview.toList = overviewHeader fmt (physicalDisks disks).length
        (totalSize (physicalDisks disks)) ++ rows.flatten
  listing_drawn : ∃ overview listing, renderOverview fmt disks width color = some overview
    ∧ renderListing fmt disks width color = some listing
    ∧ listing.toList = overview.toList ++ '\n' :: sections.flatten
  /-- One row for each physical disk, one section for each disk. -/
  rows_length : rows.length = (physicalDisks disks).length
  sections_printed : List.Forall₂ (fun d text => ∃ k, diskSection fmt width color k d = some text)
    disks sections
  /-- The slot of the row is the slot of the largest partition. -/
  same_pen : ∀ (k : Nat) (d : PhysicalDisk), (physicalDisks disks)[k]? = some d →
    ∃ (slot : Fin 8) (text : List Char),
      rows[k]? = some (overviewRow fmt width color (physicalDisks disks)
        (totalSize (physicalDisks disks)) ((Pen.slot slot).ansi, (Pen.slot slot).glyph) d)
      ∧ (physicalSections disks sections)[k]? = some text
      ∧ (d.partitions ≠ [] →
          Nonempty (LargestDrawnWith fmt width color d text (.slot slot)))

/-- The section of a physical disk with partitions. -/
theorem largestDrawnWith_sectionOf (fmt : NumberFormat) (width : Nat) (color : Bool)
    {d : PhysicalDisk} (k : Nat) (hphys : d.synthesized = false) (h : d.partitions ≠ []) :
    Nonempty (LargestDrawnWith fmt width color d (sectionOf fmt width color (d, k))
      (diskPen k)) := by
  obtain ⟨pens, i, p, j, hbar, hlen, hlargest, hj, hpen⟩ := diskBar_accent fmt width color k h
  have hne : ¬ d.partitions.isEmpty = true := by
    rwa [List.isEmpty_iff]
  have hbody : sectionBody fmt width color k d = some (drawing fmt d width color pens) := by
    unfold sectionBody
    rw [if_neg hne, if_neg (by rw [hphys]; exact Bool.false_ne_true), hbar, Option.map_some,
      String.toList_ofList]
  refine ⟨⟨pens, i, p, j, ?_, hlen, hlargest, hj, hpen⟩⟩
  unfold sectionOf diskSection
  rw [hbody]
  rfl

theorem sameColours (fmt : NumberFormat) (width : Nat) (color : Bool) {disks : List PhysicalDisk}
    (h : 2 ≤ (physicalDisks disks).length) :
    SameColours fmt width color disks (overviewLines fmt width color (physicalDisks disks))
      (sectionsOf fmt width color disks) := by
  have hoverview := renderOverview_eq fmt width color h
  have hlisting := renderListing_eq fmt width color h
  refine
    { overview_drawn := ⟨_, hoverview, String.toList_ofList⟩
      listing_drawn := ⟨_, _, hoverview, hlisting, ?_⟩
      rows_length := ?_
      sections_printed := ?_
      same_pen := ?_ }
  · rw [String.toList_ofList, String.toList_ofList]
  · unfold overviewLines
    rw [List.length_map, List.length_zipIdx]
  · conv_lhs => rw [← map_fst_numbered disks 0]
    unfold sectionsOf
    rw [List.forall₂_map_left_iff, List.forall₂_map_right_iff, List.forall₂_same]
    intro x _
    exact ⟨x.2, diskSection_eq fmt width color x.2 x.1⟩
  · intro k d hk
    have hphys : d.synthesized = false := by
      have hd := List.of_mem_filter (List.mem_of_getElem? hk)
      simpa using hd
    refine ⟨Fin.ofNat 8 k, sectionOf fmt width color (d, k), ?_, ?_, ?_⟩
    · unfold overviewLines
      rw [List.getElem?_map, List.getElem?_zipIdx, hk]
      simp only [Option.map_some, Nat.zero_add]
      rfl
    · rw [physicalSections_sectionsOf, List.getElem?_map, List.getElem?_zipIdx, hk]
      simp only [Option.map_some, Nat.zero_add]
    · exact largestDrawnWith_sectionOf fmt width color k hphys

/-- **THE VIEWS AGREE**: the slot that fills a disk's row in the overview is the slot of its largest
partition, and synthesized disks, wherever they stand, change neither the overview nor the section
of a physical disk. -/
theorem views_agree (fmt : NumberFormat) (width : Nat) (color : Bool) (disks : List PhysicalDisk)
    (h : 2 ≤ (physicalDisks disks).length) :
    ∃ rows sections, SameColours fmt width color disks rows sections
      ∧ ∀ disks', physicalDisks disks' = physicalDisks disks →
          renderOverview fmt disks' width color = renderOverview fmt disks width color
          ∧ ∃ sections', SameColours fmt width color disks' rows sections'
              ∧ physicalSections disks' sections' = physicalSections disks sections := by
  refine ⟨_, _, sameColours fmt width color h, ?_⟩
  intro disks' hsame
  have h' : 2 ≤ (physicalDisks disks').length := by
    rwa [hsame]
  refine ⟨?_, sectionsOf fmt width color disks', ?_, ?_⟩
  · rw [renderOverview_eq fmt width color h, renderOverview_eq fmt width color h', hsame]
  · have hcolours := sameColours fmt width color h'
    rwa [hsame] at hcolours
  · rw [physicalSections_sectionsOf, physicalSections_sectionsOf, hsame]

/-- Two disks, the second with two partitions of one size, and a container between them. -/
def mixed : List PhysicalDisk :=
  [ diskWith 512 [partitionAt "p1" 0 256],
    { diskWith 512 [] with synthesized := true },
    diskWith 768 [partitionAt "p1" 512 256, partitionAt "p2" 0 256] ]

theorem views_agree_mixed :
    ∃ rows sections, SameColours byteFormat 20 true mixed rows sections
      ∧ ∀ disks', physicalDisks disks' = physicalDisks mixed →
          renderOverview byteFormat disks' 20 true = renderOverview byteFormat mixed 20 true
          ∧ ∃ sections', SameColours byteFormat 20 true disks' rows sections'
              ∧ physicalSections disks' sections' = physicalSections mixed sections :=
  views_agree byteFormat 20 true mixed (by decide)

end LivediskForensic.Render
