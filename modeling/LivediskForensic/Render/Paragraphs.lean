/-
  LivediskForensic.Render.Paragraphs — THE LISTING CUT AT ITS BLANK LINES.

  `render_listing` writes the chart of the physical disks, when there are two
  or more, and a paragraph for each disk: a header line, and below it the bar
  with one legend line per segment, or one line per volume.  A reader finds the
  disks by these paragraphs, and that works exactly as long as no printed text
  brings a line feed of its own.

  Less is printed here than in the table: of a disk that is not synthesized
  only the names and the types of the partitions.  So neither a mount point nor
  a GPT name, which both come from outside, can forge a line.

      paragraphed_iff       — for every list of disks
      paragraphed_evidence  — for what the Linux and Windows backends list
-/
import LivediskForensic.Render.TableRows
import LivediskForensic.Render.Views

namespace LivediskForensic.Render

open LivediskForensic.Lib
open LivediskForensic.Sysfs (RawDisk RawPart build buildDisk parseMounts mem_build
  mem_partitions_buildDisk)
open LivediskForensic.DriveLayout
open LivediskForensic.Windows

/-! ## §1. The lines. -/

/-- Lines, each closed by a line feed. -/
def closed (ls : List (List Char)) : List Char := ls.flatMap (fun l => l ++ ['\n'])

theorem closed_cons (l : List Char) (ls : List (List Char)) :
    closed (l :: ls) = l ++ ['\n'] ++ closed ls := List.flatMap_cons

theorem closed_append (ls ls' : List (List Char)) : closed (ls ++ ls') = closed ls ++ closed ls' :=
  List.flatMap_append

theorem closed_map {α : Type} (f : α → List Char) (l : List α) :
    closed (l.map f) = (l.map (fun a => f a ++ ['\n'])).flatten := by
  unfold closed
  rw [List.flatMap_map, List.flatMap_def]

section Lines

variable (fmt : NumberFormat)

/-- The header line of a disk. -/
def headLine (d : PhysicalDisk) : List Char :=
  d.devicePath.toList ++ "  ".toList ++ (fmt.humanSize d.sizeBytes).toList
    ++ (if d.synthesized then " (synthesized)".toList else [])
    ++ (d.model.elim [] (fun m => "  ".toList ++ m.toList))

def volumeRow (p : Partition) : List Char :=
  "  ".toList ++ padRight 16 p.name.toList ++ ' ' :: padLeft 10 (fmt.humanSize p.sizeBytes).toList
    ++ "  ".toList ++ partitionInfo p

def legendRow (color : Bool) (total : UInt64) (pen : Pen) (seg : Segment) : List Char :=
  ' ' :: swatch color pen.ansi pen.glyph ++ ' ' :: (seg.index.elim
      (" -  ".toList ++ padRight 28 "free (unallocated)".toList)
      (fun idx => padLeft 2 (Nat.toDigits 10 idx) ++ "  ".toList ++ padRight 28 seg.label.toList)
    ++ ' ' :: padLeft 10 (fmt.humanSize seg.sizeBytes).toList
    ++ "  ".toList ++ padLeft 4 (fmt.percent seg.sizeBytes total).toList ++ ['%'])

def chartRow (width : Nat) (color : Bool) (physical : List PhysicalDisk) (total : UInt64)
    (pen : Pen) (d : PhysicalDisk) : List Char :=
  let fill := barFill width (maxSize physical) d.sizeBytes
  ' ' :: padRight (nameWidth physical) d.name.toList ++ "  [".toList
    ++ pushSlice color pen.ansi pen.glyph fill ++ List.replicate (width - fill) ' ' ++ "] ".toList
    ++ padLeft 10 (fmt.humanSize d.sizeBytes).toList ++ "  ".toList
    ++ padLeft 4 (fmt.percent d.sizeBytes (max total 1)).toList ++ ['%']

def chartHead (count : Nat) (total : UInt64) : List Char :=
  "All storage (".toList ++ Nat.toDigits 10 count ++ " physical disks, ".toList
    ++ (fmt.humanSize total).toList ++ " total):".toList

/-- The bar and its legend. -/
def barLines (width : Nat) (color : Bool) (pens : List Pen) (d : PhysicalDisk) :
    List (List Char) :=
  ('[' :: rowText color pens (segmentWidths d width) ++ [']'])
    :: List.zipWith (legendRow fmt color (max d.sizeBytes 1)) pens (segments d)

/-- What stands below the header. -/
def bodyLines (width : Nat) (color : Bool) (pens : List Pen) (d : PhysicalDisk) :
    List (List Char) :=
  if d.partitions.isEmpty then ["  (no partitions)".toList]
  else if d.synthesized then
    d.partitions.map (volumeRow fmt) ++ ["  (volumes share container space)".toList]
  else barLines fmt width color pens d

/-- A disk's paragraph. -/
def paragraph (width : Nat) (color : Bool) (pens : List Pen) (d : PhysicalDisk) :
    List (List Char) := headLine fmt d :: bodyLines fmt width color pens d

/-- The chart of the physical disks. -/
def chartLines (width : Nat) (color : Bool) (physical : List PhysicalDisk) : List (List Char) :=
  chartHead fmt physical.length (totalSize physical)
    :: physical.zipIdx.map (fun x => chartRow fmt width color physical (totalSize physical)
      (diskPen x.2) x.1)

variable {fmt}

theorem closed_barLines (width : Nat) (color : Bool) (pens : List Pen) (d : PhysicalDisk) :
    closed (barLines fmt width color pens d) = drawing fmt d width color pens := by
  have hrow : ∀ pen seg, legendRow fmt color (max d.sizeBytes 1) pen seg ++ ['\n']
      = legendLine fmt color (max d.sizeBytes 1) pen seg := by
    intro pen seg
    unfold legendRow legendLine legendText
    cases seg.index with
    | none => simp only [Option.elim_none, List.append_assoc, List.cons_append, List.nil_append]
    | some idx => simp only [Option.elim_some, List.append_assoc, List.cons_append, List.nil_append]
  have hlegend : (List.zipWith (legendRow fmt color (max d.sizeBytes 1)) pens (segments d)).map
      (fun l => l ++ ['\n'])
      = List.zipWith (legendLine fmt color (max d.sizeBytes 1)) pens (segments d) := by
    rw [List.map_zipWith]
    simp only [hrow]
  unfold barLines closed drawing
  rw [List.flatMap_cons, List.flatMap_def, hlegend]
  simp only [List.append_assoc, List.cons_append, List.nil_append]

/-- **The section of a disk is its paragraph and a blank line.** -/
theorem exists_diskSection (width : Nat) (color : Bool) (k : Nat) (d : PhysicalDisk) :
    ∃ pens : List Pen, pens.length = (segments d).length
      ∧ diskSection fmt width color k d
        = some (closed (paragraph fmt width color pens d ++ [[]])) := by
  obtain ⟨slots, hbar⟩ := diskBar_eq fmt d width k
  refine ⟨(segments d).map (penAt slots), List.length_map _, ?_⟩
  have hbody : sectionBody fmt width color k d
      = some (closed (bodyLines fmt width color ((segments d).map (penAt slots)) d)) := by
    unfold sectionBody bodyLines
    by_cases hempty : d.partitions.isEmpty = true
    · rw [if_pos hempty, if_pos hempty]
      rfl
    · rw [if_neg hempty, if_neg hempty]
      by_cases hsynth : d.synthesized = true
      · have hrow : ∀ p, volumeLine fmt p = volumeRow fmt p ++ ['\n'] := fun p => rfl
        rw [if_pos hsynth, if_pos hsynth, closed_append, closed_map, List.flatMap_def,
          funext hrow]
        rfl
      · rw [if_neg hsynth, if_neg hsynth, hbar color, closed_barLines, Option.map_some,
          String.toList_ofList]
  have hhead : sectionHead fmt d = headLine fmt d ++ ['\n'] := rfl
  unfold diskSection paragraph
  rw [hbody, hhead, closed_append]
  rfl

/-- **The sections of all disks.** -/
theorem exists_listingLoop (width : Nat) (color : Bool) (disks : List PhysicalDisk) : ∀ k,
    ∃ pens : List (List Pen), List.Forall₂ (fun ps d => ps.length = (segments d).length) pens disks
      ∧ listingLoop fmt width color k disks
        = some (closed ((List.zipWith (paragraph fmt width color) pens disks).flatMap
            (fun para => para ++ [[]]))) := by
  induction disks with
  | nil =>
      intro k
      exact ⟨[], List.Forall₂.nil, rfl⟩
  | cons d ds ih =>
      intro k
      obtain ⟨pens, hpens, hsection⟩ := @exists_diskSection fmt width color k d
      obtain ⟨rest, hrest, hloop⟩ := ih (if d.synthesized then k else k + 1)
      refine ⟨pens :: rest, List.Forall₂.cons hpens hrest, ?_⟩
      unfold listingLoop
      rw [hsection, hloop, List.zipWith_cons_cons, List.flatMap_cons,
        closed_append (paragraph fmt width color pens d ++ [[]])]
      rfl

end Lines

/-! ## §2. The paragraphs. -/

/-- How many lines stand below a disk's header. -/
def bodyHeight (d : PhysicalDisk) : Nat :=
  if d.partitions.isEmpty then 1
  else if d.synthesized then d.partitions.length + 1
  else (segments d).length + 1

/-- The heights of the paragraphs in front of the disks: the chart, if there is one. -/
def chartHeights (disks : List PhysicalDisk) : List Nat :=
  if (physicalDisks disks).length < 2 then [] else [(physicalDisks disks).length + 1]

/-- A disk's paragraph, as it is found in a text. -/
structure ParagraphOf (fmt : NumberFormat) (d : PhysicalDisk) (para : List (List Char)) : Prop where
  header : para.head? = some (headLine fmt d)
  height : para.length = bodyHeight d + 1
  no_blank : [] ∉ para

/-- Cut at its line feeds, the listing is the chart and one paragraph per disk in order, with a
blank line behind each. -/
def Paragraphed (fmt : NumberFormat) (width : Nat) (color : Bool) (disks : List PhysicalDisk) :
    Prop :=
  ∃ out charts paras, renderListing fmt disks width color = some out
    ∧ out.toList.splitOn '\n' = (charts ++ paras).flatMap (fun para => para ++ [[]]) ++ [[]]
    ∧ List.Forall₂ (fun n chart => chart.length = n ∧ [] ∉ chart) (chartHeights disks) charts
    ∧ List.Forall₂ (ParagraphOf fmt) disks paras

section Shape

variable (fmt : NumberFormat) (width : Nat) (color : Bool)

/-- The chart as the program writes it. -/
def charts (disks : List PhysicalDisk) : List (List (List Char)) :=
  if (physicalDisks disks).length < 2 then []
  else [chartLines fmt width color (physicalDisks disks)]

variable {fmt}

theorem overviewOf_eq (physical : List PhysicalDisk) :
    overviewOf fmt width color physical = closed (chartLines fmt width color physical) := by
  have hhead : overviewHeader fmt physical.length (totalSize physical)
      = chartHead fmt physical.length (totalSize physical) ++ ['\n'] := by
    unfold overviewHeader chartHead
    simp only [List.append_assoc]
    rfl
  have hrow : ∀ x : PhysicalDisk × Nat, overviewRow fmt width color physical (totalSize physical)
      ((diskPen x.2).ansi, (diskPen x.2).glyph) x.1
        = chartRow fmt width color physical (totalSize physical) (diskPen x.2) x.1 ++ ['\n'] := by
    intro x
    unfold overviewRow chartRow
    simp only [List.append_assoc, List.cons_append, List.nil_append]
  unfold overviewOf overviewLines chartLines
  rw [closed_cons, closed_map, hhead, funext hrow]

/-- **The text of a listing.** -/
theorem exists_renderListing {disks : List PhysicalDisk} (h : disks ≠ []) :
    ∃ pens : List (List Pen), List.Forall₂ (fun ps d => ps.length = (segments d).length) pens disks
      ∧ renderListing fmt disks width color
        = some (String.ofList (closed ((charts fmt width color disks
            ++ List.zipWith (paragraph fmt width color) pens disks).flatMap
              (fun para => para ++ [[]])))) := by
  obtain ⟨pens, hpens, hloop⟩ := @exists_listingLoop fmt width color disks 0
  refine ⟨pens, hpens, ?_⟩
  have hne : ¬ disks.isEmpty = true := by
    rwa [List.isEmpty_iff]
  unfold charts
  by_cases hfew : (physicalDisks disks).length < 2
  · have hoverview : renderOverview fmt disks width color = some "" := if_pos hfew
    unfold renderListing
    rw [if_neg hne, hoverview, hloop, if_pos hfew]
    rfl
  · have htwo : 2 ≤ (physicalDisks disks).length := by omega
    have hlisting := renderListing_eq fmt width color htwo
    have hsections : some (sectionsOf fmt width color disks).flatten
        = some (closed ((List.zipWith (paragraph fmt width color) pens disks).flatMap
            (fun para => para ++ [[]]))) :=
      (listingLoop_eq fmt width color disks 0).symm.trans hloop
    rw [hlisting, Option.some.inj hsections, overviewOf_eq, if_neg hfew, List.flatMap_append,
      closed_append, List.flatMap_singleton, closed_append]
    simp only [List.append_assoc]
    rfl

theorem height_bodyLines {pens : List Pen} {d : PhysicalDisk}
    (h : pens.length = (segments d).length) :
    (bodyLines fmt width color pens d).length = bodyHeight d := by
  unfold bodyLines bodyHeight
  split_ifs
  · rfl
  · rw [List.length_append, List.length_map]
    rfl
  · unfold barLines
    rw [List.length_cons, List.length_zipWith, h, Nat.min_self]

theorem no_blank_bodyLines (pens : List Pen) (d : PhysicalDisk) :
    [] ∉ bodyLines fmt width color pens d := by
  unfold bodyLines
  split_ifs
  · decide
  · rw [List.mem_append, not_or, List.mem_map]
    refine ⟨?_, by decide⟩
    rintro ⟨p, -, hp⟩
    have hindent : "  ".toList ≠ [] := by decide
    unfold volumeRow at hp
    simp only [List.append_eq_nil_iff] at hp
    exact hindent hp.1.1.1.1
  · unfold barLines
    rw [List.mem_cons, not_or]
    refine ⟨by simp, ?_⟩
    intro hmem
    obtain ⟨i, hi, hline⟩ := List.getElem_of_mem hmem
    rw [List.getElem_zipWith] at hline
    exact absurd hline (List.cons_ne_nil _ _)

theorem paragraphOf_paragraph {pens : List Pen} {d : PhysicalDisk}
    (h : pens.length = (segments d).length) :
    ParagraphOf fmt d (paragraph fmt width color pens d) where
  header := rfl
  height := by
    unfold paragraph
    rw [List.length_cons, height_bodyLines width color h]
  no_blank := by
    unfold paragraph
    rw [List.mem_cons, not_or]
    refine ⟨?_, no_blank_bodyLines width color pens d⟩
    have hgap : "  ".toList ≠ [] := by decide
    intro hnil
    have happ := hnil.symm
    unfold headLine at happ
    simp only [List.append_eq_nil_iff] at happ
    exact hgap happ.1.1.1.2

theorem paragraphs_zipWith {pens : List (List Pen)} {disks : List PhysicalDisk}
    (h : List.Forall₂ (fun ps d => ps.length = (segments d).length) pens disks) :
    List.Forall₂ (ParagraphOf fmt) disks (List.zipWith (paragraph fmt width color) pens disks) := by
  induction h with
  | nil => exact List.Forall₂.nil
  | cons hd _ ih => exact List.Forall₂.cons (paragraphOf_paragraph width color hd) ih

theorem charts_heights (disks : List PhysicalDisk) :
    List.Forall₂ (fun n chart => chart.length = n ∧ [] ∉ chart) (chartHeights disks)
      (charts fmt width color disks) := by
  unfold chartHeights charts
  split_ifs
  · exact List.Forall₂.nil
  · refine List.Forall₂.cons ⟨?_, ?_⟩ List.Forall₂.nil
    · unfold chartLines
      rw [List.length_cons, List.length_map, List.length_zipIdx]
    · unfold chartLines
      rw [List.mem_cons, not_or, List.mem_map]
      have htitle : "All storage (".toList ≠ [] := by decide
      constructor
      · intro hnil
        have happ := hnil.symm
        unfold chartHead at happ
        simp only [List.append_eq_nil_iff] at happ
        exact htitle happ.1.1.1.1
      · rintro ⟨x, -, hx⟩
        exact absurd hx (List.cons_ne_nil _ _)

/-- Paragraphs of given heights make up so many lines. -/
theorem length_spaced {heights : List Nat} {paras : List (List (List Char))}
    (h : List.Forall₂ (fun n para => para.length = n) heights paras) :
    (paras.flatMap (fun para => para ++ [[]])).length = (heights.map (· + 1)).sum := by
  induction h with
  | nil => rfl
  | cons hn _ ih =>
      rw [List.flatMap_cons, List.length_append, List.length_append, ih, hn, List.map_cons,
        List.sum_cons]
      rfl

/-- Two listings of paragraphs over the same disks have as many lines. -/
theorem length_paragraphs {disks : List PhysicalDisk} {cs ps : List (List (List Char))}
    (hcs : List.Forall₂ (fun n chart => chart.length = n ∧ [] ∉ chart) (chartHeights disks) cs)
    (hps : List.Forall₂ (ParagraphOf fmt) disks ps) :
    ((cs ++ ps).flatMap (fun para => para ++ [[]])).length
      = ((chartHeights disks).map (· + 1)).sum
        + (disks.map (fun d => bodyHeight d + 1 + 1)).sum := by
  have hpara : List.Forall₂ (fun n para => para.length = n)
      (disks.map (fun d => bodyHeight d + 1)) ps := by
    rw [List.forall₂_map_left_iff]
    exact hps.imp (fun _ _ hp => hp.height)
  rw [List.flatMap_append, List.length_append, length_spaced (hcs.imp (fun _ _ hc => hc.1)),
    length_spaced hpara, List.map_map]
  rfl

/-- **The listing is paragraphed exactly when no line of it holds a line feed.** -/
theorem paragraphed_iff_lines {disks : List PhysicalDisk} (h : disks ≠ []) :
    ∃ pens : List (List Pen), List.Forall₂ (fun ps d => ps.length = (segments d).length) pens disks
      ∧ (Paragraphed fmt width color disks
        ↔ ∀ para ∈ charts fmt width color disks
            ++ List.zipWith (paragraph fmt width color) pens disks, ∀ line ∈ para, Clean line) := by
  obtain ⟨pens, hpens, htext⟩ := @exists_renderListing fmt width color disks h
  refine ⟨pens, hpens, ?_⟩
  have hcharts := @charts_heights fmt width color disks
  have hparas := @paragraphs_zipWith fmt width color _ _ hpens
  constructor
  · rintro ⟨out, cs, ps, hout, hsplit, hcs, hps⟩ para hpara line hline
    -- as many pieces as lines were written
    have hlen : ((closed ((charts fmt width color disks
        ++ List.zipWith (paragraph fmt width color) pens disks).flatMap
          (fun para => para ++ [[]]))).splitOn '\n').length
        = ((charts fmt width color disks
          ++ List.zipWith (paragraph fmt width color) pens disks).flatMap
            (fun para => para ++ [[]])).length + 1 := by
      have heq := Option.some.inj (htext.symm.trans hout)
      rw [← heq, String.toList_ofList] at hsplit
      rw [hsplit, List.length_append, length_paragraphs hcs hps, length_paragraphs hcharts hparas]
      rfl
    exact clean_of_length_splitOn hlen line
      (List.mem_flatMap.mpr ⟨para, hpara, List.mem_append_left _ hline⟩)
  · intro hclean
    refine ⟨_, _, _, htext, ?_, hcharts, hparas⟩
    rw [String.toList_ofList]
    refine splitOn_flatMap_newline ?_
    intro line hline
    obtain ⟨para, hpara, hmem⟩ := List.mem_flatMap.mp hline
    rcases List.mem_append.mp hmem with hline' | hblank
    · exact hclean para hpara line hline'
    · rw [List.mem_singleton.mp hblank]
      exact List.not_mem_nil

end Shape

/-! ## §3. Which texts are printed. -/

/-- The texts of the formats hold no line feed. -/
structure FormatClean (fmt : NumberFormat) : Prop where
  humanSize : ∀ size, Clean (fmt.humanSize size).toList
  percent : ∀ part total, Clean (fmt.percent part total).toList

/-- No text of the disk that the listing prints holds a line feed. -/
structure PrintedClean (d : PhysicalDisk) : Prop where
  devicePath : Clean d.devicePath.toList
  model : ∀ m, d.model = some m → Clean m.toList
  name : ∀ p ∈ d.partitions, Clean p.name.toList
  /-- Of a volume everything, of a partition its type. -/
  info : ∀ p ∈ d.partitions, ∀ t ∈ (if d.synthesized then infoTexts p else p.partitionType.toList),
    Clean t.toList

theorem clean_toDigits (n : Nat) : Clean (Nat.toDigits 10 n) :=
  fun h => absurd (List.all_eq_true.mp (toDigits_isDigit n) '\n' h) (by decide)

theorem clean_pen : ∀ pen : Pen, pen.glyph ≠ '\n' := by
  intro pen
  cases pen with
  | free => decide
  | slot k =>
      have hall : ∀ k : Fin 8, (Pen.slot k).glyph ≠ '\n' := by decide
      exact hall k

theorem clean_colored (ansi : Nat) {blocks : List Char} (h : Clean blocks) :
    Clean (colored ansi blocks) := by
  have hopen : Clean (Char.ofNat 0x1B :: "[38;5;".toList) := by decide
  have hclose : Clean (Char.ofNat 0x1B :: "[0m".toList) := by decide
  have hm : 'm' ≠ '\n' := by decide
  unfold colored
  rw [clean_append, clean_append, clean_append, clean_cons hm]
  exact ⟨⟨⟨hopen, clean_toDigits ansi⟩, h⟩, hclose⟩

theorem clean_blocks (n : Nat) : Clean (List.replicate n BLOCK) :=
  fun h => absurd (List.eq_of_mem_replicate h) (by decide)

theorem clean_pushSlice (color : Bool) (pen : Pen) (w : Nat) :
    Clean (pushSlice color pen.ansi pen.glyph w) := by
  unfold pushSlice
  split_ifs
  · exact List.not_mem_nil
  · exact clean_colored _ (clean_blocks w)
  · exact fun h => clean_pen pen (List.eq_of_mem_replicate h).symm

theorem clean_swatch (color : Bool) (pen : Pen) : Clean (swatch color pen.ansi pen.glyph) := by
  unfold swatch
  split_ifs
  · exact clean_colored _ (clean_blocks 1)
  · exact fun h => clean_pen pen (List.mem_singleton.mp h).symm

theorem clean_rowText (color : Bool) (pens : List Pen) (widths : List Nat) :
    Clean (rowText color pens widths) := by
  intro h
  obtain ⟨pw, _, hpw⟩ := List.mem_flatMap.mp h
  exact clean_pushSlice color pw.1 pw.2 hpw

section Texts

variable {fmt : NumberFormat} (hfmt : FormatClean fmt)
include hfmt

theorem clean_headLine {d : PhysicalDisk} : Clean (headLine fmt d)
    ↔ Clean d.devicePath.toList ∧ ∀ m, d.model = some m → Clean m.toList := by
  have hgap : Clean "  ".toList := by decide
  have hkind : Clean (if d.synthesized then " (synthesized)".toList else []) := by
    split_ifs
    · decide
    · decide
  have hmodel : Clean (d.model.elim [] (fun m => "  ".toList ++ m.toList))
      ↔ ∀ m, d.model = some m → Clean m.toList := by
    cases d.model with
    | none => exact iff_of_true List.not_mem_nil (fun m hm => absurd hm (by simp))
    | some m =>
        show Clean ("  ".toList ++ m.toList) ↔ _
        rw [clean_append, and_iff_right hgap]
        simp only [Option.some.injEq, forall_eq']
  unfold headLine
  rw [clean_append, clean_append, clean_append, clean_append, hmodel]
  simp only [hgap, hfmt.humanSize, hkind, and_true]

theorem clean_volumeRow {p : Partition} : Clean (volumeRow fmt p)
    ↔ Clean p.name.toList ∧ ∀ t ∈ infoTexts p, Clean t.toList := by
  have hgap : Clean "  ".toList := by decide
  have hblank : ' ' ≠ '\n' := by decide
  unfold volumeRow
  simp only [clean_append, clean_padRight, clean_cons hblank, clean_padLeft, clean_partitionInfo,
    hgap, hfmt.humanSize, true_and, and_true]

theorem clean_legendRow {color : Bool} {total : UInt64} {pen : Pen} {seg : Segment} :
    Clean (legendRow fmt color total pen seg)
      ↔ (seg.index.isSome = true → Clean seg.label.toList) := by
  have hgap : Clean "  ".toList := by decide
  have hblank : ' ' ≠ '\n' := by decide
  have hdash : Clean " -  ".toList := by decide
  have hfree : Clean "free (unallocated)".toList := by decide
  have hpercent : Clean ['%'] := by decide
  have hswatch := clean_swatch color pen
  unfold legendRow
  cases hidx : seg.index with
  | none =>
      refine iff_of_true ?_ (fun h => absurd h (by simp))
      simp only [Option.elim_none, clean_append, clean_padRight, clean_cons hblank, clean_padLeft,
        hgap, hdash, hfree, hpercent, hswatch, hfmt.humanSize, hfmt.percent, and_self]
  | some idx =>
      simp only [Option.elim_some, clean_append, clean_padRight, clean_cons hblank, clean_padLeft,
        hgap, hpercent, hswatch, clean_toDigits, hfmt.humanSize, hfmt.percent, and_true, true_and,
        Option.isSome_some, forall_const]

theorem clean_chartRow {width : Nat} {color : Bool} {physical : List PhysicalDisk} {total : UInt64}
    {pen : Pen} {d : PhysicalDisk} :
    Clean (chartRow fmt width color physical total pen d) ↔ Clean d.name.toList := by
  have hblank : ' ' ≠ '\n' := by decide
  have hopen : Clean "  [".toList := by decide
  have hclose : Clean "] ".toList := by decide
  have hgap : Clean "  ".toList := by decide
  have hpercent : Clean ['%'] := by decide
  unfold chartRow
  simp only [clean_append, clean_padRight, clean_cons hblank, clean_padLeft, hgap, hopen, hclose,
    hpercent, clean_pushSlice, clean_blanks, hfmt.humanSize, hfmt.percent, and_true]

theorem clean_chartLines {width : Nat} {color : Bool} {physical : List PhysicalDisk} :
    (∀ line ∈ chartLines fmt width color physical, Clean line)
      ↔ ∀ d ∈ physical, Clean d.name.toList := by
  have htitle : Clean "All storage (".toList := by decide
  have hdisks : Clean " physical disks, ".toList := by decide
  have htotal : Clean " total):".toList := by decide
  have hhead : Clean (chartHead fmt physical.length (totalSize physical)) := by
    unfold chartHead
    simp only [clean_append, htitle, hdisks, htotal, clean_toDigits, hfmt.humanSize, and_self]
  unfold chartLines
  rw [List.forall_mem_cons, and_iff_right hhead, List.forall_mem_map]
  simp only [clean_chartRow hfmt]
  constructor
  · intro h d hd
    obtain ⟨i, hi⟩ := List.getElem?_of_mem hd
    exact h (d, i) (List.mem_zipIdx_iff_getElem?.mpr hi)
  · intro h x hx
    exact h x.1 (List.mem_of_getElem? (List.mem_zipIdx_iff_getElem?.mp hx))

omit hfmt in
/-- The labels of the legend are the names and types of the partitions. -/
theorem clean_labels {d : PhysicalDisk} :
    (∀ seg ∈ segments d, seg.index.isSome = true → Clean seg.label.toList)
      ↔ ∀ p ∈ d.partitions, Clean p.name.toList ∧ ∀ t ∈ p.partitionType.toList, Clean t.toList := by
  have hlabel : ∀ (i : Nat) (p : Partition), Clean (partitionSegment i p).label.toList
      ↔ Clean p.name.toList ∧ ∀ t ∈ p.partitionType.toList, Clean t.toList := by
    intro i p
    have hgap : Clean "  ".toList := by decide
    show Clean (p.name ++ "  " ++ p.partitionType.getD "-").toList ↔ _
    rw [String.toList_append, String.toList_append, clean_append, clean_append,
      and_iff_left hgap]
    cases p.partitionType with
    | none =>
        have hnone : Clean "-".toList := by decide
        exact and_congr_right (fun _ => iff_of_true hnone (fun t ht => absurd ht (by simp)))
    | some t => simp
  have hnumbered : (segments d).filter (fun s => s.index.isSome)
      = (byOffset d).zipIdx.map (fun x => partitionSegment x.2 x.1) :=
    filter_segmentLoop d.sizeBytes (byOffset d) 0 0
  constructor
  · intro h p hp
    obtain ⟨i, hi⟩ := List.getElem?_of_mem
      (show p ∈ byOffset d from mem_sortByKey.mpr hp)
    obtain ⟨j, hj⟩ := exists_segment hi
    exact (hlabel i p).mp (h _ (List.mem_of_getElem? hj) rfl)
  · intro h seg hseg hidx
    have hmem : seg ∈ (segments d).filter (fun s => s.index.isSome) :=
      List.mem_filter.mpr ⟨hseg, hidx⟩
    rw [hnumbered] at hmem
    obtain ⟨x, hx, rfl⟩ := List.mem_map.mp hmem
    have hp := List.mem_of_getElem? (List.mem_zipIdx_iff_getElem?.mp hx)
    exact (hlabel x.2 x.1).mpr (h x.1 (mem_sortByKey.mp hp))

/-- One legend line per segment, with any pens. -/
theorem clean_legend {color : Bool} {total : UInt64} {segs : List Segment} : ∀ {pens : List Pen},
    pens.length = segs.length →
    ((∀ line ∈ List.zipWith (legendRow fmt color total) pens segs, Clean line)
      ↔ ∀ seg ∈ segs, seg.index.isSome = true → Clean seg.label.toList) := by
  induction segs with
  | nil =>
      intro pens _
      rw [List.zipWith_nil_right]
      exact iff_of_true (fun _ h => absurd h List.not_mem_nil)
        (fun _ h => absurd h List.not_mem_nil)
  | cons seg segs ih =>
      intro pens hlen
      cases pens with
      | nil => exact absurd hlen (by simp)
      | cons pen pens =>
          rw [List.zipWith_cons_cons, List.forall_mem_cons, List.forall_mem_cons,
            clean_legendRow hfmt, ih (by simpa using hlen)]

/-- **The lines of a paragraph are clean when what is printed is.** -/
theorem clean_paragraph {width : Nat} {color : Bool} {pens : List Pen} {d : PhysicalDisk}
    (hpens : pens.length = (segments d).length) :
    (∀ line ∈ paragraph fmt width color pens d, Clean line) ↔ PrintedClean d := by
  have hbody : (∀ line ∈ bodyLines fmt width color pens d, Clean line)
      ↔ ∀ p ∈ d.partitions, Clean p.name.toList
        ∧ ∀ t ∈ (if d.synthesized then infoTexts p else p.partitionType.toList),
          Clean t.toList := by
    unfold bodyLines
    by_cases hempty : d.partitions.isEmpty = true
    · have hnone : Clean "  (no partitions)".toList := by decide
      rw [if_pos hempty]
      refine iff_of_true ?_ ?_
      · intro line hline
        rw [List.mem_singleton.mp hline]
        exact hnone
      · intro p hp
        rw [List.isEmpty_iff.mp hempty] at hp
        exact absurd hp List.not_mem_nil
    · rw [if_neg hempty]
      by_cases hsynth : d.synthesized = true
      · have hlast : Clean "  (volumes share container space)".toList := by decide
        rw [if_pos hsynth]
        simp only [if_pos hsynth, List.forall_mem_append, List.forall_mem_map, clean_volumeRow hfmt,
          List.forall_mem_singleton, hlast, and_true]
      · have hrow : Clean ('[' :: rowText color pens (segmentWidths d width) ++ [']']) := by
          rw [clean_append, clean_cons (by decide)]
          exact ⟨clean_rowText _ _ _, by decide⟩
        rw [if_neg hsynth]
        unfold barLines
        rw [List.forall_mem_cons, and_iff_right hrow, clean_legend hfmt hpens, clean_labels]
        simp only [if_neg hsynth]
  unfold paragraph
  rw [List.forall_mem_cons, clean_headLine hfmt, hbody]
  constructor
  · rintro ⟨⟨hpath, hmodel⟩, hparts⟩
    exact ⟨hpath, hmodel, fun p hp => (hparts p hp).1, fun p hp => (hparts p hp).2⟩
  · intro h
    exact ⟨⟨h.devicePath, h.model⟩, fun p hp => ⟨h.name p hp, h.info p hp⟩⟩

theorem clean_paragraphs {width : Nat} {color : Bool} {pens : List (List Pen)}
    {disks : List PhysicalDisk}
    (h : List.Forall₂ (fun ps d => ps.length = (segments d).length) pens disks) :
    (∀ para ∈ List.zipWith (paragraph fmt width color) pens disks, ∀ line ∈ para, Clean line)
      ↔ ∀ d ∈ disks, PrintedClean d := by
  induction h with
  | nil =>
      exact iff_of_true (fun _ h => absurd h List.not_mem_nil)
        (fun _ h => absurd h List.not_mem_nil)
  | cons hd _ ih =>
      rw [List.zipWith_cons_cons, List.forall_mem_cons, List.forall_mem_cons,
        clean_paragraph hfmt hd, ih]

/-! ## §4. When the listing is paragraphed. -/

/-- What the whole listing prints holds no line feed: the texts of the disks, and the names in the
chart, when there is one. -/
def ListingClean (disks : List PhysicalDisk) : Prop :=
  (2 ≤ (physicalDisks disks).length → ∀ d ∈ physicalDisks disks, Clean d.name.toList)
    ∧ ∀ d ∈ disks, PrintedClean d

theorem paragraphed_iff_clean (width : Nat) (color : Bool) {disks : List PhysicalDisk}
    (h : disks ≠ []) : Paragraphed fmt width color disks ↔ ListingClean disks := by
  obtain ⟨pens, hpens, hiff⟩ := @paragraphed_iff_lines fmt width color disks h
  rw [hiff, List.forall_mem_append, clean_paragraphs hfmt hpens]
  unfold ListingClean charts
  refine and_congr_left (fun _ => ?_)
  by_cases hfew : (physicalDisks disks).length < 2
  · rw [if_pos hfew]
    exact iff_of_true (fun _ h => absurd h List.not_mem_nil) (fun h2 => by omega)
  · rw [if_neg hfew, List.forall_mem_singleton, clean_chartLines hfmt]
    exact ⟨fun h _ => h, fun h => h (by omega)⟩

end Texts

/-- **WHEN A LISTING IS ONE PARAGRAPH PER DISK**: exactly when no text that it prints holds a line
feed. -/
theorem paragraphed_iff (fmt : NumberFormat) (hfmt : FormatClean fmt) (width : Nat) (color : Bool)
    (disks : List PhysicalDisk) (h : disks ≠ []) :
    Paragraphed fmt width color disks ↔ ListingClean disks :=
  paragraphed_iff_clean hfmt width color h

theorem formatClean_byteFormat : FormatClean byteFormat where
  humanSize := clean_byteFormat
  percent part total := by
    show Clean (Nat.repr _ ++ "." ++ Nat.repr _).toList
    rw [String.toList_append, String.toList_append, clean_append, clean_append]
    exact ⟨⟨clean_repr _, by decide⟩, clean_repr _⟩

theorem paragraphed_iff_mixed :
    Paragraphed byteFormat 20 false mixed ↔ ListingClean mixed :=
  paragraphed_iff byteFormat formatClean_byteFormat 20 false mixed (by decide)

/-! ## §5. The backends. -/

/-- The devices of the evidence that are listed with their partitions are physical ones. -/
def Evidence.Physical : Evidence → Prop
  | .sysfs disks _ => ∀ r ∈ disks, "dm-".toList.isPrefixOf r.name.toList = true → r.partitions = []
  | .layouts _ => True

theorem clean_drivePath (n : Nat) : Clean (drivePath n).toList := by
  unfold drivePath
  rw [String.toList_append, clean_append]
  exact ⟨by decide, clean_repr n⟩

/-- On Linux the names alone decide, whatever the mount table says. -/
theorem printedClean_build {disks : List RawDisk} (hnames : NamesClean disks) {text : String}
    (hphys : ∀ r ∈ disks, "dm-".toList.isPrefixOf r.name.toList = true → r.partitions = [])
    {d : PhysicalDisk} (hd : d ∈ build disks text) : PrintedClean d := by
  obtain ⟨hname, hmodel, hparts⟩ := devicesClean_build hnames text d hd
  obtain ⟨r, hr, rfl⟩ := mem_build.mp hd
  refine ⟨?_, hmodel, hparts, ?_⟩
  · have hdev : Clean "/dev/".toList := by decide
    show Clean ("/dev/" ++ r.name).toList
    rw [String.toList_append, clean_append]
    exact ⟨hdev, hname⟩
  · intro p hp t ht
    obtain ⟨q, hq, rfl⟩ := mem_partitions_buildDisk.mp hp
    by_cases hsynth : (buildDisk (parseMounts text) r).synthesized = true
    -- an overlay has no partitions, and the others show no mount points
    · rw [hphys r hr hsynth] at hq
      exact absurd hq List.not_mem_nil
    · rw [if_neg hsynth] at ht
      exact absurd ht List.not_mem_nil

/-- On Windows nothing the drives say can hold one: of a partition only the type is shown. -/
theorem printedClean_drives {api : ReadApi} (hapi : api.Lawful) {probe : Nat → OpenOutcome}
    {d : PhysicalDisk} (hd : d ∈ drives api probe) : PrintedClean d := by
  obtain ⟨hname, hmodel, hparts⟩ := devicesClean_drives api probe d hd
  obtain ⟨n, -, handle, buf, -, -, rfl⟩ := mem_drives.mp hd
  refine ⟨clean_drivePath n, hmodel, hparts, ?_⟩
  intro p hp t ht
  obtain ⟨q, hq, rfl⟩ := mem_partitions_diskOf.mp hp
  have htype : t ∈ q.typeDesc.toList := ht
  exact newline_not_mem_typeDesc hapi hq (Option.mem_toList.mp htype)

/-- **NO FORGED LINES IN THE LISTING.**  Whatever the mount table and the drives' partition tables
hold, the listing of physical devices with clean kernel names is one paragraph per disk. -/
theorem paragraphed_evidence (fmt : NumberFormat) (hfmt : FormatClean fmt) (api : ReadApi)
    (hapi : api.Lawful) (ev : Evidence) (hnames : ev.NamesClean) (hphys : ev.Physical)
    (width : Nat) (color : Bool) (h : ev.disks api ≠ []) :
    Paragraphed fmt width color (ev.disks api) := by
  have hprinted : ∀ d ∈ ev.disks api, Clean d.name.toList ∧ PrintedClean d := by
    intro d hd
    cases ev with
    | sysfs disks mounts =>
        exact ⟨(devicesClean_build hnames mounts d hd).1, printedClean_build hnames hphys hd⟩
    | layouts probe =>
        exact ⟨(devicesClean_drives api probe d hd).1, printedClean_drives hapi hd⟩
  refine (paragraphed_iff_clean hfmt width color h).mpr ⟨?_, fun d hd => (hprinted d hd).2⟩
  intro _ d hd
  exact (hprinted d (List.mem_of_mem_filter hd)).1

/-- The mount point that forges a row of the table. -/
theorem paragraphed_evidence_forged :
    Paragraphed byteFormat 20 false
      (Evidence.disks referenceApi (.sysfs [oneSector] forgedMounts)) :=
  paragraphed_evidence byteFormat formatClean_byteFormat referenceApi referenceApi_lawful
    (.sysfs [oneSector] forgedMounts) oneSector_clean
    (fun r hr hdm => by
      rw [List.mem_singleton.mp hr] at hdm
      exact absurd hdm (by decide)) 20 false (oneSector_listed _)

end LivediskForensic.Render
