/-
  LivediskForensic.Render.TableReader — THE TABLE READ BACK BY A SCRIPT.

  A script reads the table the usual way: cut at the line feeds, drop the
  header, cut each line at white space; the first word is the name, two more
  are the size, the fourth is the type, and a `part` belongs to the disk above
  it.  The columns are padded, not fenced, so this reader finds the disks only
  as long as every name is one word and every row is one line.

      group_flatMap     — the partitions find their disks
      words_tableRow    — the words of a row are those of its columns
      readTable_iff     — when the whole table is read back
-/
import LivediskForensic.Render.SizeOrder
import LivediskForensic.Render.TableRows

namespace LivediskForensic.Render

open LivediskForensic.Lib
open LivediskForensic.Sysfs (build)

/-! ## §1. The reader. -/

/-- The words of a text. -/
def words (s : List Char) : List (List Char) := wordsBy isWhiteSpace s

/-- A row as it is read. -/
structure Row where
  name : List Char
  size : List (List Char)
  kind : List Char
  info : List (List Char)
  deriving Repr, DecidableEq

def readRow (line : List Char) : Row where
  name := (words line).headD []
  size := ((words line).drop 1).take 2
  kind := (words line).getD 3 []
  info := (words line).drop 4

/-- Whether the row is a partition's. -/
def Row.isPart (row : Row) : Bool := row.kind = "part".toList

/-- Each disk with the partitions below it, and the partitions above the first disk. -/
def group (rows : List Row) : List Row × List (Row × List Row) :=
  rows.foldr (fun row acc =>
    if row.isPart then (row :: acc.1, acc.2) else ([], (row, acc.1) :: acc.2)) ([], [])

def readTable (text : List Char) : List Row × List (Row × List Row) :=
  group (((text.splitOn '\n').tail.dropLast).map readRow)

/-! ## §2. The grouping. -/

theorem group_cons_part {row : Row} (h : row.isPart = true) (rows : List Row) :
    group (row :: rows) = (row :: (group rows).1, (group rows).2) := by
  show (if row.isPart then _ else _) = _
  rw [if_pos h]
  rfl

theorem group_cons_disk {row : Row} (h : row.isPart = false) (rows : List Row) :
    group (row :: rows) = ([], (row, (group rows).1) :: (group rows).2) := by
  show (if row.isPart then _ else _) = _
  rw [if_neg (by rw [h]; exact Bool.false_ne_true)]
  rfl

/-- No row is lost, and none moves. -/
theorem flatten_group (rows : List Row) :
    (group rows).1 ++ (group rows).2.flatMap (fun x => x.1 :: x.2) = rows := by
  induction rows with
  | nil => rfl
  | cons row rows ih =>
      cases h : row.isPart with
      | true =>
          rw [group_cons_part h, List.cons_append, ih]
      | false =>
          rw [group_cons_disk h, List.flatMap_cons, List.nil_append, List.cons_append, ih]

/-- Partitions go to the disk above them. -/
theorem group_parts {parts : List Row} (h : ∀ row ∈ parts, row.isPart = true) (rows : List Row) :
    group (parts ++ rows) = (parts ++ (group rows).1, (group rows).2) := by
  induction parts with
  | nil => rfl
  | cons row parts ih =>
      have hrest := ih (fun r hr => h r (List.mem_cons_of_mem _ hr))
      rw [List.cons_append, group_cons_part (h row List.mem_cons_self), hrest]
      rfl

/-- **Disks written with their partitions are grouped as they were.** -/
theorem group_flatMap {devices : List (Row × List Row)}
    (h : ∀ x ∈ devices, x.1.isPart = false ∧ ∀ row ∈ x.2, row.isPart = true) :
    group (devices.flatMap (fun x => x.1 :: x.2)) = ([], devices) := by
  induction devices with
  | nil => rfl
  | cons x devices ih =>
      obtain ⟨hdisk, hparts⟩ := h x List.mem_cons_self
      have hrest := ih (fun y hy => h y (List.mem_cons_of_mem _ hy))
      rw [List.flatMap_cons, List.cons_append, group_cons_disk hdisk, group_parts hparts, hrest,
        List.append_nil]

/-! ## §3. The words of a row. -/

theorem words_blank (s t : List Char) : words (s ++ ' ' :: t) = words s ++ words t :=
  wordsBy_append_sep isWhiteSpace_space s t

theorem isWhiteSpace_of_mem_replicate {n : Nat} : ∀ c ∈ List.replicate n ' ',
    isWhiteSpace c = true := by
  intro c hc
  rw [List.eq_of_mem_replicate hc]
  exact isWhiteSpace_space

theorem words_padRight (w : Nat) (s : List Char) : words (padRight w s) = words s :=
  wordsBy_append_seps isWhiteSpace_of_mem_replicate s

theorem words_padLeft (w : Nat) (s : List Char) : words (padLeft w s) = words s :=
  wordsBy_sep_append isWhiteSpace_of_mem_replicate s

/-- **The words of a row are those of its columns**, however the columns overflow. -/
theorem words_tableRow (name size kind info : List Char) :
    words (tableRow name size kind info)
      = words name ++ words size ++ words kind ++ words info := by
  have hrow : tableRow name size kind info
      = padRight 14 name ++ ' ' :: (padLeft 10 size ++ ' ' :: ([] ++ ' '
        :: (padRight 6 kind ++ ' ' :: info))) := by
    unfold tableRow
    simp only [List.append_assoc, List.cons_append, List.nil_append]
    rfl
  have hnil : words [] = [] := rfl
  rw [hrow, words_blank, words_blank, words_blank, words_blank, words_padRight, words_padLeft,
    words_padRight, hnil, List.nil_append, List.append_assoc, List.append_assoc]

/-- A text that is read as one word. -/
def IsWord (s : List Char) : Prop := s ≠ [] ∧ ∀ c ∈ s, isWhiteSpace c = false

/-- For texts of the program. -/
theorem isWord_of_all {s : List Char} (hne : s ≠ [])
    (h : s.all (fun c => !isWhiteSpace c) = true) : IsWord s := by
  refine ⟨hne, ?_⟩
  intro c hc
  have hc' := List.all_eq_true.mp h c hc
  simpa using hc'

theorem words_eq_singleton {s : List Char} (h : IsWord s) : words s = [s] :=
  wordsBy_eq_singleton h.1 h.2

theorem isWord_of_mem_words {s w : List Char} (h : w ∈ words s) : IsWord w := by
  refine ⟨?_, eq_false_of_mem_wordsBy h⟩
  have hne := List.of_mem_filter h
  intro hnil
  rw [hnil] at hne
  exact absurd hne (by decide)

theorem isWord_clean {s : List Char} (h : IsWord s) : Clean s := by
  intro hmem
  exact absurd (h.2 '\n' hmem) (by decide)

/-- **When a row is read as it was written**: exactly when its name is one word. -/
theorem readRow_tableRow_iff {name size kind info : List Char} (hsize : (words size).length = 2)
    (hkind : IsWord kind) :
    readRow (tableRow name size kind info)
        = { name := name, size := words size, kind := kind, info := words info }
      ↔ IsWord name := by
  obtain ⟨number, unit, hwords⟩ := List.length_eq_two.mp hsize
  have hrow : words (tableRow name size kind info)
      = words name ++ number :: unit :: kind :: words info := by
    rw [words_tableRow, hwords, words_eq_singleton hkind]
    simp only [List.append_assoc, List.cons_append, List.nil_append]
  constructor
  · intro h
    -- the name that is read is the first word, and there is one
    have hname : (words (tableRow name size kind info)).headD [] = name := congrArg Row.name h
    have hmem : name ∈ words (tableRow name size kind info) := by
      cases hfirst : words (tableRow name size kind info) with
      | nil =>
          rw [hrow] at hfirst
          exact absurd hfirst (by simp)
      | cons first rest =>
          rw [hfirst] at hname
          rw [← hname]
          exact List.mem_cons_self
    exact isWord_of_mem_words hmem
  · intro h
    unfold readRow
    rw [hrow, words_eq_singleton h, hwords]
    rfl

/-! ## §4. The sizes. -/

/-- The size texts are a number and a unit, on one line. -/
structure SizeWords (fmt : NumberFormat) : Prop where
  two : ∀ size, (words (fmt.humanSize size).toList).length = 2
  clean : ∀ size, Clean (fmt.humanSize size).toList

theorem isWord_toDigits (n : Nat) : IsWord (Nat.toDigits 10 n) :=
  ⟨Nat.toDigits_ne_nil,
    fun c hc => isWhiteSpace_of_isDigit (List.all_eq_true.mp (toDigits_isDigit n) c hc)⟩

theorem isWord_tenthsText (tenths : Nat) : IsWord (tenthsText tenths).toList := by
  have hpoint : isWhiteSpace '.' = false := by decide
  rw [toList_tenthsText]
  refine ⟨by simp, ?_⟩
  intro c hc
  rw [List.mem_append, List.mem_cons] at hc
  rcases hc with hc | hc | hc
  · exact (isWord_toDigits _).2 c hc
  · rw [hc]
    exact hpoint
  · exact (isWord_toDigits _).2 c hc

theorem isWord_unit : ∀ name ∈ UNITS, IsWord name.toList := by
  intro name hname
  have hall : ∀ name ∈ UNITS, name.toList ≠ []
      ∧ name.toList.all (fun c => !isWhiteSpace c) = true := by decide
  obtain ⟨hne, hword⟩ := hall name hname
  exact isWord_of_all hne hword

theorem words_number_unit {number unit : List Char} (hnumber : IsWord number)
    (hunit : IsWord unit) : words (number ++ ' ' :: unit) = [number, unit] := by
  rw [words_blank, words_eq_singleton hnumber, words_eq_singleton hunit]
  rfl

/-- **The program's own sizes are a number and a unit.** -/
theorem sizeWords_humanSize (percent : UInt64 → UInt64 → String) :
    SizeWords { humanSize := humanSize, percent := percent } where
  two size := by
    show (words (humanSize size).toList).length = 2
    by_cases h : size.toNat < 1000
    · have htext : (humanSize size).toList = Nat.toDigits 10 size.toNat ++ ' ' :: ['B'] := by
        unfold humanSize Nat.repr
        rw [if_pos (UInt64.lt_iff_toNat_lt.mpr h), String.toList_append, String.toList_ofList]
        rfl
      have hbytes : IsWord ['B'] := isWord_of_all (by decide) (by decide)
      rw [htext, words_number_unit (isWord_toDigits _) hbytes]
      rfl
    · obtain ⟨unit, -, name, hname, htext⟩ := humanSize_shows_unit (Nat.not_lt.mp h)
      have hlist : (humanSize size).toList
          = (tenthsText (tenthsOf size.toNat unit)).toList ++ ' ' :: name.toList := by
        rw [htext, String.toList_append, String.toList_append, List.append_assoc]
        rfl
      rw [hlist, words_number_unit (isWord_tenthsText _)
        (isWord_unit name (List.mem_of_getElem? hname))]
      rfl
  clean size := clean_humanSize size

/-! ## §5. The table. -/

section Table

variable (fmt : NumberFormat)

/-- What a reader should find of a disk. -/
def diskEntry (d : PhysicalDisk) : Row where
  name := d.name.toList
  size := words (fmt.humanSize d.sizeBytes).toList
  kind := if d.synthesized then "synth".toList else "disk".toList
  info := words (diskInfo d).toList

def partEntry (p : Partition) : Row where
  name := p.name.toList
  size := words (fmt.humanSize p.sizeBytes).toList
  kind := "part".toList
  info := words (partitionInfo p)

def entriesOf (d : PhysicalDisk) : Row × List Row :=
  (diskEntry fmt d, d.partitions.map (partEntry fmt))

variable {fmt}

theorem readRow_diskRow_iff (hfmt : SizeWords fmt) {d : PhysicalDisk} :
    readRow (diskRow fmt d) = diskEntry fmt d ↔ IsWord d.name.toList := by
  have hkind : IsWord (if d.synthesized then "synth".toList else "disk".toList) := by
    cases d.synthesized with
    | false => exact isWord_of_all (by decide) (by decide)
    | true => exact isWord_of_all (by decide) (by decide)
  have hinfo : words (trimBy isWhiteSpace (diskInfo d).toList) = words (diskInfo d).toList :=
    wordsBy_trimBy isWhiteSpace _
  have hiff := @readRow_tableRow_iff d.name.toList _ _
    (trimBy isWhiteSpace (diskInfo d).toList) (hfmt.two d.sizeBytes) hkind
  rw [hinfo] at hiff
  exact hiff

theorem readRow_partitionRow_iff (hfmt : SizeWords fmt) {p : Partition} :
    readRow (partitionRow fmt p) = partEntry fmt p ↔ IsWord p.name.toList := by
  have hkind : IsWord "part".toList := isWord_of_all (by decide) (by decide)
  -- the indent is white space
  have hblanks : "  ".toList = List.replicate 2 ' ' := by decide
  have hindent : words ("  ".toList ++ p.name.toList) = words p.name.toList := by
    rw [hblanks]
    exact wordsBy_sep_append isWhiteSpace_of_mem_replicate _
  have hwords : words (partitionRow fmt p) = words (tableRow p.name.toList
      (fmt.humanSize p.sizeBytes).toList "part".toList (partitionInfo p)) := by
    unfold partitionRow
    rw [words_tableRow, words_tableRow, hindent]
  have hread : readRow (partitionRow fmt p) = readRow (tableRow p.name.toList
      (fmt.humanSize p.sizeBytes).toList "part".toList (partitionInfo p)) := by
    unfold readRow
    rw [hwords]
  rw [hread]
  exact readRow_tableRow_iff (hfmt.two p.sizeBytes) hkind

/-- The header or the notice, and the rows of the disks, each closed by a line feed. -/
theorem exists_title (disks : List PhysicalDisk) :
    ∃ title, Clean title ∧ (renderDisks fmt disks).toList
      = (title :: disks.flatMap (rowsOf fmt)).flatMap (fun row => row ++ ['\n']) := by
  cases disks with
  | nil =>
      have hnotice : "No disks found.\n".toList = "No disks found.".toList ++ ['\n'] := by decide
      exact ⟨"No disks found.".toList, by decide, hnotice.trans (List.append_nil _).symm⟩
  | cons d ds =>
      refine ⟨headerRow, by decide, ?_⟩
      unfold renderDisks
      rw [if_neg (by simp), String.toList_ofList, @List.flatMap_cons _ _ headerRow,
        List.flatMap_assoc, List.append_assoc, List.singleton_append]

/-- The rows of a disk are read as its entries. -/
theorem map_readRow_rowsOf_iff (hfmt : SizeWords fmt) {d : PhysicalDisk} :
    (rowsOf fmt d).map readRow = (entriesOf fmt d).1 :: (entriesOf fmt d).2
      ↔ IsWord d.name.toList ∧ ∀ p ∈ d.partitions, IsWord p.name.toList := by
  unfold rowsOf entriesOf
  rw [List.map_cons, List.map_map, List.cons.injEq, readRow_diskRow_iff hfmt, List.map_inj_left]
  refine and_congr_right (fun _ => ?_)
  simp only [Function.comp_apply, readRow_partitionRow_iff hfmt]

/-- **And so are the rows of all disks**, by induction over them: every disk has as many rows as
entries. -/
theorem map_readRow_flatMap_iff (hfmt : SizeWords fmt) (disks : List PhysicalDisk) :
    (disks.flatMap (rowsOf fmt)).map readRow
        = (disks.map (entriesOf fmt)).flatMap (fun x => x.1 :: x.2)
      ↔ ∀ d ∈ disks, IsWord d.name.toList ∧ ∀ p ∈ d.partitions, IsWord p.name.toList := by
  induction disks with
  | nil => exact iff_of_true rfl (fun _ h => absurd h List.not_mem_nil)
  | cons d ds ih =>
      have hlen : ((rowsOf fmt d).map readRow).length
          = ((entriesOf fmt d).1 :: (entriesOf fmt d).2).length := by
        unfold rowsOf entriesOf
        simp only [List.map_cons, List.length_cons, List.length_map]
      rw [List.flatMap_cons, List.map_append, List.map_cons, List.flatMap_cons,
        List.forall_mem_cons, ← ih, ← map_readRow_rowsOf_iff hfmt]
      constructor
      · intro h
        exact List.append_inj h hlen
      · intro h
        rw [h.1, h.2]

/-- As many rows as entries. -/
theorem length_entries (disks : List PhysicalDisk) :
    ((disks.map (entriesOf fmt)).flatMap (fun x => x.1 :: x.2)).length
      = (disks.flatMap (rowsOf fmt)).length := by
  rw [List.flatMap_map, List.length_flatMap, List.length_flatMap]
  unfold rowsOf entriesOf
  simp only [List.length_cons, List.length_map]

/-- What the rows of a disk need. -/
structure Readable (d : PhysicalDisk) : Prop where
  name : IsWord d.name.toList
  /-- The model, printed without the white space around it. -/
  description : Clean (trimBy isWhiteSpace (diskInfo d).toList)
  partitions : ∀ p ∈ d.partitions, IsWord p.name.toList ∧ ∀ text ∈ infoTexts p, Clean text.toList

theorem readable_iff (hfmt : SizeWords fmt) {d : PhysicalDisk} :
    Readable d ↔ (IsWord d.name.toList ∧ ∀ p ∈ d.partitions, IsWord p.name.toList)
      ∧ ∀ row ∈ rowsOf fmt d, Clean row := by
  have hkind : Clean (if d.synthesized then "synth".toList else "disk".toList) := by
    cases d.synthesized with
    | false => decide
    | true => decide
  unfold rowsOf
  rw [List.forall_mem_cons, List.forall_mem_map]
  constructor
  · intro h
    refine ⟨⟨h.name, fun p hp => (h.partitions p hp).1⟩, ?_, ?_⟩
    · unfold diskRow
      rw [clean_tableRow]
      exact ⟨isWord_clean h.name, hfmt.clean _, hkind, h.description⟩
    · intro p hp
      obtain ⟨hname, htexts⟩ := h.partitions p hp
      exact (clean_partitionRow hfmt.clean (isWord_clean hname)).mpr htexts
  · intro h
    obtain ⟨⟨hname, hnames⟩, hrow, hrows⟩ := h
    unfold diskRow at hrow
    rw [clean_tableRow] at hrow
    refine ⟨hname, hrow.2.2.2, ?_⟩
    intro p hp
    exact ⟨hnames p hp,
      (clean_partitionRow hfmt.clean (isWord_clean (hnames p hp))).mp (hrows p hp)⟩

end Table

/-- The pieces between the title and the end are the rows, when every line is clean. -/
theorem rows_of_clean {title : List Char} {rows : List (List Char)} (htitle : Clean title)
    (h : ∀ row ∈ rows, Clean row) :
    (((title :: rows).flatMap (fun row => row ++ ['\n'])).splitOn '\n').tail.dropLast = rows := by
  have hall : ∀ row ∈ title :: rows, '\n' ∉ row := List.forall_mem_cons.mpr ⟨htitle, h⟩
  rw [splitOn_flatMap_newline hall, List.cons_append, List.tail_cons, List.dropLast_concat]

/-- As many pieces between them as rows, and every line is clean. -/
theorem clean_of_length_rows {title : List Char} {rows : List (List Char)}
    (h : (((title :: rows).flatMap (fun row => row ++ ['\n'])).splitOn '\n').tail.dropLast.length
      = rows.length) : ∀ row ∈ rows, Clean row := by
  have hpos : 0 < ((title :: rows).flatMap (fun row => row ++ ['\n'])).count '\n' := by
    rw [List.count_pos_iff]
    refine List.mem_flatMap.mpr ⟨title, List.mem_cons_self, ?_⟩
    exact List.mem_append_right _ (List.mem_singleton.mpr rfl)
  have hpieces := length_splitOn_newline ((title :: rows).flatMap (fun row => row ++ ['\n']))
  rw [List.length_dropLast, List.length_tail] at h
  have hlen : (((title :: rows).flatMap (fun row => row ++ ['\n'])).splitOn '\n').length
      = (title :: rows).length + 1 := by
    rw [List.length_cons]
    omega
  exact fun row hrow => clean_of_length_splitOn hlen row (List.mem_cons_of_mem _ hrow)

/-- **THE TABLE IS READ BACK** exactly when every name is one word and every row is one line. -/
theorem readTable_iff (fmt : NumberFormat) (hfmt : SizeWords fmt) (disks : List PhysicalDisk) :
    readTable (renderDisks fmt disks).toList = ([], disks.map (entriesOf fmt))
      ↔ ∀ d ∈ disks, Readable d := by
  obtain ⟨title, htitle, htext⟩ := @exists_title fmt disks
  have hdisks : ∀ x ∈ disks.map (entriesOf fmt),
      x.1.isPart = false ∧ ∀ row ∈ x.2, row.isPart = true := by
    rw [List.forall_mem_map]
    intro d _
    refine ⟨?_, ?_⟩
    · have hkinds : ∀ synthesized : Bool, (if synthesized then "synth".toList else "disk".toList)
          ≠ "part".toList := by decide
      exact decide_eq_false (hkinds d.synthesized)
    · intro row hrow
      obtain ⟨p, -, rfl⟩ := List.mem_map.mp hrow
      exact decide_eq_true rfl
  unfold readTable
  rw [htext]
  constructor
  · intro h
    -- nothing is lost in the grouping, so there are as many pieces as rows
    have hread := flatten_group (((((title :: disks.flatMap (rowsOf fmt)).flatMap
      (fun row => row ++ ['\n'])).splitOn '\n').tail.dropLast).map readRow)
    rw [h, List.nil_append] at hread
    have hclean : ∀ row ∈ disks.flatMap (rowsOf fmt), Clean row := by
      refine @clean_of_length_rows title _ ?_
      have hlen := congrArg List.length hread
      rw [List.length_map, length_entries] at hlen
      exact hlen.symm
    rw [rows_of_clean htitle hclean] at hread
    have hwords := (map_readRow_flatMap_iff hfmt disks).mp hread.symm
    intro d hd
    exact (readable_iff hfmt).mpr ⟨hwords d hd,
      fun row hrow => hclean row (List.mem_flatMap.mpr ⟨d, hd, hrow⟩)⟩
  · intro h
    have hclean : ∀ row ∈ disks.flatMap (rowsOf fmt), Clean row := by
      intro row hrow
      obtain ⟨d, hd, hmem⟩ := List.mem_flatMap.mp hrow
      exact ((readable_iff hfmt).mp (h d hd)).2 row hmem
    have hwords := (map_readRow_flatMap_iff hfmt disks).mpr
      (fun d hd => ((readable_iff hfmt).mp (h d hd)).1)
    rw [rows_of_clean htitle hclean, hwords]
    exact group_flatMap hdisks

/-- The table of one disk, whose mount point holds a line feed. -/
theorem readTable_iff_forged :
    readTable (renderDisks { humanSize := humanSize, percent := byteFormat.percent }
        (build [oneSector] forgedMounts)).toList
        = ([], (build [oneSector] forgedMounts).map
            (entriesOf { humanSize := humanSize, percent := byteFormat.percent }))
      ↔ ∀ d ∈ build [oneSector] forgedMounts, Readable d :=
  readTable_iff _ (sizeWords_humanSize _) (build [oneSector] forgedMounts)

end LivediskForensic.Render
