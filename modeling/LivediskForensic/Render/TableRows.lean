/-
  LivediskForensic.Render.TableRows — ONE ROW PER DEVICE?

  The table is text, its rows are lines, and a line feed inside of a row makes
  two of it.  So the table has one row per device exactly when no printed text
  holds a line feed (`oneRowPerDevice_iff_clean`).  Of the texts the operating
  system supplies two are decoded on the way, and can hold one:

      oneRowPerDevice_build_iff     — the mount point, from its octal escapes
      oneRowPerDevice_enumerate_iff — the GPT partition name, from UTF-16

  That is all: under both conditions the rows are the devices.
-/
import LivediskForensic.Linux.MountNewline
import LivediskForensic.Render.Table
import LivediskForensic.Windows.NameNewline

namespace LivediskForensic.Render

open LivediskForensic.Lib
open LivediskForensic.Sysfs (RawDisk RawPart NEWLINE_ESCAPE build buildPartition mem_build
  mem_partitions_buildDisk mountField newline_mem_mountPoint_iff parseMounts)
open LivediskForensic.DriveLayout
open LivediskForensic.Windows

/-! ## §1. The rows of a table. -/

/-- The header, then for each disk its row and the rows of its partitions. -/
def tableRows (fmt : NumberFormat) (disks : List PhysicalDisk) : List (List Char) :=
  headerRow :: disks.flatMap (rowsOf fmt)

/-- Cut at its line feeds, the table is its rows, and the text ends with the last of them. -/
def OneRowPerDevice (fmt : NumberFormat) (disks : List PhysicalDisk) : Prop :=
  (renderDisks fmt disks).toList.splitOn '\n' = tableRows fmt disks ++ [[]]

/-- The text holds no line feed. -/
def Clean (s : List Char) : Prop := '\n' ∉ s

instance (s : List Char) : Decidable (Clean s) := inferInstanceAs (Decidable ('\n' ∉ s))

theorem clean_append {s t : List Char} : Clean (s ++ t) ↔ Clean s ∧ Clean t := by
  unfold Clean
  rw [List.mem_append, not_or]

theorem clean_blanks (n : Nat) : Clean (List.replicate n ' ') := by
  intro h
  exact absurd (List.eq_of_mem_replicate h) (by decide)

theorem clean_padRight {w : Nat} {s : List Char} : Clean (padRight w s) ↔ Clean s := by
  unfold padRight
  rw [clean_append]
  exact and_iff_left (clean_blanks _)

theorem clean_padLeft {w : Nat} {s : List Char} : Clean (padLeft w s) ↔ Clean s := by
  unfold padLeft
  rw [clean_append]
  exact and_iff_right (clean_blanks _)

theorem clean_cons {c : Char} (hc : c ≠ '\n') {s : List Char} : Clean (c :: s) ↔ Clean s := by
  unfold Clean
  rw [List.mem_cons, not_or]
  exact and_iff_right (fun h => hc h.symm)

/-- A row holds a line feed where one of its columns does. -/
theorem clean_tableRow {name size kind info : List Char} :
    Clean (tableRow name size kind info) ↔ Clean name ∧ Clean size ∧ Clean kind ∧ Clean info := by
  have hgap : Clean "  ".toList := by decide
  have hblank : ' ' ≠ '\n' := by decide
  unfold tableRow
  simp only [clean_append, clean_padRight, clean_padLeft, clean_cons hblank, hgap, and_true,
    and_assoc]

/-- **When the rows are the devices**: no row holds a line feed. -/
theorem oneRowPerDevice_iff (fmt : NumberFormat) {disks : List PhysicalDisk} (h : disks ≠ []) :
    OneRowPerDevice fmt disks ↔ ∀ d ∈ disks, ∀ row ∈ rowsOf fmt d, Clean row := by
  have hne : ¬ disks.isEmpty = true := by
    rwa [List.isEmpty_iff]
  have htext : (renderDisks fmt disks).toList
      = (tableRows fmt disks).flatMap (fun row => row ++ ['\n']) := by
    unfold renderDisks tableRows
    rw [if_neg hne, String.toList_ofList, List.flatMap_cons, List.flatMap_assoc,
      List.append_assoc, List.singleton_append]
  have hheader : Clean headerRow := by decide
  unfold OneRowPerDevice
  rw [htext, splitOn_flatMap_newline_iff]
  unfold tableRows
  rw [List.forall_mem_cons]
  constructor
  · intro hall d hd row hrow
    exact hall.2 row (List.mem_flatMap.mpr ⟨d, hd, hrow⟩)
  · intro hall
    refine ⟨hheader, ?_⟩
    intro row hrow
    obtain ⟨d, hd, hrow⟩ := List.mem_flatMap.mp hrow
    exact hall d hd row hrow

/-! ## §2. The columns. -/

/-- A joined text holds a line feed where one of its parts does. -/
theorem clean_intercalate {sep : List Char} (hsep : Clean sep) (parts : List (List Char)) :
    Clean (List.intercalate sep parts) ↔ ∀ part ∈ parts, Clean part := by
  induction parts with
  | nil => simp [Clean, List.intercalate]
  | cons part parts ih =>
      cases parts with
      | nil =>
          rw [List.intercalate_singleton]
          simp
      | cons next parts =>
          rw [List.intercalate_cons_cons, clean_append, clean_append, ih, and_iff_left hsep]
          simp only [List.forall_mem_cons]

/-- The texts of the last column. -/
def infoTexts (p : Partition) : List String :=
  p.partitionType.toList ++ p.mountPoint.toList ++ p.label.toList

theorem clean_partitionInfo {p : Partition} :
    Clean (partitionInfo p) ↔ ∀ text ∈ infoTexts p, Clean text.toList := by
  have hsep : Clean "  ".toList := by decide
  have hbracket : ∀ s : List Char, Clean ('[' :: s ++ [']']) ↔ Clean s := by
    intro s
    rw [List.cons_append, clean_cons (by decide), clean_append]
    exact and_iff_left (by decide)
  unfold partitionInfo infoTexts
  rw [clean_intercalate hsep]
  simp only [List.forall_mem_append, List.forall_mem_map, hbracket]

theorem clean_diskInfo {d : PhysicalDisk} (h : ∀ m, d.model = some m → Clean m.toList) :
    Clean (trimBy isWhiteSpace (diskInfo d).toList) := by
  have hmodel : Clean (d.model.getD "").toList := by
    cases hm : d.model with
    | none => exact List.not_mem_nil
    | some m => exact h m hm
  have hinfo : Clean (diskInfo d).toList := by
    unfold diskInfo
    by_cases hr : d.removable = true
    · rw [if_pos hr]
      by_cases he : (d.model.getD "").isEmpty = true
      · rw [if_pos he]
        decide
      · rw [if_neg he, String.toList_append, clean_append]
        exact ⟨hmodel, by decide⟩
    · rw [if_neg hr]
      exact hmodel
  exact fun hnl => hinfo (mem_of_mem_trimBy hnl)

/-- The names and models of the devices hold no line feed. -/
def DevicesClean (disks : List PhysicalDisk) : Prop :=
  ∀ d ∈ disks, Clean d.name.toList ∧ (∀ m, d.model = some m → Clean m.toList)
    ∧ ∀ p ∈ d.partitions, Clean p.name.toList

section Columns

variable {fmt : NumberFormat} (hfmt : ∀ size, Clean (fmt.humanSize size).toList)
include hfmt

theorem clean_diskRow {d : PhysicalDisk} (hname : Clean d.name.toList)
    (hmodel : ∀ m, d.model = some m → Clean m.toList) : Clean (diskRow fmt d) := by
  unfold diskRow
  rw [clean_tableRow]
  refine ⟨hname, hfmt d.sizeBytes, ?_, clean_diskInfo hmodel⟩
  cases d.synthesized <;> decide

theorem clean_partitionRow {p : Partition} (hname : Clean p.name.toList) :
    Clean (partitionRow fmt p) ↔ ∀ text ∈ infoTexts p, Clean text.toList := by
  have hkind : Clean "part".toList := by decide
  have hindent : Clean ("  ".toList ++ p.name.toList) := by
    rw [clean_append]
    exact ⟨by decide, hname⟩
  unfold partitionRow
  rw [clean_tableRow, clean_partitionInfo]
  exact ⟨fun h => h.2.2.2, fun h => ⟨hindent, hfmt p.sizeBytes, hkind, h⟩⟩

/-- **Where names and models hold no line feed, only the last column can break a row.** -/
theorem oneRowPerDevice_iff_clean {disks : List PhysicalDisk} (h : disks ≠ [])
    (hclean : DevicesClean disks) :
    OneRowPerDevice fmt disks
      ↔ ∀ d ∈ disks, ∀ p ∈ d.partitions, ∀ text ∈ infoTexts p, Clean text.toList := by
  rw [oneRowPerDevice_iff fmt h]
  unfold rowsOf
  constructor
  · intro hrows d hd p hp
    rw [← clean_partitionRow hfmt ((hclean d hd).2.2 p hp)]
    exact hrows d hd _ (List.mem_cons_of_mem _ (List.mem_map_of_mem hp))
  · intro htexts d hd row hrow
    obtain ⟨hname, hmodel, hparts⟩ := hclean d hd
    rcases List.mem_cons.mp hrow with rfl | hrow
    · exact clean_diskRow hfmt hname hmodel
    · obtain ⟨p, hp, rfl⟩ := List.mem_map.mp hrow
      exact (clean_partitionRow hfmt (hparts p hp)).mpr (htexts d hd p hp)

end Columns

/-! ## §3. Linux. -/

/-- The kernel's names and models hold no line feed. -/
def NamesClean (disks : List RawDisk) : Prop :=
  ∀ r ∈ disks, Clean r.name.toList ∧ (∀ m, r.model = some m → Clean m.toList)
    ∧ ∀ q ∈ r.partitions, Clean q.name.toList

theorem devicesClean_build {disks : List RawDisk} (hnames : NamesClean disks) (text : String) :
    DevicesClean (build disks text) := by
  intro d hd
  obtain ⟨r, hr, rfl⟩ := mem_build.mp hd
  obtain ⟨hname, hmodel, hparts⟩ := hnames r hr
  refine ⟨hname, ?_, ?_⟩
  · intro m hm
    -- the model is printed trimmed, and not at all when nothing is left
    obtain ⟨hmap, -⟩ := Option.filter_eq_some_iff.mp hm
    obtain ⟨m', hm', rfl⟩ := Option.map_eq_some_iff.mp hmap
    rw [String.toList_ofList]
    exact fun hnl => hmodel m' hm' (mem_of_mem_trimBy hnl)
  · intro p hp
    obtain ⟨q, hq, rfl⟩ := mem_partitions_buildDisk.mp hp
    exact hparts q hq

/-- The only text of a partition's last column is its mount point. -/
theorem clean_infoTexts_buildPartition_iff {text : String} {q : RawPart} :
    (∀ t ∈ infoTexts (buildPartition (parseMounts text) q), Clean t.toList)
      ↔ ∀ field, mountField text q.name = some field → ¬ NEWLINE_ESCAPE <:+: field := by
  have hiff : (∃ m, (buildPartition (parseMounts text) q).mountPoint = some m ∧ '\n' ∈ m.toList)
      ↔ ∃ field, mountField text q.name = some field ∧ NEWLINE_ESCAPE <:+: field :=
    newline_mem_mountPoint_iff
  have hinfo : infoTexts (buildPartition (parseMounts text) q)
      = (buildPartition (parseMounts text) q).mountPoint.toList := List.append_nil _
  rw [hinfo]
  unfold Clean
  simp only [Option.mem_toList]
  constructor
  · intro hclean field hfield hesc
    obtain ⟨m, hm, hnl⟩ := hiff.mpr ⟨field, hfield, hesc⟩
    exact hclean m hm hnl
  · intro hfields m hm hnl
    obtain ⟨field, hfield, hesc⟩ := hiff.mp ⟨m, hm, hnl⟩
    exact hfields field hfield hesc

/-- **WHEN A LINUX TABLE HAS ONE ROW PER DEVICE**: when no partition is mounted, first of all, at
a path with an escaped line feed. -/
theorem oneRowPerDevice_build_iff {fmt : NumberFormat}
    (hfmt : ∀ size, Clean (fmt.humanSize size).toList) {disks : List RawDisk}
    (hnames : NamesClean disks) {text : String} (h : build disks text ≠ []) :
    OneRowPerDevice fmt (build disks text)
      ↔ ∀ r ∈ disks, ∀ q ∈ r.partitions, ∀ field, mountField text q.name = some field →
          ¬ NEWLINE_ESCAPE <:+: field := by
  rw [oneRowPerDevice_iff_clean hfmt h (devicesClean_build hnames text)]
  constructor
  · intro hclean r hr q hq
    rw [← clean_infoTexts_buildPartition_iff]
    exact hclean _ (mem_build.mpr ⟨r, hr, rfl⟩) _ (mem_partitions_buildDisk.mpr ⟨q, hq, rfl⟩)
  · intro hfields d hd p hp
    obtain ⟨r, hr, rfl⟩ := mem_build.mp hd
    obtain ⟨q, hq, rfl⟩ := mem_partitions_buildDisk.mp hp
    exact clean_infoTexts_buildPartition_iff.mpr (hfields r hr q hq)

/-! ## §4. Windows. -/

theorem clean_repr (n : Nat) : Clean (Nat.repr n).toList := by
  intro h
  unfold Nat.repr at h
  rw [String.toList_ofList] at h
  exact absurd (List.all_eq_true.mp (toDigits_isDigit n) '\n' h) (by decide)

theorem clean_driveName (n : Nat) : Clean (driveName n).toList := by
  unfold driveName
  rw [String.toList_append, clean_append]
  exact ⟨by decide, clean_repr n⟩

/-- The disks of the drives, none when the probing fails. -/
def drives (api : ReadApi) (probe : Nat → OpenOutcome) : List PhysicalDisk :=
  (enumerate api probe).toOption.getD []

theorem mem_drives {api : ReadApi} {probe : Nat → OpenOutcome} {d : PhysicalDisk} :
    d ∈ drives api probe ↔ ∃ n < MAX_DRIVES, ∃ handle buf, probe n = .opened handle
      ∧ handle.layout = some buf ∧ d = diskOf n handle (parseDriveLayout api buf.toList) := by
  unfold drives
  rw [enumerate_getD_perm.mem_iff, mem_found]
  simp only [diskAt_eq_some_iff]

theorem mem_partitions_diskOf {n : Nat} {handle : Handle} {parsed : ParsedLayout} {p : Partition} :
    p ∈ (diskOf n handle parsed).partitions ↔ ∃ q ∈ parsed.partitions, partitionOf n q = p := by
  unfold diskOf
  rw [mem_sortByKey, List.mem_map]

theorem devicesClean_drives (api : ReadApi) (probe : Nat → OpenOutcome) :
    DevicesClean (drives api probe) := by
  intro d hd
  obtain ⟨n, -, handle, buf, -, -, rfl⟩ := mem_drives.mp hd
  refine ⟨clean_driveName n, fun m hm => absurd hm (by simp [diskOf]), ?_⟩
  intro p hp
  obtain ⟨q, -, rfl⟩ := mem_partitions_diskOf.mp hp
  unfold partitionOf
  rw [String.toList_append, String.toList_append, clean_append, clean_append]
  exact ⟨⟨clean_driveName n, by decide⟩, clean_repr _⟩

/-- Of the two texts of a partition only the name can hold a line feed. -/
theorem clean_infoTexts_partitionOf_iff {api : ReadApi} (hapi : api.Lawful) (n : Nat)
    (buf : List UInt8) :
    (∀ q ∈ (parseDriveLayout api buf).partitions, ∀ t ∈ infoTexts (partitionOf n q),
      Clean t.toList) ↔ ¬ TableForges api buf := by
  rw [← newline_mem_partitions_iff]
  constructor
  · rintro hclean ⟨q, hq, l, hl, hnl⟩
    refine hclean q hq l ?_ hnl
    exact List.mem_append_right _ (Option.mem_toList.mpr hl)
  · intro hnot q hq t ht hnl
    unfold infoTexts partitionOf at ht
    simp only [Option.toList_none, List.append_nil, List.mem_append, Option.mem_toList] at ht
    rcases ht with hty | hl
    · exact newline_not_mem_typeDesc hapi hq hty hnl
    · exact hnot ⟨q, hq, t, hl, hnl⟩

/-- **WHEN A WINDOWS TABLE HAS ONE ROW PER DEVICE**: when no drive's partition table has an entry
in use whose name holds a line feed between visible units. -/
theorem oneRowPerDevice_drives_iff {fmt : NumberFormat}
    (hfmt : ∀ size, Clean (fmt.humanSize size).toList) {api : ReadApi} (hapi : api.Lawful)
    {probe : Nat → OpenOutcome} (h : drives api probe ≠ []) :
    OneRowPerDevice fmt (drives api probe)
      ↔ ∀ n < MAX_DRIVES, ∀ handle buf, probe n = .opened handle → handle.layout = some buf →
          ¬ TableForges api buf.toList := by
  rw [oneRowPerDevice_iff_clean hfmt h (devicesClean_drives api probe)]
  constructor
  · intro hclean n hn handle buf hp hl
    rw [← clean_infoTexts_partitionOf_iff hapi n]
    intro q hq
    exact hclean _ (mem_drives.mpr ⟨n, hn, handle, buf, hp, hl, rfl⟩) _
      (mem_partitions_diskOf.mpr ⟨q, hq, rfl⟩)
  · intro hnot d hd p hp
    obtain ⟨n, hn, handle, buf, hopen, hlayout, rfl⟩ := mem_drives.mp hd
    obtain ⟨q, hq, rfl⟩ := mem_partitions_diskOf.mp hp
    have htable := hnot n hn handle buf hopen hlayout
    exact (clean_infoTexts_partitionOf_iff hapi n buf.toList).mpr htable q hq

/-! ## §5. The condition. -/

/-- What a table is made from. -/
inductive Evidence where
  /-- The files of `/sys/block` and the text of `/proc/mounts`. -/
  | sysfs (disks : List RawDisk) (mounts : String)
  /-- The answers of the drives. -/
  | layouts (probe : Nat → OpenOutcome)

def Evidence.disks (api : ReadApi) : Evidence → List PhysicalDisk
  | .sysfs disks mounts => build disks mounts
  | .layouts probe => drives api probe

/-- The names of the devices hold no line feed. -/
def Evidence.NamesClean : Evidence → Prop
  | .sysfs disks _ => Render.NamesClean disks
  -- the program numbers the drives itself
  | .layouts _ => True

/-- No decoded text holds a line feed: no listed partition's line in the table escapes one, no used
entry of a drive's partition table has one inside of its name. -/
def Evidence.Unforged (api : ReadApi) : Evidence → Prop
  | .sysfs disks mounts => ∀ r ∈ disks, ∀ q ∈ r.partitions, ∀ field,
      mountField mounts q.name = some field → ¬ NEWLINE_ESCAPE <:+: field
  | .layouts probe => ∀ n < MAX_DRIVES, ∀ handle buf, probe n = .opened handle →
      handle.layout = some buf → ¬ TableForges api buf.toList

/-- **WHEN THE TABLE HAS ONE ROW PER DEVICE**: exactly when no decoded text holds a line feed. -/
theorem oneRowPerDevice_iff_unforged {fmt : NumberFormat}
    (hfmt : ∀ size, Clean (fmt.humanSize size).toList) {api : ReadApi} (hapi : api.Lawful)
    {ev : Evidence} (hnames : ev.NamesClean) (h : ev.disks api ≠ []) :
    OneRowPerDevice fmt (ev.disks api) ↔ ev.Unforged api := by
  cases ev with
  | sysfs disks mounts => exact oneRowPerDevice_build_iff hfmt hnames h
  | layouts probe => exact oneRowPerDevice_drives_iff hfmt hapi h

theorem clean_byteFormat (size : UInt64) : Clean (byteFormat.humanSize size).toList := by
  show Clean (Nat.repr size.toNat ++ " B").toList
  rw [String.toList_append, clean_append]
  exact ⟨clean_repr _, by decide⟩

/-- A disk of one sector, which is a partition. -/
def oneSector : RawDisk :=
  { name := "sda"
    size := "1"
    removable := "0"
    ro := "0"
    logical := "512"
    physical := "512"
    model := none
    partitions := [{ name := "sda1", size := "1", start := "0" }] }

theorem oneSector_clean : NamesClean [oneSector] := by
  intro r hr
  rw [List.mem_singleton] at hr
  rw [hr]
  refine ⟨by decide, fun m hm => absurd hm (by simp [oneSector]), ?_⟩
  intro q hq
  have hq' : q = ⟨"sda1", "1", "0"⟩ := List.mem_singleton.mp hq
  rw [hq']
  decide

theorem oneSector_listed (mounts : String) : build [oneSector] mounts ≠ [] := by
  intro hnil
  have hmem : Sysfs.buildDisk (parseMounts mounts) oneSector ∈ build [oneSector] mounts :=
    mem_build.mpr ⟨oneSector, List.mem_singleton.mpr rfl, rfl⟩
  rw [hnil] at hmem
  exact absurd hmem List.not_mem_nil

theorem oneRowPerDevice_iff_unforged_blank :
    OneRowPerDevice byteFormat
        (Evidence.disks referenceApi (.sysfs [oneSector] "/dev/sda1 /mnt/my\\040disk xfs rw 0 0\n"))
      ↔ Evidence.Unforged referenceApi
          (.sysfs [oneSector] "/dev/sda1 /mnt/my\\040disk xfs rw 0 0\n") :=
  oneRowPerDevice_iff_unforged clean_byteFormat referenceApi_lawful oneSector_clean
    (oneSector_listed _)

/-- A mount point `/mnt/a<LF>sdz`, as the kernel writes it. -/
def forgedMounts : String := "/dev/sda1 /mnt/a\\012sdz ext4 rw 0 0\n"

/-- **A forged row**: a line `sdz`, flush left as a disk's, in the table of one disk with one
partition. -/
theorem forged_row : NamesClean [oneSector]
    ∧ ¬ OneRowPerDevice byteFormat (build [oneSector] forgedMounts)
    ∧ "sdz".toList ∈ (renderDisks byteFormat (build [oneSector] forgedMounts)).toList.splitOn '\n' := by
  have hfield : mountField forgedMounts "sda1" = some "/mnt/a\\012sdz".toList := by decide
  refine ⟨oneSector_clean, ?_, by decide +kernel⟩
  rw [oneRowPerDevice_build_iff clean_byteFormat oneSector_clean (oneSector_listed _)]
  intro hall
  refine hall oneSector (List.mem_singleton.mpr rfl) ⟨"sda1", "1", "0"⟩
    (List.mem_singleton.mpr rfl) _ hfield ?_
  exact ⟨"/mnt/a".toList, "sdz".toList, by decide⟩

end LivediskForensic.Render
