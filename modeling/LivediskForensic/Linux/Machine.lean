/-
  LivediskForensic.Linux.Machine — THE KERNEL'S SIDE OF `/sys/block`, and the
  round trip through it.

  A machine is what the kernel knows: devices with sectors, flags and slices,
  between virtual devices and directories of all kinds, and a mount table.
  `Machine.host` is how it appears in files: every number in decimal with a
  newline, every model string padded with blanks, every mount a line of escaped
  fields.  On the other side stands `BlockDevice.disk`, the disk with its true
  bytes.

      enumerate_host — `enumerate` returns exactly the disks of the machine,
                       each byte count exact
-/
import LivediskForensic.Linux.MountBytes
import LivediskForensic.Linux.MountEncoding
import LivediskForensic.Linux.Sectors

namespace LivediskForensic.Linux

open LivediskForensic.Lib
open LivediskForensic.Sysfs

/-! ## §1. What the kernel knows. -/

/-- A number of 512-byte sectors whose bytes fit a `u64`. -/
abbrev Sectors := {n : Nat // n < 2 ^ 55}

def Sectors.bytes (n : Sectors) : UInt64 := UInt64.ofNat (512 * n.val)

/-- A partition. -/
structure Slice where
  /-- What its name has after the disk's. -/
  suffix : String
  start : Sectors
  sectors : Sectors
  plain : ∀ c ∈ suffix.toList, mangled c = false

/-- A model string, as the driver pads it. -/
structure ModelText where
  text : String
  blanks : Nat
  text_ne : text ≠ ""
  trimmed : trimBy isWhiteSpace text.toList = text.toList

/-- A block device that is no RAM disk. -/
structure BlockDevice where
  name : String
  sectors : Sectors
  logical : UInt32
  physical : UInt32
  removable : Bool
  readOnly : Bool
  model : Option ModelText
  /-- Its directory: partitions, and items that are none. -/
  children : List (Slice ⊕ {sub : SubEntry // isPartitionDir name sub = false})
  imaging : isVirtual name = false
  plain : ∀ c ∈ name.toList, mangled c = false
  logical_ne : logical ≠ 0
  physical_ne : physical ≠ 0

/-- A machine: its block devices in directory order, RAM disks between them, and its mounts. -/
structure Machine where
  blocks : List (BlockDevice ⊕ {entry : BlockEntry // isVirtual entry.name = true})
  mounts : List MountEntry
  parseable : ∀ e ∈ mounts, Parseable e

def BlockDevice.slices (d : BlockDevice) : List Slice := d.children.filterMap Sum.getLeft?

def Machine.devices (m : Machine) : List BlockDevice := m.blocks.filterMap Sum.getLeft?

/-! ## §2. How it appears in files. -/

/-- An integer attribute. -/
def attr (n : Nat) : FileRead := textFile (Nat.repr n ++ "\n")

def Slice.dir (disk : String) (s : Slice) : SubEntry :=
  { name := disk ++ s.suffix
    hasPartitionFile := true
    size := attr s.sectors.val
    start := attr s.start.val }

/-- The text of `device/model`. -/
def ModelText.file (m : ModelText) : String :=
  String.ofList (m.text.toList ++ (List.replicate m.blanks ' ' ++ ['\n']))

def BlockDevice.entry (d : BlockDevice) : BlockEntry :=
  { name := d.name
    children := .ok (d.children.map (fun child => .ok (child.elim (Slice.dir d.name) Subtype.val)))
    size := attr d.sectors.val
    removable := attr d.removable.toNat
    ro := attr d.readOnly.toNat
    logical := attr d.logical.toNat
    physical := attr d.physical.toNat
    model := match d.model with
      | some m => textFile m.file
      | none => .error .notFound }

/-- The files of the machine. -/
def Machine.host (m : Machine) : Host :=
  { block := .ok (m.blocks.map (fun block => .ok (block.elim BlockDevice.entry Subtype.val)))
    mounts := textFile (renderTable m.mounts) }

/-! ## §3. What there is to list. -/

/-- The first mount of a device. -/
def mountOf (mounts : List MountEntry) (name : String) : Option MountEntry :=
  mounts.find? (fun e => e.device = "/dev/" ++ name)

def Slice.partition (mounts : List MountEntry) (disk : String) (s : Slice) : Partition :=
  { devicePath := "/dev/" ++ (disk ++ s.suffix)
    name := disk ++ s.suffix
    startOffset := s.start.bytes
    sizeBytes := s.sectors.bytes
    partitionType := none
    mountPoint := (mountOf mounts (disk ++ s.suffix)).map MountEntry.mountPoint
    -- the fstype comes back in the table's spelling
    filesystem := (mountOf mounts (disk ++ s.suffix)).map
      (fun e => String.ofList (renderField e.fstype))
    label := none }

/-- The disk of a device. -/
def BlockDevice.disk (mounts : List MountEntry) (d : BlockDevice) : PhysicalDisk :=
  { devicePath := "/dev/" ++ d.name
    name := d.name
    sizeBytes := d.sectors.bytes
    logicalSectorSize := d.logical
    physicalSectorSize := d.physical
    model := d.model.map ModelText.text
    serial := none
    removable := d.removable
    readOnly := d.readOnly
    synthesized := "dm-".toList.isPrefixOf d.name.toList
    partitions := sortByKey (fun p => p.startOffset.toNat)
      (d.slices.map (Slice.partition mounts d.name)) }

/-! ## §4. Attributes read back. -/

theorem readAttr_textFile (s : String) : readAttr (textFile s) = s :=
  readAttr_of_readable (fromUTF8?_eq_some.mpr rfl)

theorem readToString_textFile (s : String) : readToString (textFile s) = .ok s := by
  unfold readToString textFile
  simp only [fromUTF8?_eq_some.mpr (rfl : utf8Bytes s = utf8Bytes s)]

/-- The newline is trimmed, and the digits are read. -/
theorem parseU64_attr {n : Nat} (h : n < 2 ^ 64) :
    parseU64 (readAttr (attr n)) = UInt64.ofNat n := by
  have hdigit : ∀ c ∈ Nat.toDigits 10 n, isWhiteSpace c = false := by
    intro c hc
    exact isWhiteSpace_of_isDigit (List.all_eq_true.mp (toDigits_isDigit n) c hc)
  have hlist : (Nat.repr n ++ "\n").toList = Nat.toDigits 10 n ++ ['\n'] := by
    rw [String.toList_append]
    exact congrArg (· ++ _) String.toList_ofList
  have hnewline : ∀ c ∈ ['\n'], isWhiteSpace c = true := by simp [isWhiteSpace]
  have htrim : trimBy isWhiteSpace (Nat.toDigits 10 n) = Nat.toDigits 10 n :=
    trimBy_eq_self (fun c hc => hdigit c (List.mem_of_mem_head? hc))
      (fun c hc => hdigit c (List.mem_of_mem_getLast? hc))
  unfold attr parseU64
  rw [readAttr_textFile, hlist, trimBy_append_of_all hnewline, htrim, parseUnsigned_toDigits h,
    Option.getD_some]

theorem parseU64_attr_toNat (b : Bool) : (parseU64 (readAttr (attr b.toNat)) == 1) = b := by
  rw [parseU64_attr (by cases b <;> decide)]
  cases b <;> decide

theorem parseU64_attr_bytes (n : Sectors) :
    parseU64 (readAttr (attr n.val)) * SYSFS_SECTOR = n.bytes := by
  have hn := n.property
  rw [parseU64_attr (by omega), ← UInt64.toNat_inj]
  unfold Sectors.bytes
  rw [UInt64.toNat_mul, UInt64.toNat_ofNat', UInt64.toNat_ofNat',
    show SYSFS_SECTOR.toNat = 512 from rfl]
  omega

theorem parseU64_attr_u32 (n : UInt32) :
    (parseU64 (readAttr (attr n.toNat))).toUInt32 = n := by
  have hn := n.toNat_lt
  rw [parseU64_attr (by omega), ← UInt32.toNat_inj, UInt64.toNat_toUInt32, UInt64.toNat_ofNat']
  omega

/-- The padding of a model string is trimmed away, and nothing of the model. -/
theorem trim_file (m : ModelText) : trimBy isWhiteSpace m.file.toList = m.text.toList := by
  have hpad : ∀ c ∈ List.replicate m.blanks ' ' ++ ['\n'], isWhiteSpace c = true := by
    intro c hc
    rw [List.mem_append, List.mem_replicate, List.mem_singleton] at hc
    rcases hc with ⟨_, rfl⟩ | rfl
    · decide
    · decide
  unfold ModelText.file
  rw [String.toList_ofList, trimBy_append_of_all hpad, m.trimmed]

/-! ## §5. The mount of a partition. -/

theorem escapeWith_plain {E : Char → Bool} {s : List Char} (h : ∀ c ∈ s, E c = false) :
    escapeWith E s = s := by
  induction s with
  | nil => rfl
  | cons c s ih =>
      rw [escapeWith_cons_neg (h c List.mem_cons_self),
        ih (fun x hx => h x (List.mem_cons_of_mem _ hx))]

/-- Escaped names are told apart: the decoder recovers them. -/
theorem escapeWith_mangled_injective {s t : List Char}
    (h : escapeWith mangled s = escapeWith mangled t) : s = t := by
  have hdecoded := congrArg (decodeOctalLoop 0) h
  rw [decodeOctalLoop_escapeWith (by decide) (fun c hc => mangled_byte hc),
    decodeOctalLoop_escapeWith (by decide) (fun c hc => mangled_byte hc)] at hdecoded
  exact hdecoded

/-- An entry is reported under a plain name exactly when it mounts that device. -/
theorem reported_name_iff {e : MountEntry} {name : String}
    (hplain : ∀ c ∈ name.toList, mangled c = false) :
    ((reported e).any (fun r => r.1 == name)) = true ↔ e.device = "/dev/" ++ name := by
  unfold reported
  cases hstrip : stripPrefix "/dev/".toList e.device.toList with
  | none =>
      simp only [Option.map_none, Option.any_none, Bool.false_eq_true, false_iff]
      intro hdev
      rw [hdev, String.toList_append, stripPrefix_append] at hstrip
      exact absurd hstrip (by simp)
  | some dev =>
      have hdevice := stripPrefix_eq_some.mp hstrip
      simp only [Option.map_some, Option.any_some, beq_iff_eq]
      constructor
      · intro hname
        -- a plain name is its own escaped spelling
        have hesc : escapeWith mangled dev = escapeWith mangled name.toList := by
          rw [escapeWith_plain hplain, ← hname, String.toList_ofList]
        rw [← String.toList_inj, hdevice, escapeWith_mangled_injective hesc, String.toList_append]
      · intro hdev
        rw [hdev, String.toList_append] at hdevice
        rw [← List.append_cancel_left hdevice, escapeWith_plain hplain, String.ofList_toList]

/-- **The lookup finds the first mount of the device.** -/
theorem lookup_renderTable {mounts : List MountEntry} (h : ∀ e ∈ mounts, Parseable e)
    {name : String} (hplain : ∀ c ∈ name.toList, mangled c = false) :
    lookup (parseMounts (renderTable mounts)) name
      = (mountOf mounts name).map
          (fun e => (e.mountPoint, String.ofList (renderField e.fstype))) := by
  have htable : parseMounts (renderTable mounts) = mounts.filterMap reported := by
    unfold parseMounts
    rw [lines_renderTable, List.filterMap_map]
    apply List.filterMap_congr
    intro e he
    show parseMountLine (dropCr (renderLine e)) = reported e
    rw [parseMountLine_dropCr, parseMountLine_renderLine e (h e he)]
  rw [htable]
  unfold lookup mountOf
  clear h htable
  induction mounts with
  | nil => rfl
  | cons e mounts ih =>
      have hiff := reported_name_iff (e := e) hplain
      rw [List.filterMap_cons, List.find?_cons]
      cases hr : reported e with
      | none =>
          rw [hr] at hiff
          rw [decide_eq_false (fun hd => absurd (hiff.mpr hd) (by simp))]
          exact ih
      | some r =>
          rw [hr, Option.any_some] at hiff
          rw [List.find?_cons]
          by_cases hd : e.device = "/dev/" ++ name
          · -- the entry is the one: its mount point and fstype are reported
            rw [hiff.mpr hd, decide_eq_true hd]
            unfold reported at hr
            obtain ⟨dev, _, hr⟩ := Option.map_eq_some_iff.mp hr
            rw [← hr]
            rfl
          · have hne : (r.1 == name) = false := Bool.eq_false_iff.mpr (fun hb => hd (hiff.mp hb))
            rw [hne, decide_eq_false hd]
            exact ih

/-! ## §6. The walk. -/

/-- What the walk makes of a slice. -/
def Slice.raw (disk : String) (s : Slice) : RawPart :=
  { name := disk ++ s.suffix
    size := readAttr (attr s.sectors.val)
    start := readAttr (attr s.start.val) }

def BlockDevice.raw (d : BlockDevice) : RawDisk :=
  { name := d.name
    size := readAttr (attr d.sectors.val)
    removable := readAttr (attr d.removable.toNat)
    ro := readAttr (attr d.readOnly.toNat)
    logical := readAttr (attr d.logical.toNat)
    physical := readAttr (attr d.physical.toNat)
    model := d.model.map ModelText.file
    partitions := d.slices.map (Slice.raw d.name) }

theorem rawDisk_entry (d : BlockDevice) :
    rawDisk d.entry (d.slices.map (Slice.raw d.name)) = d.raw := by
  have hmodel : (readToString d.entry.model).toOption = d.model.map ModelText.file := by
    unfold BlockDevice.entry
    dsimp only
    cases d.model with
    | none => rfl
    | some m =>
        show (readToString (textFile m.file)).toOption = _
        rw [readToString_textFile]
        rfl
  unfold rawDisk BlockDevice.raw
  rw [hmodel]
  unfold BlockDevice.entry
  dsimp only

theorem isPartitionDir_dir (disk : String) (s : Slice) :
    isPartitionDir disk (s.dir disk) = true := by
  unfold isPartitionDir Slice.dir
  rw [String.toList_append, Bool.and_true, List.isPrefixOf_iff_prefix]
  exact List.prefix_append _ _

/-- The partitions are found among the other items, in their order. -/
theorem readPartitions_children (disk : String)
    (children : List (Slice ⊕ {sub : SubEntry // isPartitionDir disk sub = false})) :
    readPartitions disk
        (children.map (fun child => .ok (child.elim (Slice.dir disk) Subtype.val)))
      = .ok ((children.filterMap Sum.getLeft?).map (Slice.raw disk)) := by
  induction children with
  | nil => rfl
  | cons child children ih =>
      cases child with
      | inl s =>
          rw [List.map_cons, List.filterMap_cons]
          simp only [readPartitions, liftIo, bind, Except.bind, Sum.elim_inl, isPartitionDir_dir,
            if_true, ih]
          rfl
      | inr other =>
          rw [List.map_cons, List.filterMap_cons]
          simp only [readPartitions, liftIo, bind, Except.bind, Sum.elim_inr, other.property,
            Bool.false_eq_true, if_false, ih]
          rfl

/-- The walk reads one record per device and passes over the RAM disks. -/
theorem readEntries_blocks
    (blocks : List (BlockDevice ⊕ {entry : BlockEntry // isVirtual entry.name = true})) :
    readEntries (blocks.map (fun block => .ok (block.elim BlockDevice.entry Subtype.val)))
      = .ok ((blocks.filterMap Sum.getLeft?).map BlockDevice.raw) := by
  induction blocks with
  | nil => rfl
  | cons block blocks ih =>
      rw [List.map_cons, List.filterMap_cons]
      cases block with
      | inl d =>
          have hname : isVirtual d.entry.name = false := d.imaging
          have hchildren : readChildren d.entry = .ok (d.slices.map (Slice.raw d.name)) :=
            readPartitions_children d.name d.children
          simp only [readEntries, liftIo, bind, Except.bind, Sum.elim_inl, hname,
            Bool.false_eq_true, if_false, hchildren, ih, rawDisk_entry]
          rfl
      | inr entry =>
          simp only [readEntries, liftIo, bind, Except.bind, Sum.elim_inr, entry.property,
            if_true, ih]
          rfl

/-! ## §7. The round trip. -/

section Build

variable {mounts : List MountEntry} (h : ∀ e ∈ mounts, Parseable e)

include h

/-- A slice comes back with its bytes and its mount. -/
theorem buildPartition_raw (d : BlockDevice) (s : Slice) :
    buildPartition (parseMounts (renderTable mounts)) (s.raw d.name)
      = s.partition mounts d.name := by
  have hplain : ∀ c ∈ (d.name ++ s.suffix).toList, mangled c = false := by
    intro c hc
    rw [String.toList_append, List.mem_append] at hc
    cases hc with
    | inl hname => exact d.plain c hname
    | inr hsuffix => exact s.plain c hsuffix
  unfold buildPartition Slice.partition Slice.raw
  simp only [lookup_renderTable h hplain, parseU64_attr_bytes, Option.map_map]
  rfl

/-- A device comes back as its disk. -/
theorem buildDisk_raw (d : BlockDevice) :
    buildDisk (parseMounts (renderTable mounts)) d.raw = d.disk mounts := by
  have hmodel : (d.raw.model.map (fun m => String.ofList (trimBy isWhiteSpace m.toList))).filter
      (fun m => m ≠ "") = d.model.map ModelText.text := by
    unfold BlockDevice.raw
    cases d.model with
    | none => rfl
    | some m =>
        show Option.filter _ (some (String.ofList (trimBy isWhiteSpace m.file.toList))) = _
        rw [trim_file, String.ofList_toList, Option.filter_some, if_pos (decide_eq_true m.text_ne)]
        rfl
  have hparts : d.raw.partitions.map (buildPartition (parseMounts (renderTable mounts)))
      = d.slices.map (Slice.partition mounts d.name) := by
    show (d.slices.map (Slice.raw d.name)).map _ = _
    rw [List.map_map]
    apply List.map_congr_left
    intro s _
    exact buildPartition_raw h d s
  unfold buildDisk BlockDevice.disk
  rw [hmodel, hparts]
  unfold physicalOf logicalOf BlockDevice.raw
  simp only [parseU64_attr_u32, parseU64_attr_bytes, parseU64_attr_toNat, if_neg d.logical_ne,
    if_neg d.physical_ne]

end Build

/-- The walk and the build, before the sort by name is looked at. -/
theorem enumerate_host_eq (m : Machine) :
    enumerate m.host
      = .ok (sortByKey PhysicalDisk.name (m.devices.map (BlockDevice.disk m.mounts))) := by
  apply enumerate_eq_ok_iff.mpr
  refine ⟨m.devices.map BlockDevice.raw, readEntries_blocks m.blocks, ?_⟩
  show _ = build _ (readAttr (textFile (renderTable m.mounts)))
  rw [readAttr_textFile]
  unfold build
  congr 1
  rw [List.map_map]
  apply List.map_congr_left
  intro d _
  exact (buildDisk_raw m.parseable d).symm

theorem Sectors.toNat_bytes (n : Sectors) : n.bytes.toNat = 512 * n.val := by
  have hn := n.property
  unfold Sectors.bytes
  rw [UInt64.toNat_ofNat']
  omega

/-- What `enumerate` has to recover of a machine. -/
structure Recovered (m : Machine) (disks : List PhysicalDisk) : Prop where
  /-- One disk per device; RAM disks and directories that are no partitions leave no trace. -/
  disks_exact : disks.Perm (m.devices.map (BlockDevice.disk m.mounts))
  by_name : disks.Pairwise (fun d e => d.name ≤ e.name)
  size_exact : ∀ d ∈ m.devices, (d.disk m.mounts).sizeBytes.toNat = 512 * d.sectors.val
  /-- In the order of their start sectors. -/
  slices_exact : ∀ d ∈ m.devices,
    (d.disk m.mounts).partitions.map (fun p => (p.name, p.startOffset.toNat, p.sizeBytes.toNat))
      = (sortByKey (fun s => s.start.val) d.slices).map
          (fun s => (d.name ++ s.suffix, 512 * s.start.val, 512 * s.sectors.val))

/-- The order of the offsets is the order of the sectors. -/
theorem partitions_disk (mounts : List MountEntry) (d : BlockDevice) :
    (d.disk mounts).partitions
      = (sortByKey (fun s => s.start.val) d.slices).map (Slice.partition mounts d.name) := by
  apply sortByKey_map
  intro s _ t _
  show _ ↔ s.start.bytes.toNat ≤ t.start.bytes.toNat
  rw [Sectors.toNat_bytes, Sectors.toNat_bytes]
  omega

/-- **THE ROUND TRIP.**  Whatever the machine, `enumerate` reads its files back to its disks. -/
theorem enumerate_host (m : Machine) :
    ∃ disks, enumerate m.host = .ok disks ∧ Recovered m disks := by
  refine ⟨_, enumerate_host_eq m, sortByKey_perm _ _, sortByKey_pairwise _ _, ?_, ?_⟩
  · intro d _
    exact d.sectors.toNat_bytes
  · intro d _
    rw [partitions_disk, List.map_map]
    apply List.map_congr_left
    intro s _
    show (_, s.start.bytes.toNat, s.sectors.bytes.toNat) = _
    rw [Sectors.toNat_bytes, Sectors.toNat_bytes]
    rfl

end LivediskForensic.Linux
