/-
  LivediskForensic.Linux.Sectors — SECTORS TO BYTES.

  `build` multiplies at three sites, each a number of sectors from a text file
  times 512, in `u64`.  `buildChecked` is the checked build, which stops where
  a product does not fit; where it gets through it returns what `build` does
  (`buildChecked_eq_some_iff`).  The products fit exactly when every number in
  the files is below `2^55` (`exactBytes_iff`).
-/
import LivediskForensic.Lib.Checked
import LivediskForensic.Linux.MountLookup

namespace LivediskForensic.Sysfs

open LivediskForensic.Lib

/-! ## §1. The checked build. -/

/-- `parse_u64(s) * SYSFS_SECTOR`, `none` where it overflows. -/
def bytesChecked (s : String) : Option UInt64 :=
  (checkedMul 64 (parseU64 s).toNat SYSFS_SECTOR.toNat).map UInt64.ofNat

/-- One partition, checked. -/
def buildPartitionChecked (mounts : List (String × String × String)) (p : RawPart) :
    Option Partition := do
  let start ← bytesChecked p.start
  let size ← bytesChecked p.size
  some
    { devicePath := "/dev/" ++ p.name
      name := p.name
      startOffset := start
      sizeBytes := size
      partitionType := none
      mountPoint := (lookup mounts p.name).map Prod.fst
      filesystem := (lookup mounts p.name).map Prod.snd
      label := none }

/-- One disk, checked. -/
def buildDiskChecked (mounts : List (String × String × String)) (d : RawDisk) :
    Option PhysicalDisk := do
  let partitions ← d.partitions.mapM (buildPartitionChecked mounts)
  let size ← bytesChecked d.size
  some
    { devicePath := "/dev/" ++ d.name
      name := d.name
      sizeBytes := size
      logicalSectorSize := logicalOf d
      physicalSectorSize := physicalOf d
      model := (d.model.map (fun m => String.ofList (trimBy isWhiteSpace m.toList))).filter
        (fun m => m ≠ "")
      serial := none
      removable := parseU64 d.removable == 1
      readOnly := parseU64 d.ro == 1
      synthesized := "dm-".toList.isPrefixOf d.name.toList
      partitions := sortByKey (fun p => p.startOffset.toNat) partitions }

/-- **`build` in a checked build.** -/
def buildChecked (disks : List RawDisk) (mountsContent : String) : Option (List PhysicalDisk) := do
  let out ← disks.mapM (buildDiskChecked (parseMounts mountsContent))
  some (sortByKey PhysicalDisk.name out)

/-! ## §2. When it gets through. -/

/-- The number in the file, if there is one, is below `2^55`. -/
def SectorsFit (s : String) : Prop :=
  ∀ n, parseUnsigned 64 (trimBy isWhiteSpace s.toList) = some n → n < 2 ^ 55

/-- Every size and start attribute of the disk and its partitions does. -/
def DiskFits (d : RawDisk) : Prop :=
  SectorsFit d.size ∧ ∀ p ∈ d.partitions, SectorsFit p.start ∧ SectorsFit p.size

/-- Text that is no number counts as 0. -/
theorem sectorsFit_iff (s : String) : SectorsFit s ↔ (parseU64 s).toNat < 2 ^ 55 := by
  unfold SectorsFit parseU64
  cases hp : parseUnsigned 64 (trimBy isWhiteSpace s.toList) with
  | none => simp
  | some n =>
      have hlt := parseUnsigned_lt hp
      rw [Option.getD_some, UInt64.toNat_ofNat', Nat.mod_eq_of_lt hlt]
      simp

/-- **A product fits when the number is below `2^55`**, and then it is the product of `build`. -/
theorem bytesChecked_eq_some_iff (s : String) (b : UInt64) :
    bytesChecked s = some b ↔ SectorsFit s ∧ b = parseU64 s * SYSFS_SECTOR := by
  have hsector : SYSFS_SECTOR.toNat = 512 := rfl
  have hprod : UInt64.ofNat ((parseU64 s).toNat * 512) = parseU64 s * SYSFS_SECTOR := by
    rw [← UInt64.toNat_inj, UInt64.toNat_ofNat', UInt64.toNat_mul, hsector]
  rw [sectorsFit_iff]
  unfold bytesChecked
  rw [hsector, Option.map_eq_some_iff]
  constructor
  · rintro ⟨c, hc, rfl⟩
    obtain ⟨hlt, rfl⟩ := checkedMul_eq_some_iff.mp hc
    exact ⟨by omega, hprod⟩
  · rintro ⟨hlt, rfl⟩
    exact ⟨_, checkedMul_eq_some_iff.mpr ⟨by omega, rfl⟩, hprod⟩

theorem buildPartitionChecked_eq_some_iff (mounts : List (String × String × String))
    (p : RawPart) (q : Partition) :
    buildPartitionChecked mounts p = some q
      ↔ (SectorsFit p.start ∧ SectorsFit p.size) ∧ q = buildPartition mounts p := by
  unfold buildPartitionChecked
  simp only [Option.bind_eq_bind, Option.bind_eq_some_iff, bytesChecked_eq_some_iff,
    Option.some.injEq]
  constructor
  · rintro ⟨_, ⟨hstart, rfl⟩, _, ⟨hsize, rfl⟩, rfl⟩
    exact ⟨⟨hstart, hsize⟩, rfl⟩
  · rintro ⟨⟨hstart, hsize⟩, rfl⟩
    exact ⟨_, ⟨hstart, rfl⟩, _, ⟨hsize, rfl⟩, rfl⟩

theorem buildDiskChecked_eq_some_iff (mounts : List (String × String × String))
    (r : RawDisk) (d : PhysicalDisk) :
    buildDiskChecked mounts r = some d ↔ DiskFits r ∧ d = buildDisk mounts r := by
  unfold buildDiskChecked DiskFits
  simp only [Option.bind_eq_bind, Option.bind_eq_some_iff, bytesChecked_eq_some_iff,
    mapM_eq_some_iff (buildPartitionChecked_eq_some_iff mounts), Option.some.injEq]
  constructor
  · rintro ⟨_, ⟨hparts, rfl⟩, _, ⟨hsize, rfl⟩, rfl⟩
    exact ⟨⟨hsize, hparts⟩, rfl⟩
  · rintro ⟨⟨hsize, hparts⟩, rfl⟩
    exact ⟨_, ⟨hparts, rfl⟩, _, ⟨hsize, rfl⟩, rfl⟩

/-- **The checked build gets through exactly when every number fits**, and returns what `build`
returns. -/
theorem buildChecked_eq_some_iff (disks : List RawDisk) (content : String)
    (out : List PhysicalDisk) :
    buildChecked disks content = some out
      ↔ (∀ r ∈ disks, DiskFits r) ∧ out = build disks content := by
  unfold buildChecked
  simp only [Option.bind_eq_bind, Option.bind_eq_some_iff,
    mapM_eq_some_iff (buildDiskChecked_eq_some_iff (parseMounts content)), Option.some.injEq]
  constructor
  · rintro ⟨_, ⟨hfit, rfl⟩, rfl⟩
    exact ⟨hfit, rfl⟩
  · rintro ⟨hfit, rfl⟩
    exact ⟨_, ⟨hfit, rfl⟩, rfl⟩

/-! ## §3. Exact bytes. -/

/-- The sizes and offsets of a disk are 512 times the numbers in its files. -/
structure ExactDisk (mounts : List (String × String × String)) (r : RawDisk) : Prop where
  disk_size : (buildDisk mounts r).sizeBytes.toNat = 512 * (parseU64 r.size).toNat
  part_start : ∀ q ∈ r.partitions,
    (buildPartition mounts q).startOffset.toNat = 512 * (parseU64 q.start).toNat
  part_size : ∀ q ∈ r.partitions,
    (buildPartition mounts q).sizeBytes.toNat = 512 * (parseU64 q.size).toNat
  /-- The partitions come in the order of their start sectors. -/
  order : (buildDisk mounts r).partitions
    = (sortByKey (fun q => (parseU64 q.start).toNat) r.partitions).map (buildPartition mounts)

/-- No product overflows, and all are exact. -/
structure ExactBytes (disks : List RawDisk) (content : String) : Prop where
  /-- A checked build gets through, to what a release build returns. -/
  no_panic : buildChecked disks content = some (build disks content)
  exact_disks : ∀ r ∈ disks, ExactDisk (parseMounts content) r

theorem toNat_bytes {s : String} (h : SectorsFit s) :
    (parseU64 s * SYSFS_SECTOR).toNat = 512 * (parseU64 s).toNat := by
  have hsector : SYSFS_SECTOR.toNat = 512 := rfl
  rw [sectorsFit_iff] at h
  rw [UInt64.toNat_mul, hsector]
  omega

/-- A disk whose numbers fit. -/
theorem exactDisk_of_fits (mounts : List (String × String × String)) {r : RawDisk}
    (h : DiskFits r) : ExactDisk mounts r := by
  obtain ⟨hsize, hparts⟩ := h
  have hstart : ∀ q ∈ r.partitions,
      (buildPartition mounts q).startOffset.toNat = 512 * (parseU64 q.start).toNat :=
    fun q hq => toNat_bytes (hparts q hq).1
  -- offsets and sectors order the partitions alike
  have hkeys : ∀ a ∈ r.partitions, ∀ b ∈ r.partitions,
      (parseU64 a.start).toNat ≤ (parseU64 b.start).toNat
        ↔ (buildPartition mounts a).startOffset.toNat
          ≤ (buildPartition mounts b).startOffset.toNat := by
    intro a ha b hb
    rw [hstart a ha, hstart b hb]
    omega
  refine
    { disk_size := toNat_bytes hsize
      part_start := hstart
      part_size := fun q hq => toNat_bytes (hparts q hq).2
      order := ?_ }
  show sortByKey (fun p => p.startOffset.toNat) (r.partitions.map (buildPartition mounts)) = _
  exact sortByKey_map hkeys

/-- **WHEN EVERY BYTE COUNT IS EXACT**: exactly when every number in the size and start files is
below `2^55`. -/
theorem exactBytes_iff (disks : List RawDisk) (content : String) :
    ExactBytes disks content ↔ ∀ r ∈ disks, DiskFits r := by
  constructor
  · intro h
    exact ((buildChecked_eq_some_iff disks content _).mp h.no_panic).1
  · intro h
    exact
      { no_panic := (buildChecked_eq_some_iff disks content _).mpr ⟨h, rfl⟩
        exact_disks := fun r hr => exactDisk_of_fits _ (h r hr) }

/-- A disk that claims `2^55` sectors, with a partition in front and one at its end. -/
def hugeDisk : RawDisk :=
  { name := "sda"
    size := "36028797018963968\n"
    removable := "0\n"
    ro := "0\n"
    logical := "512\n"
    physical := "512\n"
    model := none
    partitions :=
      [ { name := "sda1", size := "2048\n", start := "2048\n" },
        { name := "sda2", size := "2048\n", start := "36028797018963968\n" } ] }

/-- The checked build stops; in a release build the disk comes out empty, and its last partition
first. -/
theorem sectors_wrap : ¬ ExactBytes [hugeDisk] ""
    ∧ buildChecked [hugeDisk] "" = none
    ∧ (build [hugeDisk] "").map PhysicalDisk.sizeBytes = [0]
    ∧ (build [hugeDisk] "").map (fun d => d.partitions.map Partition.name) = [["sda2", "sda1"]] := by
  have hnone : buildChecked [hugeDisk] "" = none := by decide
  refine ⟨?_, hnone, by decide, by decide⟩
  intro h
  have hpanic := h.no_panic
  rw [hnone] at hpanic
  exact absurd hpanic (by simp)

end LivediskForensic.Sysfs
