/-
  LivediskForensic.Enumeration.DevicePaths — ONE PATH, ONE DEVICE.

  A disk's and a partition's `device_path` is what a caller opens.  The Linux
  and the macOS backend build every path from the device's own kernel name, so
  paths are as distinct as names (`nodup_devicePaths_named`).  The Windows
  backend gives a partition the path of its drive: two entries of one listing
  share a path as soon as one drive has a partition.

      nodup_devicePaths_iff — the exact condition, over all three backends
-/
import LivediskForensic.Macos.Assemble
import LivediskForensic.Linux.Sysfs
import LivediskForensic.Windows.DriveLayoutEncoding
import LivediskForensic.Windows.Enumerate

namespace LivediskForensic.Enumeration

open LivediskForensic.Lib
open LivediskForensic.Windows
open LivediskForensic.DriveLayout

/-! ## §1. The three backends. -/

/-- What a backend gets from the operating system. -/
inductive Inventory where
  | linux (disks : List Sysfs.RawDisk) (mounts : String)
  | macos (media : List Macos.RawMedia)
  | windows (probe : Nat → OpenOutcome)

/-- The disks the backend returns, none when it fails. -/
def Inventory.disks (api : ReadApi) : Inventory → List PhysicalDisk
  | .linux disks mounts => Sysfs.build disks mounts
  | .macos media => Macos.assemble media
  | .windows probe => (Windows.enumerate api probe).toOption.getD []

/-- The operating system's own identifiers are distinct. -/
def Inventory.Identified (api : ReadApi) : Inventory → Prop
  | .linux disks _ => (disks.flatMap (fun d => d.name :: d.partitions.map Sysfs.RawPart.name)).Nodup
  | .macos media => (media.map Macos.RawMedia.bsd).Nodup
  | .windows probe => ∀ n < MAX_DRIVES, ∀ handle buf, probe n = .opened handle →
      handle.layout = some buf →
      ((parseDriveLayout api buf.toList).partitions.map ParsedPartition.number).Nodup

/-- No drive's partition table has an entry in use. -/
def Inventory.Unpartitioned (api : ReadApi) : Inventory → Prop
  | .linux _ _ => True
  | .macos _ => True
  | .windows probe => ∀ n < MAX_DRIVES, ∀ handle buf, probe n = .opened handle →
      handle.layout = some buf → ¬ TableInUse api buf.toList

/-! ## §2. Paths built from names. -/

/-- Every name in a listing, in the order of `devicePaths`. -/
def deviceNames (disks : List PhysicalDisk) : List String :=
  disks.flatMap (fun d => d.name :: d.partitions.map Partition.name)

/-- Every path is `/dev/` and the device's name. -/
def NamedPaths (disks : List PhysicalDisk) : Prop :=
  ∀ d ∈ disks, d.devicePath = "/dev/" ++ d.name
    ∧ ∀ p ∈ d.partitions, p.devicePath = "/dev/" ++ p.name

theorem devicePaths_of_namedPaths {disks : List PhysicalDisk} (h : NamedPaths disks) :
    devicePaths disks = (deviceNames disks).map (fun name => "/dev/" ++ name) := by
  unfold devicePaths deviceNames
  rw [List.map_flatMap]
  apply List.flatMap_congr
  intro d hd
  obtain ⟨hpath, hparts⟩ := h d hd
  rw [List.map_cons, List.map_map, hpath]
  congr 1
  exact List.map_congr_left hparts

/-- **Distinct names, distinct paths.** -/
theorem nodup_devicePaths_named {disks : List PhysicalDisk} (h : NamedPaths disks)
    (hnames : (deviceNames disks).Nodup) : (devicePaths disks).Nodup := by
  rw [devicePaths_of_namedPaths h]
  apply hnames.map
  intro a b hab
  have htail := congrArg String.toList hab
  rw [String.toList_append, String.toList_append, List.append_cancel_left_eq,
    String.toList_inj] at htail
  exact htail

/-- The names of a list of disks, the disks' first. -/
theorem deviceNames_perm (disks : List PhysicalDisk) :
    (deviceNames disks).Perm
      (disks.map PhysicalDisk.name ++ (disks.flatMap PhysicalDisk.partitions).map Partition.name) := by
  have h := List.map_append_flatMap_perm disks PhysicalDisk.name
    (fun d => d.partitions.map Partition.name)
  rw [List.map_flatMap]
  exact h.symm

theorem namedPaths_linux (disks : List Sysfs.RawDisk) (mounts : String) :
    NamedPaths (Sysfs.build disks mounts) := by
  intro d hd
  unfold Sysfs.build at hd
  rw [mem_sortByKey, List.mem_map] at hd
  obtain ⟨r, _, hr⟩ := hd
  subst hr
  refine ⟨rfl, ?_⟩
  intro p hp
  unfold Sysfs.buildDisk at hp
  rw [mem_sortByKey, List.mem_map] at hp
  obtain ⟨q, _, hq⟩ := hp
  rw [← hq]
  rfl

/-- `build` keeps the kernel's names. -/
theorem deviceNames_linux (disks : List Sysfs.RawDisk) (mounts : String) :
    (deviceNames (Sysfs.build disks mounts)).Perm
      (disks.flatMap (fun d => d.name :: d.partitions.map Sysfs.RawPart.name)) := by
  unfold deviceNames Sysfs.build
  refine ((sortByKey_perm _ _).flatMap_right _).trans ?_
  rw [List.flatMap_map]
  apply List.Perm.flatMap_left _
  intro r _
  apply List.Perm.cons _
  refine ((sortByKey_perm _ _).map _).trans (List.Perm.of_eq ?_)
  rw [List.map_map]
  rfl

theorem nodup_wholes {media : List Macos.RawMedia} (h : (media.map Macos.RawMedia.bsd).Nodup) :
    ((media.filter Macos.RawMedia.whole).map Macos.RawMedia.bsd).Nodup :=
  h.sublist (List.filter_sublist.map Macos.RawMedia.bsd)

theorem namedPaths_macos {media : List Macos.RawMedia} (h : (media.map Macos.RawMedia.bsd).Nodup) :
    NamedPaths (Macos.assemble media) := by
  intro d hd
  rw [Macos.assemble_eq_groups media (nodup_wholes h), mem_sortByKey, List.mem_map] at hd
  obtain ⟨w, _, hw⟩ := hd
  subst hw
  refine ⟨rfl, ?_⟩
  intro p hp
  unfold Macos.groupOf at hp
  rw [mem_sortByKey, List.mem_map] at hp
  obtain ⟨m, _, hm⟩ := hp
  rw [← hm]
  rfl

/-- `assemble` names each medium at most once. -/
theorem nodup_deviceNames_macos {media : List Macos.RawMedia}
    (h : (media.map Macos.RawMedia.bsd).Nodup) : (deviceNames (Macos.assemble media)).Nodup := by
  set wholes := media.filter Macos.RawMedia.whole with hwholes
  set slices := media.filter (fun m => !m.whole) with hslices
  have hdisks := Macos.names_assemble media (nodup_wholes h)
  have hparts := (Macos.partitions_assemble media (nodup_wholes h)).map Partition.name
  rw [List.map_map] at hparts
  have hnames := (deviceNames_perm (Macos.assemble media)).trans (hdisks.append hparts)
  -- the whole media and the others together are all media
  have hall : ((wholes ++ slices).map Macos.RawMedia.bsd).Nodup :=
    (((List.filter_append_perm Macos.RawMedia.whole media).map _).nodup_iff).mpr h
  rw [hnames.nodup_iff]
  rw [List.map_append] at hall
  refine hall.sublist (List.Sublist.append (List.Sublist.refl _) ?_)
  exact List.filter_sublist.map Macos.RawMedia.bsd

/-! ## §3. Paths of drives. -/

section Drives

variable {api : ReadApi} {probe : Nat → OpenOutcome}

/-- A drive has no partition exactly when its table has no entry in use. -/
theorem diskOf_partitions_eq_nil_iff {n : Nat} {handle : Handle} {buf : List UInt8} :
    (diskOf n handle (parseDriveLayout api buf)).partitions = [] ↔ ¬ TableInUse api buf := by
  rw [← partitions_eq_nil_iff]
  show sortByKey _ ((parseDriveLayout api buf).partitions.map (partitionOf n)) = [] ↔ _
  rw [sortByKey_eq_nil, List.map_eq_nil_iff]

/-- A partition of a drive has the drive's path. -/
theorem diskOf_partition_path {n : Nat} {handle : Handle} {parsed : ParsedLayout} {p : Partition}
    (hp : p ∈ (diskOf n handle parsed).partitions) : p.devicePath = drivePath n := by
  unfold diskOf at hp
  rw [mem_sortByKey, List.mem_map] at hp
  obtain ⟨q, _, hq⟩ := hp
  rw [← hq]
  rfl

/-- The drives' own paths are distinct. -/
theorem nodup_found_paths : ((found api probe).map PhysicalDisk.devicePath).Nodup := by
  unfold found
  rw [List.map_filterMap]
  refine List.pairwise_filterMap.mpr ?_
  refine List.nodup_range.imp ?_
  intro n m hnm a ha b hb hab
  obtain ⟨d, hd, hda⟩ := Option.map_eq_some_iff.mp ha
  obtain ⟨e, he, heb⟩ := Option.map_eq_some_iff.mp hb
  obtain ⟨_, _, _, _, hdn⟩ := diskAt_eq_some_iff.mp hd
  obtain ⟨_, _, _, _, hem⟩ := diskAt_eq_some_iff.mp he
  rw [← hda, ← heb, hdn, hem] at hab
  exact hnm (drivePath_injective hab)

/-- **Drive paths are distinct exactly when no drive has a partition.** -/
theorem nodup_devicePaths_windows :
    (devicePaths ((Inventory.windows probe).disks api)).Nodup
      ↔ (Inventory.windows probe).Unpartitioned api := by
  have hperm : (devicePaths ((Inventory.windows probe).disks api)).Perm
      (devicePaths (found api probe)) := enumerate_getD_perm.flatMap_right _
  rw [hperm.nodup_iff]
  constructor
  · intro h n hn handle buf hp hl
    have hdisk : diskOf n handle (parseDriveLayout api buf.toList) ∈ found api probe :=
      mem_found.mpr ⟨n, hn, diskAt_eq_some_iff.mpr ⟨handle, buf, hp, hl, rfl⟩⟩
    -- the drive's own path stands in front of its partitions' paths
    have hone := (List.nodup_flatMap.mp h).1 _ hdisk
    rw [List.nodup_cons] at hone
    have hnil : (diskOf n handle (parseDriveLayout api buf.toList)).partitions = [] := by
      rw [List.eq_nil_iff_forall_not_mem]
      intro p hpart
      exact hone.1 (List.mem_map.mpr ⟨p, hpart, diskOf_partition_path hpart⟩)
    exact diskOf_partitions_eq_nil_iff.mp hnil
  · intro h
    -- without partitions the listing is the drives alone
    have hbare : devicePaths (found api probe)
        = (found api probe).map PhysicalDisk.devicePath := by
      unfold devicePaths
      rw [List.map_eq_flatMap]
      apply List.flatMap_congr
      intro d hd
      obtain ⟨n, hn, hdn⟩ := mem_found.mp hd
      obtain ⟨handle, buf, hp, hl, hdisk⟩ := diskAt_eq_some_iff.mp hdn
      have hnil : (diskOf n handle (parseDriveLayout api buf.toList)).partitions = [] :=
        diskOf_partitions_eq_nil_iff.mpr (h n hn handle buf hp hl)
      rw [hdisk, hnil, List.map_nil]
    rw [hbare]
    exact nodup_found_paths

end Drives

/-! ## §4. The condition. -/

/-- **WHEN EVERY PATH DESIGNATES ONE DEVICE**: for distinct identifiers, always on Linux and
macOS, and on Windows exactly when no drive has a partition. -/
theorem nodup_devicePaths_iff (api : ReadApi) (inv : Inventory) (h : inv.Identified api) :
    (devicePaths (inv.disks api)).Nodup ↔ inv.Unpartitioned api := by
  cases inv with
  | linux disks mounts =>
      have hnames := (deviceNames_linux disks mounts).nodup_iff.mpr h
      exact iff_of_true (nodup_devicePaths_named (namedPaths_linux disks mounts) hnames) trivial
  | macos media =>
      exact iff_of_true
        (nodup_devicePaths_named (namedPaths_macos h) (nodup_deviceNames_macos h)) trivial
  | windows probe => exact nodup_devicePaths_windows

/-- A table with one partition, in a full layout buffer. -/
def onePartition : Layout .gpt :=
  { header := Vector.replicate 40 0
    slots := [basicSlot 268435456 1]
    count_lt := by decide
    trailing := List.replicate (LAYOUT_BUF - (PARTITION_ENTRY_OFFSET + ENTRY_SIZE)) 0 }

theorem length_onePartition : (encode onePartition).length = LAYOUT_BUF := by
  have hslots : onePartition.slots.length = 1 := rfl
  have htrailing : onePartition.trailing.length
      = LAYOUT_BUF - (PARTITION_ENTRY_OFFSET + ENTRY_SIZE) := List.length_replicate
  rw [length_encode, hslots, htrailing]
  unfold LAYOUT_BUF PARTITION_ENTRY_OFFSET ENTRY_SIZE
  omega

/-- A machine with one drive, with one partition. -/
def oneDrive : Nat → OpenOutcome
  | 0 => .opened
      { length := none
        geometry := none
        layout := some ⟨(encode onePartition).toArray, length_onePartition⟩ }
  | _ => .failed ERROR_FILE_NOT_FOUND

theorem partitions_onePartition :
    (parseDriveLayout referenceApi (encode onePartition)).partitions.map ParsedPartition.number
      = [1] := by
  rw [partitions_encode referenceApi_lawful]
  decide

theorem oneDrive_opened {n : Nat} {handle : Handle} {buf : Vector UInt8 LAYOUT_BUF}
    (hp : oneDrive n = .opened handle) (hl : handle.layout = some buf) :
    buf.toList = encode onePartition := by
  cases n with
  | zero =>
      injection hp with hp
      rw [← hp] at hl
      injection hl with hl
      rw [← hl]
      rfl
  | succ n =>
      exact absurd hp (by simp [oneDrive])

theorem oneDrive_identified : (Inventory.windows oneDrive).Identified referenceApi := by
  intro n _ handle buf hp hl
  rw [oneDrive_opened hp hl, partitions_onePartition]
  decide

theorem nodup_devicePaths_iff_oneDrive :
    (devicePaths ((Inventory.windows oneDrive).disks referenceApi)).Nodup
      ↔ (Inventory.windows oneDrive).Unpartitioned referenceApi :=
  nodup_devicePaths_iff referenceApi (.windows oneDrive) oneDrive_identified

/-- **A path is shared**: the partition of a drive carries the path of the drive. -/
theorem path_shared :
    (Inventory.windows oneDrive).Identified referenceApi
      ∧ ¬ (devicePaths ((Inventory.windows oneDrive).disks referenceApi)).Nodup := by
  refine ⟨oneDrive_identified, ?_⟩
  rw [nodup_devicePaths_windows]
  intro h
  have hfree := (partitions_eq_nil_iff _ _).mpr (h 0 (by decide) _ _ rfl rfl)
  have hbuf := oneDrive_opened (n := 0) rfl rfl
  rw [hbuf] at hfree
  have hone := partitions_onePartition
  rw [hfree] at hone
  exact absurd hone (by decide)

end LivediskForensic.Enumeration
