/-
  LivediskForensic.Macos.Assemble — `core/src/macos.rs`: the flat `IOMedia`
  records grouped into whole disks with their partitions.

  `assemble` runs a loop that hands every partition to the first disk with the
  right name.  On the other side stands `groupOf`, which says what one disk is
  FOR: the whole medium, with every other medium named after it.

      assemble_eq_groups — with distinct whole-disk names the loop computes the
                           groups
      assemble_grouped   — and for the registry's names nothing is lost, doubled
                           or put under another disk
-/
import LivediskForensic.Lib.Grouping
import LivediskForensic.Lib.StableSort
import LivediskForensic.Model.Disk

namespace LivediskForensic.Macos

open LivediskForensic.Lib

/-! ## §1. The program. -/

/-- One `IOMedia` registry node, flattened from its CF property dictionary. -/
structure RawMedia where
  /-- `BSD Name` — `disk0`, `disk0s1`. -/
  bsd : String
  /-- `Size` in bytes. -/
  size : UInt64
  /-- `Preferred Block Size` — the device's logical sector size. -/
  block : UInt32
  /-- `Base` — byte offset of this media within its whole disk. -/
  base : UInt64
  /-- `Whole` — true for a whole disk, false for a partition. -/
  whole : Bool
  removable : Bool
  /-- `Writable` — read-only is its negation. -/
  writable : Bool
  /-- `Content` — partition type. -/
  content : String
  /-- `IOKit` class name; `AppleAPFS*` marks a synthesized disk. -/
  className : String
  deriving Repr, DecidableEq

/-- The whole-disk BSD name owning a partition: `disk3s1s1` → `disk3`. -/
def wholeDiskOf (bsd : String) : String :=
  -- without the prefix the digits are looked for at the front of the whole name
  let rest := (stripPrefix "disk".toList bsd.toList).getD bsd.toList
  "disk" ++ String.ofList (rest.takeWhile Char.isDigit)

/-- Numeric index from a `diskN` name, for ordering. -/
def diskIndex (name : String) : Nat :=
  -- `u64::MAX` puts every name without a number last
  ((stripPrefix "disk".toList name.toList).bind (parseUnsigned 64)).getD (2 ^ 64 - 1)

/-- A whole medium, before its partitions are attached. -/
def diskOf (m : RawMedia) : PhysicalDisk :=
  { devicePath := "/dev/" ++ m.bsd
    name := m.bsd
    sizeBytes := m.size
    logicalSectorSize := m.block
    physicalSectorSize := m.block
    model := none
    serial := none
    removable := m.removable
    readOnly := !m.writable
    synthesized := "AppleAPFS".toList.isPrefixOf m.className.toList
    partitions := [] }

/-- A medium that is no whole disk. -/
def partitionOf (m : RawMedia) : Partition :=
  { devicePath := "/dev/" ++ m.bsd
    name := m.bsd
    startOffset := m.base
    sizeBytes := m.size
    partitionType := if m.content = "" then none else some m.content
    mountPoint := none
    filesystem := none
    label := none }

/-- `d.partitions.push(..)`. -/
def pushPartition (d : PhysicalDisk) (m : RawMedia) : PhysicalDisk :=
  { d with partitions := d.partitions ++ [partitionOf m] }

/-- The attach loop: each medium goes to the first disk named as its parent, if there is one. -/
def attachAll (media : List RawMedia) (disks : List PhysicalDisk) : List PhysicalDisk :=
  media.foldl
    (fun ds m => updateFirst (fun d => d.name = wholeDiskOf m.bsd) (fun d => pushPartition d m) ds)
    disks

def sortPartitions (d : PhysicalDisk) : PhysicalDisk :=
  { d with partitions := sortByKey (fun p => p.startOffset.toNat) d.partitions }

/-- **Group flat `RawMedia` into whole disks each owning their partitions.** -/
def assemble (media : List RawMedia) : List PhysicalDisk :=
  let disks := (media.filter RawMedia.whole).map diskOf
  -- all disks exist before the first partition is attached
  let attached := attachAll (media.filter (fun m => !m.whole)) disks
  sortByKey (fun d => diskIndex d.name) (attached.map sortPartitions)

/-! ## §2. What one disk is for. -/

/-- The partitions of the disk of that name, in registry order. -/
def membersOf (media : List RawMedia) (name : String) : List RawMedia :=
  (media.filter (fun m => !m.whole)).filter (fun m => wholeDiskOf m.bsd = name)

/-- A whole medium with every other medium named after it, by offset. -/
def groupOf (media : List RawMedia) (w : RawMedia) : PhysicalDisk :=
  { diskOf w with
    partitions := sortByKey (fun p => p.startOffset.toNat)
      ((membersOf media w.bsd).map partitionOf) }

@[simp] theorem groupOf_name (media : List RawMedia) (w : RawMedia) :
    (groupOf media w).name = w.bsd := rfl

/-- Pushing one by one appends. -/
theorem foldl_pushPartition (ms : List RawMedia) : ∀ d : PhysicalDisk,
    ms.foldl pushPartition d = { d with partitions := d.partitions ++ ms.map partitionOf } := by
  induction ms with
  | nil =>
      intro d
      simp
  | cons m ms ih =>
      intro d
      rw [List.foldl_cons, ih]
      simp [pushPartition]

/-- **The loop computes the groups**, when no two whole disks share a name. -/
theorem assemble_eq_groups (media : List RawMedia)
    (h : ((media.filter RawMedia.whole).map RawMedia.bsd).Nodup) :
    assemble media
      = sortByKey (fun d => diskIndex d.name)
          ((media.filter RawMedia.whole).map (groupOf media)) := by
  -- the keys of the loop are the disks' names
  have hkeys : (((media.filter RawMedia.whole).map diskOf).map PhysicalDisk.name).Nodup := by
    rw [List.map_map]
    exact h
  have hloop := foldl_updateFirst PhysicalDisk.name (fun m : RawMedia => wholeDiskOf m.bsd)
    pushPartition (fun _ _ => rfl)
    (media.filter (fun m => !m.whole)) ((media.filter RawMedia.whole).map diskOf) hkeys
  show sortByKey _ ((attachAll (media.filter (fun m => !m.whole)) _).map sortPartitions) = _
  unfold attachAll
  rw [hloop, List.map_map, List.map_map]
  congr 1
  apply List.map_congr_left
  intro w _
  show sortPartitions ((membersOf media w.bsd).foldl pushPartition (diskOf w)) = groupOf media w
  rw [foldl_pushPartition]
  rfl

/-- The disks are named as the whole media. -/
theorem names_assemble (media : List RawMedia)
    (h : ((media.filter RawMedia.whole).map RawMedia.bsd).Nodup) :
    ((assemble media).map PhysicalDisk.name).Perm
      ((media.filter RawMedia.whole).map RawMedia.bsd) := by
  rw [assemble_eq_groups media h]
  refine ((sortByKey_perm _ _).map _).trans (List.Perm.of_eq ?_)
  rw [List.map_map]
  rfl

/-- Over all disks, the partitions are the media whose parent is among the whole disks. -/
theorem partitions_assemble (media : List RawMedia)
    (h : ((media.filter RawMedia.whole).map RawMedia.bsd).Nodup) :
    ((assemble media).flatMap PhysicalDisk.partitions).Perm
      (((media.filter (fun m => !m.whole)).filter
        (fun m => wholeDiskOf m.bsd ∈ (media.filter RawMedia.whole).map RawMedia.bsd)).map
          partitionOf) := by
  set wholes := media.filter RawMedia.whole with hwholes
  set slices := media.filter (fun m => !m.whole) with hslices
  -- neither sort loses or doubles anything, so the groups may be taken unsorted
  have hgroups : ((assemble media).flatMap PhysicalDisk.partitions).Perm
      ((wholes.map (groupOf media)).flatMap PhysicalDisk.partitions) := by
    rw [assemble_eq_groups media h]
    exact (sortByKey_perm _ _).flatMap_right _
  have hunsorted : ((wholes.map (groupOf media)).flatMap PhysicalDisk.partitions).Perm
      (((wholes.map RawMedia.bsd).flatMap
        (fun k => slices.filter (fun m => wholeDiskOf m.bsd = k))).map partitionOf) := by
    rw [List.flatMap_map, List.map_flatMap, List.flatMap_map]
    apply List.Perm.flatMap_left _
    intro w _
    exact sortByKey_perm _ _
  have hall := flatMap_filter_perm (fun m : RawMedia => wholeDiskOf m.bsd) slices
    (wholes.map RawMedia.bsd) h
  exact hgroups.trans (hunsorted.trans (hall.map partitionOf))

/-! ## §3. The registry's names. -/

/-- `disk<n>`, the number in canonical decimal. -/
def diskName (n : Nat) : String := "disk" ++ Nat.repr n

/-- `name` is the name of a slice of `owner`: it starts with it and an `s`. -/
def SliceOf (name owner : String) : Prop := (owner ++ "s").toList <+: name.toList

instance (name owner : String) : Decidable (SliceOf name owner) :=
  inferInstanceAs (Decidable ((owner ++ "s").toList <+: name.toList))

theorem toList_diskName (n : Nat) : (diskName n).toList = "disk".toList ++ Nat.toDigits 10 n := by
  show ("disk" ++ String.ofList (Nat.toDigits 10 n)).toList = _
  rw [String.toList_append]
  exact congrArg _ String.toList_ofList

theorem diskIndex_diskName {n : Nat} (h : n < 2 ^ 64) : diskIndex (diskName n) = n := by
  unfold diskIndex
  rw [toList_diskName, stripPrefix_append, Option.bind_some, parseUnsigned_toDigits h,
    Option.getD_some]

/-- The number ends where the `s` begins: `disk10s1` belongs to `disk10`. -/
theorem wholeDiskOf_of_sliceOf {name : String} {n : Nat} (h : SliceOf name (diskName n)) :
    wholeDiskOf name = diskName n := by
  obtain ⟨rest, hrest⟩ := h
  have hlist : name.toList = "disk".toList ++ (Nat.toDigits 10 n ++ 's' :: rest) := by
    rw [← hrest, String.toList_append, toList_diskName]
    simp
  -- the digits of `n` are all digits, and the `s` is none
  have hdigits : ∀ c ∈ Nat.toDigits 10 n, c.isDigit = true :=
    List.all_eq_true.mp (toDigits_isDigit n)
  have hs : ¬ ('s'.isDigit = true) := by decide
  unfold wholeDiskOf
  rw [hlist, stripPrefix_append, Option.getD_some]
  show "disk" ++ String.ofList ((Nat.toDigits 10 n ++ 's' :: rest).takeWhile Char.isDigit) = _
  rw [List.takeWhile_append_of_pos hdigits, List.takeWhile_cons_of_neg hs, List.append_nil]
  rfl

/-! ## §4. Nothing lost, doubled or misattributed. -/

/-- Whole disks are named `disk<n>`, each its own. -/
structure WholeNamed (media : List RawMedia) : Prop where
  whole : ∀ m ∈ media, m.whole = true → ∃ n < 2 ^ 64, m.bsd = diskName n
  distinct : ((media.filter RawMedia.whole).map RawMedia.bsd).Nodup

/-- Names as the registry gives them: the others are `disk<n>s…`. -/
structure WellNamed (media : List RawMedia) : Prop extends WholeNamed media where
  slice : ∀ m ∈ media, m.whole = false → ∃ n, SliceOf m.bsd (diskName n)

/-- The whole disk a medium is a slice of is there. -/
def ParentPresent (media : List RawMedia) (m : RawMedia) : Prop :=
  ∃ w ∈ media, w.whole = true ∧ SliceOf m.bsd w.bsd

instance (media : List RawMedia) (m : RawMedia) : Decidable (ParentPresent media m) :=
  inferInstanceAs (Decidable (∃ w ∈ media, w.whole = true ∧ SliceOf m.bsd w.bsd))

/-- `disks` are the media, grouped. -/
structure Grouped (media : List RawMedia) (disks : List PhysicalDisk) : Prop where
  /-- One disk per whole medium, with the medium's data. -/
  one_disk_per_whole : (disks.map (fun d => { d with partitions := [] })).Perm
    ((media.filter RawMedia.whole).map diskOf)
  /-- In strictly increasing order of the NUMBER in the name. -/
  increasing : ∃ ns : List Nat, disks.map PhysicalDisk.name = ns.map diskName ∧ ns.Pairwise (· < ·)
  /-- Over all disks, exactly the slices whose whole disk is there. -/
  partitions_exact : (disks.flatMap PhysicalDisk.partitions).Perm
    ((media.filter (fun m => !m.whole && decide (ParentPresent media m))).map partitionOf)
  /-- Each under the disk with exactly its own number. -/
  own_disk : ∀ d ∈ disks, ∀ p ∈ d.partitions, ∀ n, SliceOf p.name (diskName n) ↔ d.name = diskName n
  offsets_ordered : ∀ d ∈ disks, d.partitions.Pairwise (fun p q => p.startOffset ≤ q.startOffset)
  /-- Slices of one disk at one offset keep their input order. -/
  equal_offsets_in_order : ∀ d ∈ disks, ∀ o : UInt64,
    d.partitions.filter (fun p => p.startOffset = o)
      = (media.filter (fun m => !m.whole && decide (SliceOf m.bsd d.name) && decide (m.base = o))).map
          partitionOf

section WholeNamed

variable {media : List RawMedia} (hmedia : WholeNamed media)
include hmedia

theorem mem_whole {w : RawMedia} (hw : w ∈ media.filter RawMedia.whole) :
    w ∈ media ∧ w.whole = true ∧ ∃ n < 2 ^ 64, w.bsd = diskName n := by
  rw [List.mem_filter] at hw
  exact ⟨hw.1, hw.2, hmedia.whole w hw.1 hw.2⟩

/-- A disk of the result is the group of a whole medium. -/
theorem mem_assemble {d : PhysicalDisk} (hd : d ∈ assemble media) :
    ∃ w ∈ media, w.whole = true ∧ (∃ n < 2 ^ 64, w.bsd = diskName n) ∧ d = groupOf media w := by
  rw [assemble_eq_groups media hmedia.distinct, mem_sortByKey, List.mem_map] at hd
  obtain ⟨w, hw, hwd⟩ := hd
  obtain ⟨hmem, hwhole, hname⟩ := mem_whole hmedia hw
  exact ⟨w, hmem, hwhole, hname, hwd.symm⟩

/-- The numbers of the whole disks tell them apart. -/
theorem nodup_diskIndex :
    (((media.filter RawMedia.whole).map (groupOf media)).map (fun d => diskIndex d.name)).Nodup := by
  -- equal numbers would be equal names
  have hne := List.pairwise_map.mp hmedia.distinct
  rw [List.map_map]
  refine List.pairwise_map.mpr (hne.imp_of_mem ?_)
  intro v w hv hw hvw heq
  obtain ⟨_, _, n, hn, hvn⟩ := mem_whole hmedia hv
  obtain ⟨_, _, k, hk, hwk⟩ := mem_whole hmedia hw
  change diskIndex v.bsd = diskIndex w.bsd at heq
  rw [hvn, hwk, diskIndex_diskName hn, diskIndex_diskName hk] at heq
  exact hvw (by rw [hvn, hwk, heq])

/-- The disks come in strictly increasing order of their number. -/
theorem increasing_numbers :
    ∃ ns : List Nat, (assemble media).map PhysicalDisk.name = ns.map diskName
      ∧ ns.Pairwise (· < ·) := by
  refine ⟨(assemble media).map (fun d => diskIndex d.name), ?_, ?_⟩
  · rw [List.map_map]
    apply List.map_congr_left
    intro d hd
    obtain ⟨w, _, _, ⟨n, hn, hwn⟩, hdw⟩ := mem_assemble hmedia hd
    show d.name = diskName (diskIndex d.name)
    rw [hdw, groupOf_name, hwn, diskIndex_diskName hn]
  · rw [List.pairwise_map, assemble_eq_groups media hmedia.distinct]
    exact sortByKey_pairwise_lt _ _ (nodup_diskIndex hmedia)

end WholeNamed

section WellNamed

variable {media : List RawMedia} (hmedia : WellNamed media)
include hmedia

/-- The parsed parent is the parent by name. -/
theorem parent_eq_iff {m : RawMedia} (hm : m ∈ media) (hslice : m.whole = false) {n : Nat} :
    wholeDiskOf m.bsd = diskName n ↔ SliceOf m.bsd (diskName n) := by
  constructor
  · intro h
    obtain ⟨k, hk⟩ := hmedia.slice m hm hslice
    rw [wholeDiskOf_of_sliceOf hk] at h
    exact h ▸ hk
  · intro h
    exact wholeDiskOf_of_sliceOf h

/-- The members of a disk are its slices. -/
theorem membersOf_eq (n : Nat) :
    membersOf media (diskName n)
      = media.filter (fun m => !m.whole && decide (SliceOf m.bsd (diskName n))) := by
  unfold membersOf
  rw [List.filter_filter]
  apply List.filter_congr
  intro m hm
  cases hw : m.whole with
  | true => simp
  | false =>
      have hiff := parent_eq_iff hmedia hm hw (n := n)
      simp [hiff]

/-- The partitions of a group. -/
theorem groupOf_partitions {w : RawMedia} {n : Nat} (hw : w.bsd = diskName n) :
    (groupOf media w).partitions
      = sortByKey (fun p => p.startOffset.toNat)
          ((media.filter (fun m => !m.whole && decide (SliceOf m.bsd (diskName n)))).map
            partitionOf) := by
  show sortByKey _ ((membersOf media w.bsd).map partitionOf) = _
  rw [hw, membersOf_eq hmedia]

/-- Each partition sits under the disk with its own number. -/
theorem own_disk {d : PhysicalDisk} (hd : d ∈ assemble media) {p : Partition}
    (hp : p ∈ d.partitions) (n : Nat) : SliceOf p.name (diskName n) ↔ d.name = diskName n := by
  obtain ⟨w, _, _, ⟨k, _, hwk⟩, hdw⟩ := mem_assemble hmedia.toWholeNamed hd
  subst hdw
  rw [groupOf_partitions hmedia hwk, mem_sortByKey, List.mem_map] at hp
  obtain ⟨m, hm, hmp⟩ := hp
  subst hmp
  rw [List.mem_filter, Bool.and_eq_true, decide_eq_true_eq] at hm
  show SliceOf m.bsd (diskName n) ↔ w.bsd = diskName n
  rw [hwk]
  constructor
  · intro h
    rw [← wholeDiskOf_of_sliceOf h, ← wholeDiskOf_of_sliceOf hm.2.2]
  · intro h
    exact h ▸ hm.2.2

/-- Slices of one disk at one offset keep their input order. -/
theorem equal_offsets {d : PhysicalDisk} (hd : d ∈ assemble media) (o : UInt64) :
    d.partitions.filter (fun p => p.startOffset = o)
      = (media.filter (fun m => !m.whole && decide (SliceOf m.bsd d.name) && decide (m.base = o))).map
          partitionOf := by
  obtain ⟨w, _, _, ⟨n, _, hwn⟩, hdw⟩ := mem_assemble hmedia.toWholeNamed hd
  subst hdw
  rw [groupOf_partitions hmedia hwn, groupOf_name, hwn]
  -- stability is stated for the sort key, the offset as a number
  have hstable := sortByKey_filter_key (fun p : Partition => p.startOffset.toNat)
    ((media.filter (fun m => !m.whole && decide (SliceOf m.bsd (diskName n)))).map partitionOf) o.toNat
  simp only [UInt64.toNat_inj] at hstable
  rw [hstable, List.filter_map, List.filter_filter]
  congr 1
  apply List.filter_congr
  intro m _
  show (decide (m.base = o) && _) = _
  rw [Bool.and_comm]

/-- Over all disks, exactly the slices whose whole disk is there. -/
theorem partitions_exact :
    ((assemble media).flatMap PhysicalDisk.partitions).Perm
      ((media.filter (fun m => !m.whole && decide (ParentPresent media m))).map partitionOf) := by
  refine (partitions_assemble media hmedia.distinct).trans (List.Perm.of_eq ?_)
  rw [List.filter_filter]
  congr 1
  apply List.filter_congr
  intro m hm
  cases hw : m.whole with
  | true => simp
  | false =>
      have hiff : wholeDiskOf m.bsd ∈ (media.filter RawMedia.whole).map RawMedia.bsd
          ↔ ParentPresent media m := by
        rw [List.mem_map]
        constructor
        · intro h
          obtain ⟨w, hwm, hwb⟩ := h
          obtain ⟨hmem, hwhole, n, _, hwn⟩ := mem_whole hmedia.toWholeNamed hwm
          rw [hwn] at hwb
          exact ⟨w, hmem, hwhole, hwn ▸ (parent_eq_iff hmedia hm hw).mp hwb.symm⟩
        · intro h
          obtain ⟨w, hmem, hwhole, hsl⟩ := h
          obtain ⟨n, _, hwn⟩ := hmedia.whole w hmem hwhole
          rw [hwn] at hsl
          exact ⟨w, List.mem_filter.mpr ⟨hmem, hwhole⟩, by rw [hwn, wholeDiskOf_of_sliceOf hsl]⟩
      simp [hiff]

end WellNamed

/-- **NOTHING LOST, DOUBLED OR MISATTRIBUTED**, for every registry with its own kind of names. -/
theorem assemble_grouped (media : List RawMedia) (h : WellNamed media) :
    Grouped media (assemble media) := by
  refine ⟨?_, increasing_numbers h.toWholeNamed, partitions_exact h, fun d hd p hp n => own_disk h hd hp n, ?_,
    fun d hd o => equal_offsets h hd o⟩
  · rw [assemble_eq_groups media h.distinct]
    refine ((sortByKey_perm _ _).map _).trans (List.Perm.of_eq ?_)
    rw [List.map_map]
    rfl
  · intro d hd
    obtain ⟨w, _, _, _, hdw⟩ := mem_assemble h.toWholeNamed hd
    have hsorted := sortByKey_pairwise (fun p : Partition => p.startOffset.toNat)
      ((membersOf media w.bsd).map partitionOf)
    rw [hdw]
    exact hsorted.imp (fun hab => UInt64.le_iff_toNat_le.mpr hab)

def medium (bsd : String) (whole : Bool) (base : UInt64) : RawMedia :=
  { bsd := bsd
    size := 4096
    block := 512
    base := base
    whole := whole
    removable := false
    writable := true
    content := "Apple_APFS"
    className := "IOMedia" }

/-- Slices before their disks, a disk past 9, a snapshot, and a slice of an absent disk. -/
def sampleRegistry : List RawMedia :=
  [medium "disk10s1" false 0, medium "disk10" true 0, medium "disk1s1s1" false 0,
   medium "disk1" true 0, medium "disk7s1" false 0]

theorem assemble_grouped_sample : Grouped sampleRegistry (assemble sampleRegistry) :=
  assemble_grouped sampleRegistry
    { whole := List.forall_mem_cons.mpr ⟨fun h => absurd h (by decide),
        List.forall_mem_cons.mpr ⟨fun _ => ⟨10, by decide, by decide⟩,
          List.forall_mem_cons.mpr ⟨fun h => absurd h (by decide),
            List.forall_mem_cons.mpr ⟨fun _ => ⟨1, by decide, by decide⟩,
              List.forall_mem_singleton.mpr (fun h => absurd h (by decide))⟩⟩⟩⟩
      slice := List.forall_mem_cons.mpr ⟨fun _ => ⟨10, by decide⟩,
        List.forall_mem_cons.mpr ⟨fun h => absurd h (by decide),
          List.forall_mem_cons.mpr ⟨fun _ => ⟨1, by decide⟩,
            List.forall_mem_cons.mpr ⟨fun h => absurd h (by decide),
              List.forall_mem_singleton.mpr (fun _ => ⟨7, by decide⟩)⟩⟩⟩⟩
      distinct := by decide }

end LivediskForensic.Macos
