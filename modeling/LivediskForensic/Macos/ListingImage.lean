/-
  LivediskForensic.Macos.ListingImage — WHICH LISTINGS A MACOS HOST CAN YIELD.

  Any registry, well-named or not: the sector sizes of a disk agree, no mount
  and no model is ever set, the partitions of a disk carry its name, and of
  several disks of one name the first has all the partitions.  Nothing more can
  be said: every such listing is what the walk ends with, over some registry.

      walk_image — the listings the walk can end with
-/
import LivediskForensic.Macos.AnyMedia
import LivediskForensic.Macos.Machine

namespace LivediskForensic.Macos

open LivediskForensic.Lib
open LivediskForensic.Macos.Ffi

/-! ## §1. Listings. -/

/-- A partition as it can be listed under a disk of that name. -/
structure ReturnablePartition (disk : String) (p : Partition) : Prop where
  path : p.devicePath = "/dev/" ++ p.name
  named : wholeDiskOf p.name = disk
  start_lt : p.startOffset.toNat < 2 ^ 63
  size_lt : p.sizeBytes.toNat < 2 ^ 63
  type_ne : p.partitionType ≠ some ""
  no_mount : p.mountPoint = none
  no_filesystem : p.filesystem = none
  no_label : p.label = none

/-- A disk as it can be listed. -/
structure ReturnableDisk (d : PhysicalDisk) : Prop where
  path : d.devicePath = "/dev/" ++ d.name
  size_lt : d.sizeBytes.toNat < 2 ^ 63
  physical : d.physicalSectorSize = d.logicalSectorSize
  no_model : d.model = none
  no_serial : d.serial = none
  partitions : ∀ p ∈ d.partitions, ReturnablePartition d.name p
  by_offset : d.partitions.Pairwise (fun p q => p.startOffset.toNat ≤ q.startOffset.toNat)

/-- A disk leaves nothing to its namesakes behind it. -/
def Exhausts (d e : PhysicalDisk) : Prop := d.name = e.name → e.partitions = []

/-- A listing as the walk can end with. -/
structure Returnable (disks : List PhysicalDisk) : Prop where
  disk : ∀ d ∈ disks, ReturnableDisk d
  by_index : disks.Pairwise (fun d e => diskIndex d.name ≤ diskIndex e.name)
  first_owns : disks.Pairwise Exhausts

/-! ## §2. What is returned. -/

/-- Sizes and bases of a medium are clamped `i64`s. -/
structure Clamped (m : RawMedia) : Prop where
  size_lt : m.size.toNat < 2 ^ 63
  base_lt : m.base.toNat < 2 ^ 63

theorem max_zero_lt (x : Int64) : (max x 0).toUInt64.toNat < 2 ^ 63 := by
  show (if x ≤ 0 then (0 : Int64) else x).toUInt64.toNat < 2 ^ 63
  by_cases h : x ≤ 0
  · rw [if_pos h]
    decide
  · have hnonneg : 0 ≤ x := by
      rw [Int64.le_iff_toInt_le] at h ⊢
      omega
    rw [if_neg h, Int64.toNat_toUInt64_of_le hnonneg]
    exact x.toNatClampNeg_lt

theorem clamped_of_mediaOf {e : Entry} {m : RawMedia} (h : mediaOf e = some m) : Clamped m := by
  unfold mediaOf mediaOfProperties at h
  obtain ⟨props, _, h⟩ := Option.bind_eq_some_iff.mp h
  obtain ⟨bsd, _, h⟩ := Option.map_eq_some_iff.mp h
  rw [← h]
  exact ⟨max_zero_lt _, max_zero_lt _⟩

/-- The disks before the sorts: partitions named after their disk, nothing for namesakes. -/
theorem attachAll_named (disks : List PhysicalDisk) : ∀ slices : List RawMedia,
    (∀ d ∈ disks, d.partitions = []) → ∀ d ∈ attachAll slices disks, ∀ p ∈ d.partitions,
      ∃ m ∈ slices, p = partitionOf m ∧ wholeDiskOf m.bsd = d.name := by
  intro slices hempty d hd p hp
  rcases all_or_none_attachAll disks slices hempty d hd with hnone | hall
  · rw [hnone] at hp
    exact absurd hp List.not_mem_nil
  · rw [hall] at hp
    obtain ⟨m, hm, rfl⟩ := List.mem_map.mp hp
    rw [List.mem_filter, decide_eq_true_eq] at hm
    exact ⟨m, hm.1, rfl, hm.2⟩

theorem attachAll_exhausts (disks : List PhysicalDisk) : ∀ slices : List RawMedia,
    (∀ d ∈ disks, d.partitions = []) → (attachAll slices disks).Pairwise Exhausts := by
  induction disks with
  | nil =>
      intro slices _
      rw [attachAll_nil]
      exact List.Pairwise.nil
  | cons e disks ih =>
      intro slices hempty
      rw [List.forall_mem_cons] at hempty
      rw [attachAll_cons slices e disks hempty.1, List.pairwise_cons]
      refine ⟨?_, ih _ hempty.2⟩
      intro d hd hname
      rcases all_or_none_attachAll disks _ hempty.2 d hd with hnone | hall
      · exact hnone
      · rw [hall, ← show e.name = d.name from hname, filter_taken]
        rfl

theorem returnablePartition_partitionOf {disk : String} {m : RawMedia} (h : Clamped m)
    (hparent : wholeDiskOf m.bsd = disk) : ReturnablePartition disk (partitionOf m) := by
  have htype : (if m.content = "" then none else some m.content) ≠ some "" := by
    by_cases hcontent : m.content = ""
    · rw [if_pos hcontent]
      exact (Option.some_ne_none "").symm
    · rw [if_neg hcontent]
      exact fun hsome => hcontent (Option.some.inj hsome)
  exact ⟨rfl, hparent, h.base_lt, h.size_lt, htype, rfl, rfl, rfl⟩

/-- But for its partitions a disk is the one of its whole medium. -/
theorem returnableDisk_sortPartitions {d : PhysicalDisk} {w : RawMedia} (h : Clamped w)
    (hwhole : emptied d = emptied (diskOf w))
    (hparts : ∀ p ∈ d.partitions, ReturnablePartition d.name p) :
    ReturnableDisk (sortPartitions d) := by
  have hname : d.name = w.bsd := congrArg PhysicalDisk.name hwhole
  have hpath : d.devicePath = "/dev/" ++ w.bsd := congrArg PhysicalDisk.devicePath hwhole
  have hsize : d.sizeBytes = w.size := congrArg PhysicalDisk.sizeBytes hwhole
  have hlogical : d.logicalSectorSize = w.block := congrArg PhysicalDisk.logicalSectorSize hwhole
  have hphysical : d.physicalSectorSize = w.block :=
    congrArg PhysicalDisk.physicalSectorSize hwhole
  have hmodel : d.model = none := congrArg PhysicalDisk.model hwhole
  have hserial : d.serial = none := congrArg PhysicalDisk.serial hwhole
  refine ⟨?_, ?_, ?_, hmodel, hserial, ?_, sortByKey_pairwise _ _⟩
  · show d.devicePath = "/dev/" ++ d.name
    rw [hpath, hname]
  · show d.sizeBytes.toNat < 2 ^ 63
    rw [hsize]
    exact h.size_lt
  · show d.physicalSectorSize = d.logicalSectorSize
    rw [hphysical, hlogical]
  · intro p hp
    exact hparts p (mem_sortByKey.mp hp)

/-- Disks of one name have one index, and the sort is stable. -/
theorem exhausts_sortByKey {disks : List PhysicalDisk} (h : disks.Pairwise Exhausts) :
    (sortByKey (fun d => diskIndex d.name) (disks.map sortPartitions)).Pairwise Exhausts := by
  have hsorted : (disks.map sortPartitions).Pairwise Exhausts := by
    rw [List.pairwise_map]
    refine h.imp ?_
    intro d e hde hname
    show sortByKey _ e.partitions = []
    rw [sortByKey_eq_nil]
    exact hde hname
  refine (sortByKey_pairwise_stable _ hsorted).imp ?_
  intro d e hde hname
  rcases hde with hlt | ⟨_, hown⟩
  · rw [hname] at hlt
    exact absurd hlt (lt_irrefl _)
  · exact hown hname

theorem returnable_assemble {media : List RawMedia} (h : ∀ m ∈ media, Clamped m) :
    Returnable (assemble media) := by
  have hempty := partitions_wholes media
  refine ⟨?_, sortByKey_pairwise _ _, exhausts_sortByKey (attachAll_exhausts _ _ hempty)⟩
  intro d hd
  obtain ⟨e, he, rfl⟩ := List.mem_map.mp ((assemble_perm media).mem_iff.mp hd)
  have hmem : emptied e ∈ ((media.filter RawMedia.whole).map diskOf).map emptied := by
    rw [← map_emptied_attachAll (media.filter (fun m => !m.whole))]
    exact List.mem_map_of_mem he
  obtain ⟨d, hd, hde⟩ := List.mem_map.mp hmem
  obtain ⟨w, hw, rfl⟩ := List.mem_map.mp hd
  refine returnableDisk_sortPartitions (h w (List.mem_of_mem_filter hw)) hde.symm ?_
  intro p hp
  obtain ⟨m, hm, rfl, hparent⟩ := attachAll_named _ _ hempty e he p hp
  exact returnablePartition_partitionOf (h m (List.mem_of_mem_filter hm)) hparent

/-! ## §3. A registry for any listing. -/

/-- The whole medium of a disk. -/
def wholeOf (d : PhysicalDisk) : RawMedia :=
  { bsd := d.name
    size := d.sizeBytes
    block := d.logicalSectorSize
    base := 0
    whole := true
    removable := d.removable
    writable := !d.readOnly
    content := ""
    className := if d.synthesized then "AppleAPFSMedia" else "IOMedia" }

def sliceOf (p : Partition) : RawMedia :=
  { bsd := p.name
    size := p.sizeBytes
    block := 512
    base := p.startOffset
    whole := false
    removable := false
    writable := true
    content := p.partitionType.getD ""
    className := "IOMedia" }

def mediaOfDisks (disks : List PhysicalDisk) : List RawMedia :=
  disks.flatMap (fun d => wholeOf d :: d.partitions.map sliceOf)

/-- A record as a dictionary. -/
def propertiesOf (m : RawMedia) (key : String) : Option CFValue :=
  if key = "BSD Name" then some (.string m.bsd)
  else if key = "Size" then some (.number (some (Int64.ofNat m.size.toNat)))
  -- read back modulo 2^32, so that zero survives the clamp
  else if key = "Preferred Block Size" then
    some (.number (some (Int64.ofNat (m.block.toNat + 2 ^ 32))))
  else if key = "Base" then some (.number (some (Int64.ofNat m.base.toNat)))
  else if key = "Whole" then some (.boolean m.whole)
  else if key = "Removable" then some (.boolean m.removable)
  else if key = "Writable" then some (.boolean m.writable)
  else if key = "Content" then some (.string m.content)
  else none

def entryOf (m : RawMedia) : Entry :=
  { properties := some (propertiesOf m), className := some m.className }

def registryOf (media : List RawMedia) : Registry :=
  { matching := true, services := .ok (media.map entryOf) }

theorem mediaOf_entryOf {m : RawMedia} (h : Clamped m) : mediaOf (entryOf m) = some m := by
  have hsize : (max (Int64.ofNat m.size.toNat) 0).toUInt64 = m.size := by
    have hclamp := toUInt64_max h.size_lt (Nat.zero_le m.size.toNat)
    rw [UInt64.ofNat_toNat] at hclamp
    exact hclamp
  have hbase : (max (Int64.ofNat m.base.toNat) 0).toUInt64 = m.base := by
    have hclamp := toUInt64_max h.base_lt (Nat.zero_le m.base.toNat)
    rw [UInt64.ofNat_toNat] at hclamp
    exact hclamp
  have hblock : (max (Int64.ofNat (m.block.toNat + 2 ^ 32)) 1).toUInt64.toUInt32 = m.block := by
    have hlt := m.block.toNat_lt
    have hclamp : (max (Int64.ofNat (m.block.toNat + 2 ^ 32)) (Int64.ofNat 1)).toUInt64
        = UInt64.ofNat (m.block.toNat + 2 ^ 32) := toUInt64_max (by omega) (by omega)
    show (max (Int64.ofNat (m.block.toNat + 2 ^ 32)) (Int64.ofNat 1)).toUInt64.toUInt32 = m.block
    rw [hclamp, ← UInt32.toNat_inj, UInt64.toNat_toUInt32, UInt64.toNat_ofNat']
    omega
  have hself : m = RawMedia.mk m.bsd m.size m.block m.base m.whole m.removable m.writable m.content
      m.className := rfl
  show mediaOfProperties (propertiesOf m) (some m.className) = some m
  unfold mediaOfProperties
  conv_rhs => rw [hself, ← hsize, ← hblock, ← hbase]
  rfl

theorem media_registryOf {media : List RawMedia} (h : ∀ m ∈ media, Clamped m) :
    (registryOf media).media = .ok media := by
  have hread : (media.map entryOf).filterMap mediaOf = media := by
    rw [List.filterMap_map]
    refine Eq.trans (List.filterMap_congr ?_) (List.filterMap_some (l := media))
    intro m hm
    exact mediaOf_entryOf (h m hm)
  unfold Registry.media registryOf
  rw [if_pos rfl]
  show Except.ok _ = Except.ok media
  rw [hread]

/-! ## §4. The listing read back. -/

theorem diskOf_wholeOf {d : PhysicalDisk} (h : ReturnableDisk d) :
    diskOf (wholeOf d) = emptied d := by
  have hclass : "AppleAPFS".toList.isPrefixOf
      (if d.synthesized then "AppleAPFSMedia" else "IOMedia").toList = d.synthesized := by
    cases d.synthesized with
    | true =>
        rw [if_pos rfl]
        decide
    | false =>
        rw [if_neg (by simp)]
        decide
  unfold diskOf wholeOf emptied
  dsimp only
  rw [hclass, h.path, h.physical, h.no_model, h.no_serial, Bool.not_not]

theorem partitionOf_sliceOf {disk : String} {p : Partition} (h : ReturnablePartition disk p) :
    partitionOf (sliceOf p) = p := by
  have htype : (if p.partitionType.getD "" = "" then none else some (p.partitionType.getD ""))
      = p.partitionType := by
    cases ht : p.partitionType with
    | none => rfl
    | some t =>
        have hne : t ≠ "" := fun he => h.type_ne (by rw [ht, he])
        rw [Option.getD_some, if_neg hne]
  unfold partitionOf sliceOf
  dsimp only
  rw [htype]
  show _ = Partition.mk p.devicePath p.name p.startOffset p.sizeBytes p.partitionType p.mountPoint
    p.filesystem p.label
  rw [h.path, h.no_mount, h.no_filesystem, h.no_label]

section Listing

variable {disks : List PhysicalDisk}

theorem wholes_mediaOfDisks (disks : List PhysicalDisk) :
    (mediaOfDisks disks).filter RawMedia.whole = disks.map wholeOf := by
  induction disks with
  | nil => rfl
  | cons d disks ih =>
      have hslices : (d.partitions.map sliceOf).filter RawMedia.whole = [] := by
        rw [List.filter_eq_nil_iff]
        intro m hm
        obtain ⟨p, _, rfl⟩ := List.mem_map.mp hm
        exact Bool.false_ne_true
      show ((wholeOf d :: d.partitions.map sliceOf) ++ mediaOfDisks disks).filter _ = _
      rw [List.filter_append, ih, List.filter_cons_of_pos rfl, hslices]
      rfl

theorem slices_mediaOfDisks (disks : List PhysicalDisk) :
    (mediaOfDisks disks).filter (fun m => !m.whole)
      = disks.flatMap (fun d => d.partitions.map sliceOf) := by
  induction disks with
  | nil => rfl
  | cons d disks ih =>
      have hslices : (d.partitions.map sliceOf).filter (fun m => !m.whole)
          = d.partitions.map sliceOf := by
        rw [List.filter_eq_self]
        intro m hm
        obtain ⟨p, _, rfl⟩ := List.mem_map.mp hm
        rfl
      show ((wholeOf d :: d.partitions.map sliceOf) ++ mediaOfDisks disks).filter _ = _
      rw [List.filter_append, ih, List.filter_cons_of_neg Bool.false_ne_true, hslices]
      rfl

/-- A disk's slices are named after it, and those of the disks behind it are not. -/
theorem wholeDiskOf_slices {d : PhysicalDisk} (hd : ReturnableDisk d)
    (hform : ∀ e ∈ disks, ReturnableDisk e) (hown : ∀ e ∈ disks, Exhausts d e) :
    (∀ m ∈ d.partitions.map sliceOf, wholeDiskOf m.bsd = d.name)
      ∧ ∀ m ∈ disks.flatMap (fun e => e.partitions.map sliceOf), wholeDiskOf m.bsd ≠ d.name := by
  constructor
  · intro m hm
    obtain ⟨p, hp, rfl⟩ := List.mem_map.mp hm
    exact (hd.partitions p hp).named
  · intro m hm hname
    obtain ⟨e, he, hm⟩ := List.mem_flatMap.mp hm
    obtain ⟨p, hp, rfl⟩ := List.mem_map.mp hm
    -- a namesake behind it has none
    have hsame : d.name = e.name := hname.symm.trans ((hform e he).partitions p hp).named
    rw [hown e he hsame] at hp
    exact absurd hp List.not_mem_nil

/-- Every disk draws its own partitions. -/
theorem attachAll_slices (hform : ∀ d ∈ disks, ReturnableDisk d) (hown : disks.Pairwise Exhausts) :
    attachAll (disks.flatMap (fun d => d.partitions.map sliceOf)) (disks.map emptied) = disks := by
  induction disks with
  | nil => rfl
  | cons d disks ih =>
      rw [List.forall_mem_cons] at hform
      rw [List.pairwise_cons] at hown
      obtain ⟨hmine, hothers⟩ := wholeDiskOf_slices hform.1 hform.2 hown.1
      have htaken : (((d :: disks).flatMap (fun d => d.partitions.map sliceOf)).filter
          (fun m => wholeDiskOf m.bsd = d.name)) = d.partitions.map sliceOf := by
        rw [List.flatMap_cons, List.filter_append, List.filter_eq_self.mpr,
          List.filter_eq_nil_iff.mpr, List.append_nil]
        · intro m hm
          rw [decide_eq_true_eq]
          exact hothers m hm
        · intro m hm
          exact decide_eq_true (hmine m hm)
      have hleft : (((d :: disks).flatMap (fun d => d.partitions.map sliceOf)).filter
          (fun m => wholeDiskOf m.bsd ≠ d.name))
            = disks.flatMap (fun d => d.partitions.map sliceOf) := by
        rw [List.flatMap_cons, List.filter_append, List.filter_eq_nil_iff.mpr,
          List.filter_eq_self.mpr, List.nil_append]
        · intro m hm
          exact decide_eq_true (hothers m hm)
        · intro m hm
          rw [decide_eq_true_eq, not_not]
          exact hmine m hm
      have hparts : (d.partitions.map sliceOf).map partitionOf = d.partitions := by
        rw [List.map_map]
        refine Eq.trans (List.map_congr_left ?_) (List.map_id d.partitions)
        intro p hp
        exact partitionOf_sliceOf (hform.1.partitions p hp)
      have hname : (emptied d).name = d.name := rfl
      rw [List.map_cons, attachAll_cons _ _ _ rfl, hname, htaken, hleft, ih hform.2 hown.2, hparts]
      rfl

theorem assemble_mediaOfDisks (h : Returnable disks) : assemble (mediaOfDisks disks) = disks := by
  have hwholes : (disks.map wholeOf).map diskOf = disks.map emptied := by
    rw [List.map_map]
    apply List.map_congr_left
    intro d hd
    exact diskOf_wholeOf (h.disk d hd)
  have hsorted : disks.map sortPartitions = disks := by
    refine Eq.trans (List.map_congr_left ?_) (List.map_id disks)
    intro d hd
    show { d with partitions := sortByKey _ d.partitions } = d
    rw [show sortByKey _ d.partitions = d.partitions from (h.disk d hd).by_offset.insertionSort_eq]
  unfold assemble
  dsimp only
  rw [wholes_mediaOfDisks, slices_mediaOfDisks, hwholes, attachAll_slices h.disk h.first_owns,
    hsorted]
  exact h.by_index.insertionSort_eq

theorem clamped_mediaOfDisks (h : Returnable disks) : ∀ m ∈ mediaOfDisks disks, Clamped m := by
  intro m hm
  obtain ⟨d, hd, hm⟩ := List.mem_flatMap.mp hm
  rcases List.mem_cons.mp hm with rfl | hm
  · exact ⟨(h.disk d hd).size_lt, Nat.pow_pos (by decide)⟩
  · obtain ⟨p, hp, rfl⟩ := List.mem_map.mp hm
    exact ⟨((h.disk d hd).partitions p hp).size_lt, ((h.disk d hd).partitions p hp).start_lt⟩

end Listing

theorem returnable_of_reaches {reg : Registry} {t : (kernel reg).State} {disks : List PhysicalDisk}
    (hrun : (kernel reg).Reaches (Ffi.enumerate (reg.entries.length + 1)) []
      (.done (some (.ok disks))) t) : Returnable disks := by
  have hresult := (wp_of_reaches hrun (wp_enumerate reg (Nat.lt_succ_self _))).1
  have hmedia : reg.media.map assemble = .ok disks := (Option.some.inj hresult).symm
  cases hwalk : reg.media with
  | error e =>
      rw [hwalk] at hmedia
      exact absurd hmedia (by simp [Except.map])
  | ok media =>
      rw [hwalk] at hmedia
      rw [← show assemble media = disks from Except.ok.inj hmedia]
      apply returnable_assemble
      intro m hm
      -- every record of the walk is one entry's dictionary
      unfold Registry.media at hwalk
      split_ifs at hwalk with hmatching
      cases hservices : reg.services with
      | error code =>
          rw [hservices] at hwalk
          exact absurd hwalk (by simp)
      | ok entries =>
          rw [hservices] at hwalk
          rw [← Except.ok.inj hwalk] at hm
          obtain ⟨e, _, he⟩ := List.mem_filterMap.mp hm
          exact clamped_of_mediaOf he

theorem exists_reaches {disks : List PhysicalDisk} (h : Returnable disks) :
    ∃ reg t, (kernel reg).Reaches (Ffi.enumerate (reg.entries.length + 1)) []
      (.done (some (.ok disks))) t := by
  refine ⟨registryOf (mediaOfDisks disks), ?_⟩
  have hwp := wp_enumerate (registryOf (mediaOfDisks disks)) (Nat.lt_succ_self _)
  obtain ⟨r, t, hrun⟩ := exists_done (kernel_responsive _) hwp
  have hr : r = some ((registryOf (mediaOfDisks disks)).media.map assemble) :=
    (wp_of_reaches hrun hwp).1
  have hdisks : (registryOf (mediaOfDisks disks)).media.map assemble = .ok disks := by
    rw [media_registryOf (clamped_mediaOfDisks h)]
    exact congrArg Except.ok (assemble_mediaOfDisks h)
  rw [hr, hdisks] at hrun
  exact ⟨t, hrun⟩

/-- **WHAT THE WALK CAN END WITH**: over all registries and all runs, the returnable listings and
no others. -/
theorem walk_image (disks : List PhysicalDisk) :
    (∃ reg t, (kernel reg).Reaches (Ffi.enumerate (reg.entries.length + 1)) []
        (.done (some (.ok disks))) t)
      ↔ Returnable disks := by
  constructor
  · intro h
    obtain ⟨reg, t, hrun⟩ := h
    exact returnable_of_reaches hrun
  · exact exists_reaches

end LivediskForensic.Macos
