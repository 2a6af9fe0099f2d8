/-
  LivediskForensic.Macos.AnyMedia — `assemble` WITHOUT ASSUMPTIONS ON NAMES.

  The grouping trusts the BSD names of the registry.  Here nothing is assumed
  of them: names may repeat, lack the prefix or carry any number.  Of several
  whole disks of one name the first takes all the partitions, a medium whose
  parent name belongs to no whole disk is left out, and nothing else is lost,
  doubled or changed.

      assemble_any — for every list of records
-/
import LivediskForensic.Macos.Assemble

namespace LivediskForensic.Macos

open LivediskForensic.Lib

/-! ## §1. The loop. -/

/-- A disk before its partitions are attached. -/
def emptied (d : PhysicalDisk) : PhysicalDisk := { d with partitions := [] }

/-- The loop changes nothing but the partitions. -/
theorem map_emptied_attachAll (slices : List RawMedia) : ∀ disks : List PhysicalDisk,
    (attachAll slices disks).map emptied = disks.map emptied := by
  induction slices with
  | nil =>
      intro disks
      rfl
  | cons m slices ih =>
      intro disks
      show (attachAll slices (updateFirst _ (fun d => pushPartition d m) disks)).map emptied = _
      rw [ih]
      exact map_updateFirst (f := fun d => pushPartition d m) _ (fun _ => rfl) disks

theorem attachAll_nil (slices : List RawMedia) : attachAll slices [] = [] :=
  List.map_eq_nil_iff.mp (map_emptied_attachAll slices [])

/-- The first disk takes the slices named after it, and the others share what is left. -/
theorem attachAll_cons (slices : List RawMedia) (d : PhysicalDisk) (disks : List PhysicalDisk)
    (hd : d.partitions = []) :
    attachAll slices (d :: disks)
      = { d with
          partitions := (slices.filter (fun m => wholeDiskOf m.bsd = d.name)).map partitionOf }
        :: attachAll (slices.filter (fun m => wholeDiskOf m.bsd ≠ d.name)) disks := by
  unfold attachAll
  rw [foldl_updateFirst_cons PhysicalDisk.name (fun m : RawMedia => wholeDiskOf m.bsd) pushPartition
    (fun _ _ => rfl), foldl_pushPartition, hd, List.nil_append]

/-- What the first disk takes is not there for a namesake, and all there for the others. -/
theorem filter_taken (slices : List RawMedia) (name : String) :
    (slices.filter (fun m => wholeDiskOf m.bsd ≠ name)).filter (fun m => wholeDiskOf m.bsd = name)
      = [] := by
  rw [List.filter_filter, List.filter_eq_nil_iff]
  intro m _
  simp

theorem filter_named (slices : List RawMedia) {name name' : String} (h : name' ≠ name) :
    (slices.filter (fun m => wholeDiskOf m.bsd ≠ name)).filter (fun m => wholeDiskOf m.bsd = name')
      = slices.filter (fun m => wholeDiskOf m.bsd = name') := by
  rw [List.filter_filter]
  apply List.filter_congr
  intro m _
  by_cases hm : wholeDiskOf m.bsd = name'
  · simp [hm, h]
  · simp [hm]

/-- **All or nothing**: a disk has every slice named after it, or none. -/
theorem all_or_none_attachAll (disks : List PhysicalDisk) : ∀ slices : List RawMedia,
    (∀ d ∈ disks, d.partitions = []) → ∀ d ∈ attachAll slices disks,
      d.partitions = []
        ∨ d.partitions = (slices.filter (fun m => wholeDiskOf m.bsd = d.name)).map partitionOf := by
  induction disks with
  | nil =>
      intro slices _ d hd
      rw [attachAll_nil] at hd
      exact absurd hd List.not_mem_nil
  | cons e disks ih =>
      intro slices hempty d hd
      rw [List.forall_mem_cons] at hempty
      rw [attachAll_cons slices e disks hempty.1, List.mem_cons] at hd
      rcases hd with rfl | hd
      · exact Or.inr rfl
      · rcases ih _ hempty.2 d hd with hnone | hall
        · exact Or.inl hnone
        -- a namesake of the first disk finds no slice left
        · by_cases hname : d.name = e.name
          · left
            rw [hall, hname, filter_taken]
            rfl
          · right
            rw [hall, filter_named slices hname]

/-- **Nobody shares**: of the disks of one name one at most has partitions. -/
theorem one_owner_attachAll (disks : List PhysicalDisk) : ∀ slices : List RawMedia,
    (∀ d ∈ disks, d.partitions = []) →
    (((attachAll slices disks).filter (fun d => !d.partitions.isEmpty)).map
      PhysicalDisk.name).Nodup := by
  induction disks with
  | nil =>
      intro slices _
      rw [attachAll_nil]
      exact List.nodup_nil
  | cons e disks ih =>
      intro slices hempty
      rw [List.forall_mem_cons] at hempty
      have hrest := ih (slices.filter (fun m => wholeDiskOf m.bsd ≠ e.name)) hempty.2
      have howner := all_or_none_attachAll disks
        (slices.filter (fun m => wholeDiskOf m.bsd ≠ e.name)) hempty.2
      rw [attachAll_cons slices e disks hempty.1, List.filter_cons]
      split_ifs with hhead
      · rw [List.map_cons, List.nodup_cons]
        refine ⟨?_, hrest⟩
        intro hmem
        obtain ⟨d, hd, hname⟩ := List.mem_map.mp hmem
        rw [List.mem_filter] at hd
        -- a namesake behind the first disk is left with nothing
        have hnil : d.partitions = [] := by
          rcases howner d hd.1 with hnone | hall
          · exact hnone
          · rw [hall, show d.name = e.name from hname, filter_taken]
            rfl
        rw [hnil] at hd
        exact absurd hd.2 (by simp)
      · exact hrest

/-- **Nothing is lost or doubled** on the way to the disks. -/
theorem partitions_attachAll (disks : List PhysicalDisk) : ∀ slices : List RawMedia,
    (∀ d ∈ disks, d.partitions = []) →
    ((attachAll slices disks).flatMap PhysicalDisk.partitions).Perm
      ((slices.filter (fun m => wholeDiskOf m.bsd ∈ disks.map PhysicalDisk.name)).map
        partitionOf) := by
  induction disks with
  | nil =>
      intro slices _
      rw [attachAll_nil]
      simp
  | cons e disks ih =>
      intro slices hempty
      rw [List.forall_mem_cons] at hempty
      have hrest := ih (slices.filter (fun m => wholeDiskOf m.bsd ≠ e.name)) hempty.2
      have hor := filter_or_perm (p := fun m => decide (wholeDiskOf m.bsd = e.name))
        (q := fun m => decide (wholeDiskOf m.bsd ≠ e.name)
          && decide (wholeDiskOf m.bsd ∈ disks.map PhysicalDisk.name)) slices (by
            intro m _ hm
            simp [of_decide_eq_true hm])
      rw [List.filter_filter] at hrest
      rw [attachAll_cons slices e disks hempty.1, List.flatMap_cons]
      refine (hrest.append_left _).trans ?_
      rw [← List.map_append]
      refine List.Perm.map partitionOf (List.Perm.trans ?_ (hor.trans (List.Perm.of_eq ?_)))
      · exact List.Perm.of_eq (by simp only [Bool.and_comm])
      · apply List.filter_congr
        intro m _
        by_cases hm : wholeDiskOf m.bsd = e.name
        · simp [hm]
        · simp [hm]

/-! ## §2. The result. -/

/-- `disks` are the media, grouped as far as their names go. -/
structure Assembled (media : List RawMedia) (disks : List PhysicalDisk) : Prop where
  /-- One disk per whole medium, with the medium's data. -/
  one_disk_per_whole : (disks.map emptied).Perm ((media.filter RawMedia.whole).map diskOf)
  /-- A disk has all the media named after it, by offset and in registry order, or none. -/
  all_or_none : ∀ d ∈ disks, d.partitions = []
    ∨ d.partitions = sortByKey (fun p => p.startOffset.toNat)
        ((membersOf media d.name).map partitionOf)
  /-- No two disks of one name have partitions. -/
  one_owner : ((disks.filter (fun d => !d.partitions.isEmpty)).map PhysicalDisk.name).Nodup
  /-- Over all disks, exactly the media whose parent name is that of a whole disk. -/
  partitions_exact : (disks.flatMap PhysicalDisk.partitions).Perm
    ((media.filter (fun m => !m.whole
      && decide (wholeDiskOf m.bsd ∈ (media.filter RawMedia.whole).map RawMedia.bsd))).map
        partitionOf)
  index_ordered : disks.Pairwise (fun d e => diskIndex d.name ≤ diskIndex e.name)

section Assemble

variable (media : List RawMedia)

/-- The disks once the partitions are attached, in the order of the whole media. -/
def attachedOf : List PhysicalDisk :=
  attachAll (media.filter (fun m => !m.whole)) ((media.filter RawMedia.whole).map diskOf)

/-- The result, up to the order of the disks. -/
theorem assemble_perm : (assemble media).Perm ((attachedOf media).map sortPartitions) :=
  sortByKey_perm _ _

/-- Before that they have none. -/
theorem partitions_wholes : ∀ d ∈ (media.filter RawMedia.whole).map diskOf, d.partitions = [] := by
  intro d hd
  obtain ⟨w, _, rfl⟩ := List.mem_map.mp hd
  rfl

theorem map_emptied_assemble :
    ((assemble media).map emptied).Perm ((media.filter RawMedia.whole).map diskOf) := by
  have hself : ((media.filter RawMedia.whole).map diskOf).map emptied
      = (media.filter RawMedia.whole).map diskOf := by
    refine (List.map_congr_left ?_).trans (List.map_id _)
    intro d hd
    obtain ⟨w, _, rfl⟩ := List.mem_map.mp hd
    rfl
  refine ((assemble_perm media).map emptied).trans (List.Perm.of_eq ?_)
  rw [List.map_map]
  exact (map_emptied_attachAll _ _).trans hself

theorem all_or_none_assemble : ∀ d ∈ assemble media, d.partitions = []
    ∨ d.partitions = sortByKey (fun p => p.startOffset.toNat)
        ((membersOf media d.name).map partitionOf) := by
  intro d hd
  obtain ⟨e, he, rfl⟩ := List.mem_map.mp ((assemble_perm media).mem_iff.mp hd)
  rcases all_or_none_attachAll _ _ (partitions_wholes media) e he with hnone | hall
  · left
    show sortByKey _ e.partitions = []
    rw [hnone]
    rfl
  · right
    show sortByKey _ e.partitions = _
    rw [hall]
    rfl

theorem one_owner_assemble :
    (((assemble media).filter (fun d => !d.partitions.isEmpty)).map PhysicalDisk.name).Nodup := by
  -- the sort of a disk's partitions leaves none behind, and adds none
  have hsort : ∀ d : PhysicalDisk,
      (!(sortPartitions d).partitions.isEmpty) = !d.partitions.isEmpty := by
    intro d
    show (!(sortByKey _ d.partitions).isEmpty) = _
    congr 1
    rw [Bool.eq_iff_iff, List.isEmpty_iff, List.isEmpty_iff, sortByKey_eq_nil]
  have hfilter : ((attachedOf media).map sortPartitions).filter (fun d => !d.partitions.isEmpty)
      = ((attachedOf media).filter (fun d => !d.partitions.isEmpty)).map sortPartitions := by
    rw [List.filter_map]
    congr 1
    apply List.filter_congr
    intro d _
    exact hsort d
  have hnames := ((assemble_perm media).filter (fun d => !d.partitions.isEmpty)).map
    PhysicalDisk.name
  rw [hfilter, List.map_map] at hnames
  exact hnames.nodup_iff.mpr (one_owner_attachAll _ _ (partitions_wholes media))

theorem partitions_assemble_any : ((assemble media).flatMap PhysicalDisk.partitions).Perm
    ((media.filter (fun m => !m.whole
      && decide (wholeDiskOf m.bsd ∈ (media.filter RawMedia.whole).map RawMedia.bsd))).map
        partitionOf) := by
  have hsorted : (((attachedOf media).map sortPartitions).flatMap PhysicalDisk.partitions).Perm
      ((attachedOf media).flatMap PhysicalDisk.partitions) := by
    rw [List.flatMap_map]
    apply List.Perm.flatMap_left _
    intro d _
    exact sortByKey_perm _ _
  have hparts := partitions_attachAll ((media.filter RawMedia.whole).map diskOf)
    (media.filter (fun m => !m.whole)) (partitions_wholes media)
  refine ((assemble_perm media).flatMap_right _).trans (hsorted.trans ?_)
  refine hparts.trans (List.Perm.of_eq ?_)
  rw [List.filter_filter]
  congr 1
  apply List.filter_congr
  intro m _
  rw [Bool.and_comm, List.map_map]
  rfl

end Assemble

/-- **GROUPING ANY RECORDS.** -/
theorem assemble_any (media : List RawMedia) : Assembled media (assemble media) where
  one_disk_per_whole := map_emptied_assemble media
  all_or_none := all_or_none_assemble media
  one_owner := one_owner_assemble media
  partitions_exact := partitions_assemble_any media
  index_ordered := sortByKey_pairwise _ _

end LivediskForensic.Macos
