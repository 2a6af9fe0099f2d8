/-
  LivediskForensic.Enumeration.OrderIndependence — TWO RUNS, ONE LISTING.

  `readdir` and the registry iterator promise no order.  Two runs that see the
  same entries in different orders return EQUAL models, as long as the sort
  keys separate the entries: names and start offsets on Linux, disk numbers and
  bases on macOS.  Both proofs are `sortByKey_eq_of_perm`, once for the
  partitions of a disk and once for the disks.
-/
import LivediskForensic.Linux.Sysfs
import LivediskForensic.Macos.Assemble

namespace LivediskForensic.Enumeration

open LivediskForensic.Lib
open LivediskForensic.Sysfs (RawDisk RawPart SYSFS_SECTOR parseU64 parseMounts build buildDisk
  buildPartition)
open LivediskForensic.Macos (RawMedia WholeNamed assemble groupOf membersOf)

/-! ## §1. Linux. -/

/-- The same disk, its partitions seen in another order. -/
def SameDisk (d d' : RawDisk) : Prop :=
  ∃ parts, d.partitions.Perm parts ∧ d' = { d with partitions := parts }

/-- The same disks in another order, the partitions of each in another order. -/
def SameDisks (disks disks' : List RawDisk) : Prop :=
  ∃ mid, disks.Perm mid ∧ List.Forall₂ SameDisk mid disks'

/-- The byte offset `build` gives a partition. -/
def startByte (p : RawPart) : UInt64 := parseU64 p.start * SYSFS_SECTOR

/-- Distinct 64-bit keys are distinct as numbers. -/
theorem nodup_toNat {α : Type*} {key : α → UInt64} {l : List α} (h : (l.map key).Nodup) :
    (l.map (fun a => (key a).toNat)).Nodup := by
  have hinj : Function.Injective UInt64.toNat := fun a b hab => UInt64.toNat_inj.mp hab
  have himage := h.map hinj
  rw [List.map_map] at himage
  exact himage

/-- A disk is built from the set of its partitions. -/
theorem buildDisk_eq_of_sameDisk {mounts : List (String × String × String)} {d d' : RawDisk}
    (hstarts : (d.partitions.map startByte).Nodup) (h : SameDisk d d') :
    buildDisk mounts d = buildDisk mounts d' := by
  obtain ⟨parts, hperm, hd'⟩ := h
  subst hd'
  -- the sort key of a built partition is its start byte
  have hkeys : ((d.partitions.map (buildPartition mounts)).map
      (fun p => p.startOffset.toNat)).Nodup := by
    rw [List.map_map]
    exact nodup_toNat hstarts
  have hsort : sortByKey (fun p => p.startOffset.toNat) (d.partitions.map (buildPartition mounts))
      = sortByKey (fun p => p.startOffset.toNat) (parts.map (buildPartition mounts)) :=
    sortByKey_eq_of_perm (key_separates_of_nodup hkeys) (hperm.map _)
  show PhysicalDisk.mk _ _ _ _ _ _ _ _ _ _ (sortByKey (fun p => p.startOffset.toNat)
    (d.partitions.map (buildPartition mounts))) = _
  rw [hsort]
  rfl

/-- **Linux**: the model is a function of the set of entries. -/
theorem build_eq_of_sameDisks {disks disks' : List RawDisk} (mounts : String)
    (hnames : (disks.map RawDisk.name).Nodup)
    (hstarts : ∀ d ∈ disks, (d.partitions.map startByte).Nodup) (h : SameDisks disks disks') :
    build disks mounts = build disks' mounts := by
  obtain ⟨mid, hperm, hsame⟩ := h
  have hbuilt : mid.map (buildDisk (parseMounts mounts)) = disks'.map (buildDisk (parseMounts mounts)) := by
    -- along the pairs of the same disk, one by one
    have hmid : ∀ d ∈ mid, (d.partitions.map startByte).Nodup :=
      fun d hd => hstarts d (hperm.mem_iff.mpr hd)
    clear hperm
    induction hsame with
    | nil => rfl
    | cons hd _ ih =>
        rw [List.map_cons, List.map_cons,
          buildDisk_eq_of_sameDisk (hmid _ List.mem_cons_self) hd,
          ih (fun d hd => hmid d (List.mem_cons_of_mem _ hd))]
  have hkeys : ((disks.map (buildDisk (parseMounts mounts))).map PhysicalDisk.name).Nodup := by
    rw [List.map_map]
    exact hnames
  unfold build
  rw [← hbuilt]
  exact sortByKey_eq_of_perm (key_separates_of_nodup hkeys) (hperm.map _)

/-! ## §2. macOS. -/

/-- The media of one whole disk lie at distinct bases. -/
def SeparateBases (media : List RawMedia) : Prop :=
  ∀ w ∈ media, w.whole = true → ((membersOf media w.bsd).map RawMedia.base).Nodup

/-- A group is built from the set of its members. -/
theorem groupOf_eq_of_perm {media media' : List RawMedia} (h : media.Perm media') {w : RawMedia}
    (hbases : ((membersOf media w.bsd).map RawMedia.base).Nodup) :
    groupOf media w = groupOf media' w := by
  have hmembers : (membersOf media w.bsd).Perm (membersOf media' w.bsd) := (h.filter _).filter _
  have hkeys : (((membersOf media w.bsd).map Macos.partitionOf).map
      (fun p => p.startOffset.toNat)).Nodup := by
    rw [List.map_map]
    exact nodup_toNat hbases
  unfold groupOf
  rw [sortByKey_eq_of_perm (key_separates_of_nodup hkeys) (hmembers.map _)]

/-- **macOS**: the model is a function of the set of media. -/
theorem assemble_eq_of_perm {media media' : List RawMedia} (hnamed : WholeNamed media)
    (hbases : SeparateBases media) (h : media.Perm media') : assemble media = assemble media' := by
  have hwholes := h.filter RawMedia.whole
  have hdistinct' : ((media'.filter RawMedia.whole).map RawMedia.bsd).Nodup :=
    (hwholes.map _).nodup_iff.mp hnamed.distinct
  -- the groups first: each is the same in both runs
  have hgroups : (media'.filter RawMedia.whole).map (groupOf media')
      = (media'.filter RawMedia.whole).map (groupOf media) := by
    apply List.map_congr_left
    intro w hw
    rw [List.mem_filter] at hw
    exact (groupOf_eq_of_perm h (hbases w (h.mem_iff.mpr hw.1) hw.2)).symm
  rw [Macos.assemble_eq_groups media hnamed.distinct, Macos.assemble_eq_groups media' hdistinct',
    hgroups]
  exact sortByKey_eq_of_perm (key_separates_of_nodup (Macos.nodup_diskIndex hnamed))
    (hwholes.map _)

/-! ## §3. Two runs. -/

/-- What the operating system yields to one run. -/
inductive Yield where
  | linux (disks : List RawDisk) (mounts : String)
  | macos (media : List RawMedia)

def Yield.disks : Yield → List PhysicalDisk
  | .linux disks mounts => build disks mounts
  | .macos media => assemble media

/-- The entries are told apart by name and by offset within their disk. -/
def Yield.Separated : Yield → Prop
  | .linux disks _ =>
      (disks.map RawDisk.name).Nodup ∧ ∀ d ∈ disks, (d.partitions.map startByte).Nodup
  | .macos media => WholeNamed media ∧ SeparateBases media

/-- The same entries, in any order. -/
def Yield.Reordered : Yield → Yield → Prop
  | .linux disks mounts, .linux disks' mounts' => SameDisks disks disks' ∧ mounts = mounts'
  | .macos media, .macos media' => media.Perm media'
  | _, _ => False

/-- **TWO RUNS AGREE**, whatever the order in which the operating system yields its entries. -/
theorem disks_eq_of_reordered (y y' : Yield) (hsep : y.Separated) (h : y.Reordered y') :
    y.disks = y'.disks := by
  cases y with
  | linux disks mounts =>
      cases y' with
      | linux disks' mounts' =>
          obtain ⟨hdisks, hmounts⟩ := h
          rw [← hmounts]
          exact build_eq_of_sameDisks mounts hsep.1 hsep.2 hdisks
      | macos media' => exact absurd h id
  | macos media =>
      cases y' with
      | linux disks' mounts' => exact absurd h id
      | macos media' => exact assemble_eq_of_perm hsep.1 hsep.2 h

def rawPart (name start : String) : RawPart := { name := name, size := "64", start := start }

def rawDisk (name : String) (partitions : List RawPart) : RawDisk :=
  { name := name
    size := "8192"
    removable := "0"
    ro := "0"
    logical := "512"
    physical := "512"
    model := none
    partitions := partitions }

theorem disks_eq_of_reordered_sample :
    (Yield.linux [rawDisk "sda" [rawPart "sda1" "64", rawPart "sda2" "2048"], rawDisk "sdb" []] "").disks
      = (Yield.linux [rawDisk "sdb" [], rawDisk "sda" [rawPart "sda2" "2048", rawPart "sda1" "64"]]
          "").disks :=
  disks_eq_of_reordered _ _ ⟨by decide, by decide⟩
    ⟨⟨_, List.Perm.swap _ _ _,
      List.Forall₂.cons ⟨_, List.Perm.refl _, rfl⟩
        (List.Forall₂.cons ⟨_, List.Perm.swap _ _ _, rfl⟩ List.Forall₂.nil)⟩, rfl⟩

end LivediskForensic.Enumeration
