/-
  LivediskForensic.Windows.ListingImage — WHICH LISTINGS A WINDOWS HOST CAN YIELD.

  The buffers are arbitrary bytes, and the listing is still of one form: drives
  under 64 different indices, fixed and writable, at most 227 partitions each,
  their types and labels after one partition style for the whole drive.  Nothing
  more can be said: every such listing is what the calls end with, for some
  answers of the kernel.

      probe_image — the listings the calls can end with
-/
import LivediskForensic.Windows.DriveLayoutImage
import LivediskForensic.Windows.Ffi
import LivediskForensic.Windows.Machine

namespace LivediskForensic.Windows

open LivediskForensic.Lib
open LivediskForensic.DriveLayout
open LivediskForensic.Windows.Ffi

/-! ## §1. Listings. -/

/-- A partition as it can be listed under a drive with that partition style. -/
structure ReturnablePartition (index : Nat) (style : UInt32) (p : Partition) : Prop where
  path : p.devicePath = drivePath index
  named : ∃ number : UInt32, p.name = driveName index ++ "p" ++ Nat.repr number.toNat
  start_lt : p.startOffset.toNat < 2 ^ 63
  size_pos : 0 < p.sizeBytes.toNat
  size_lt : p.sizeBytes.toNat < 2 ^ 63
  described : Described style p.partitionType p.label
  no_mount : p.mountPoint = none
  no_filesystem : p.filesystem = none

/-- A drive as it can be listed. -/
structure ReturnableDrive (index : Nat) (d : PhysicalDisk) : Prop where
  path : d.devicePath = drivePath index
  named : d.name = driveName index
  size_lt : d.sizeBytes.toNat < 2 ^ 63
  logical_ne : d.logicalSectorSize ≠ 0
  physical : d.physicalSectorSize = d.logicalSectorSize
  no_model : d.model = none
  no_serial : d.serial = none
  fixed : d.removable = false
  writable : d.readOnly = false
  store : d.synthesized = false
  partitions : ∃ style, ∀ p ∈ d.partitions, ReturnablePartition index style p
  room : d.partitions.length ≤ 227
  by_offset : d.partitions.Pairwise (fun p q => p.startOffset.toNat ≤ q.startOffset.toNat)

/-- A listing as the calls can end with. -/
structure Returnable (disks : List PhysicalDisk) : Prop where
  drive : ∀ d ∈ disks, ∃ n < MAX_DRIVES, ReturnableDrive n d
  by_name : disks.Pairwise (fun d e => d.name < e.name)

/-! ## §2. What is returned. -/

theorem sizeOf_lt (length : Option (Vector UInt8 8)) : (sizeOf length).toNat < 2 ^ 63 := by
  cases length with
  | none =>
      show (0 : UInt64).toNat < 2 ^ 63
      decide
  | some buf => exact nonNegative_lt _

theorem sectorOf_ne (geometry : Option (Vector UInt8 32)) : sectorOf geometry ≠ 0 := by
  unfold sectorOf
  dsimp only
  split_ifs with h
  · decide
  · exact h

theorem returnable_diskOf {api : ReadApi} (hapi : api.Lawful) (n : Nat) (handle : Handle)
    (buf : Vector UInt8 LAYOUT_BUF) :
    ReturnableDrive n (diskOf n handle (parseDriveLayout api buf.toList)) := by
  have hform := wellFormed_parseDriveLayout hapi buf.toList
  rw [Vector.length_toList] at hform
  refine ⟨rfl, rfl, sizeOf_lt _, sectorOf_ne _, rfl, rfl, rfl, rfl, rfl, rfl,
    ⟨(parseDriveLayout api buf.toList).style, ?_⟩, ?_, sortByKey_pairwise _ _⟩
  · intro p hp
    have hp : p ∈ sortByKey (fun q : Partition => q.startOffset.toNat)
      ((parseDriveLayout api buf.toList).partitions.map (partitionOf n)) := hp
    rw [mem_sortByKey] at hp
    obtain ⟨q, hq, rfl⟩ := List.mem_map.mp hp
    have hparsed := hform.partition q hq
    exact ⟨rfl, ⟨q.number, rfl⟩, hparsed.start_lt, hparsed.length_pos, hparsed.length_lt,
      hparsed.described, rfl, rfl⟩
  · show (sortByKey _ _).length ≤ 227
    rw [length_sortByKey, List.length_map]
    exact hform.room

theorem returnable_of_diskAt {api : ReadApi} (hapi : api.Lawful) {probe : Nat → OpenOutcome}
    {n : Nat} {d : PhysicalDisk} (h : diskAt api probe n = some d) : ReturnableDrive n d := by
  obtain ⟨handle, buf, _, _, rfl⟩ := diskAt_eq_some_iff.mp h
  exact returnable_diskOf hapi n handle buf

theorem nodup_names_found {api : ReadApi} (hapi : api.Lawful) (probe : Nat → OpenOutcome) :
    ((found api probe).map PhysicalDisk.name).Nodup := by
  unfold found
  rw [List.Nodup, List.pairwise_map, List.pairwise_filterMap]
  refine List.nodup_range.imp ?_
  intro n m hne d hd e he hname
  rw [(returnable_of_diskAt hapi hd).named, (returnable_of_diskAt hapi he).named] at hname
  exact hne (driveName_injective hname)

theorem returnable_of_enumerate {api : ReadApi} (hapi : api.Lawful) {probe : Nat → OpenOutcome}
    {disks : List PhysicalDisk} (h : enumerate api probe = .ok disks) : Returnable disks := by
  rw [enumerate_eq] at h
  split_ifs at h with hdenied
  rw [← Except.ok.inj h]
  refine ⟨?_, sortByKey_pairwise_lt _ _ (nodup_names_found hapi probe)⟩
  intro d hd
  obtain ⟨n, hn, hat⟩ := mem_found.mp (mem_sortByKey.mp hd)
  exact ⟨n, hn, returnable_of_diskAt hapi hat⟩

/-! ## §3. Buffers for any listing. -/

theorem exists_parsed {index : Nat} {style : UInt32} {p : Partition}
    (h : ReturnablePartition index style p) :
    ∃ q : ParsedPartition, partitionOf index q = p ∧ WellFormedPartition style q := by
  obtain ⟨number, hnumber⟩ := h.named
  let parsed : ParsedPartition :=
    { number := number
      startOffset := p.startOffset
      length := p.sizeBytes
      typeDesc := p.partitionType
      name := p.label }
  refine ⟨parsed, ?_, ⟨h.size_pos, h.size_lt, h.start_lt, h.described⟩⟩
  unfold partitionOf
  show _ = Partition.mk p.devicePath p.name p.startOffset p.sizeBytes p.partitionType p.mountPoint
    p.filesystem p.label
  rw [h.path, hnumber, h.no_mount, h.no_filesystem]

theorem exists_parsed_list {index : Nat} {style : UInt32} (ps : List Partition)
    (h : ∀ p ∈ ps, ReturnablePartition index style p) :
    ∃ qs : List ParsedPartition, qs.map (partitionOf index) = ps
      ∧ ∀ q ∈ qs, WellFormedPartition style q := by
  induction ps with
  | nil => exact ⟨[], rfl, fun q hq => absurd hq List.not_mem_nil⟩
  | cons p ps ih =>
      rw [List.forall_mem_cons] at h
      obtain ⟨q, hq, hform⟩ := exists_parsed h.1
      obtain ⟨qs, hqs, hforms⟩ := ih h.2
      refine ⟨q :: qs, by rw [List.map_cons, hq, hqs], ?_⟩
      rw [List.forall_mem_cons]
      exact ⟨hform, hforms⟩

/-- **Every such drive is read from some buffers.** -/
theorem exists_handle {api : ReadApi} (hapi : api.Lawful) {n : Nat} {d : PhysicalDisk}
    (h : ReturnableDrive n d) : ∃ handle, readDisk api handle n = some d := by
  obtain ⟨style, hstyle⟩ := h.partitions
  obtain ⟨qs, hqs, hforms⟩ := exists_parsed_list d.partitions hstyle
  have hcount : qs.length ≤ 227 := by
    rw [← List.length_map (partitionOf n), hqs]
    exact h.room
  have hwell : WellFormed LAYOUT_BUF { style := style, partitions := qs } :=
    ⟨fun hlt => absurd hlt (by decide), hcount, Nat.lt_of_le_of_lt hcount (by decide), hforms⟩
  obtain ⟨buf, hlen, hparse⟩ := exists_buffer hapi hwell
  let lengthBuffer : Vector UInt8 8 := ⟨(leBytes 8 d.sizeBytes.toNat).toArray, by simp⟩
  let geometryBuffer : Vector UInt8 32 :=
    ⟨(List.replicate 20 0 ++ (leBytes 4 d.logicalSectorSize.toNat ++ List.replicate 8 0)).toArray,
      by simp⟩
  have hsize : sizeOf (some lengthBuffer) = d.sizeBytes :=
    sizeOf_of_leBytes h.size_lt (by simp [lengthBuffer])
  have hsector : sectorOf (some geometryBuffer) = d.logicalSectorSize :=
    sectorOf_of_leBytes h.logical_ne (List.replicate 20 0) (List.replicate 8 0)
      List.length_replicate (by simp [geometryBuffer])
  have hsorted : sortByKey (fun p : Partition => p.startOffset.toNat) (qs.map (partitionOf n))
      = d.partitions := by
    rw [hqs]
    exact h.by_offset.insertionSort_eq
  let handle : Handle :=
    { length := some lengthBuffer
      geometry := some geometryBuffer
      layout := some ⟨buf.toArray, hlen⟩ }
  refine ⟨handle, ?_⟩
  have hbuf : (Vector.mk buf.toArray hlen : Vector UInt8 LAYOUT_BUF).toList = buf := by simp
  unfold readDisk diskOf
  dsimp only [handle]
  rw [hbuf, hparse, hsize, hsector, hsorted]
  show some _ = some (PhysicalDisk.mk d.devicePath d.name d.sizeBytes d.logicalSectorSize
    d.physicalSectorSize d.model d.serial d.removable d.readOnly d.synthesized d.partitions)
  rw [h.path, h.named, h.physical, h.no_model, h.no_serial, h.fixed, h.writable, h.store]

section Probe

variable {api : ReadApi} (hapi : api.Lawful) {disks : List PhysicalDisk} (h : Returnable disks)

include hapi h

/-- The answers of a kernel that has these drives and no others. -/
theorem exists_probe : ∃ probe : Nat → OpenOutcome,
    (∀ n, deniedAt probe n = false)
      ∧ ∀ n d, diskAt api probe n = some d ↔ d ∈ disks ∧ d.name = driveName n := by
  have hanswer : ∀ n, ∃ answer : OpenOutcome, deniedAt (fun _ => answer) n = false
      ∧ ∀ d, diskAt api (fun _ => answer) n = some d ↔ d ∈ disks ∧ d.name = driveName n := by
    intro n
    by_cases hlisted : ∃ d ∈ disks, d.name = driveName n
    · obtain ⟨d, hd, hname⟩ := hlisted
      obtain ⟨m, _, hdrive⟩ := h.drive d hd
      have hindex : m = n := driveName_injective (hdrive.named.symm.trans hname)
      rw [hindex] at hdrive
      obtain ⟨handle, hread⟩ := exists_handle hapi hdrive
      refine ⟨.opened handle, rfl, ?_⟩
      intro e
      rw [@diskAt_opened api (fun _ => .opened handle) n handle rfl, hread, Option.some.injEq]
      constructor
      · intro heq
        exact heq ▸ ⟨hd, hname⟩
      · intro hlike
        obtain ⟨he, hename⟩ := hlike
        by_contra hne
        -- two drives of one name are one
        have hsep : ∀ a ∈ disks, ∀ b ∈ disks, a.name = b.name → a = b :=
          key_separates_of_nodup (List.pairwise_map.mpr (h.by_name.imp (fun hlt => hlt.ne)))
        exact hne (hsep d hd e he (hname.trans hename.symm))
    · refine ⟨.failed ERROR_FILE_NOT_FOUND, rfl, ?_⟩
      intro d
      constructor
      · intro hat
        rw [@diskAt_failed api (fun _ => .failed ERROR_FILE_NOT_FOUND) n _ rfl] at hat
        exact absurd hat (by simp)
      · intro hd
        exact absurd ⟨d, hd.1, hd.2⟩ hlisted
  choose probe hdenied hdisk using hanswer
  exact ⟨probe, hdenied, hdisk⟩

theorem exists_enumerate : ∃ probe, enumerate api probe = .ok disks := by
  obtain ⟨probe, hdenied, hdisk⟩ := exists_probe hapi h
  refine ⟨probe, ?_⟩
  have hnames : (disks.map PhysicalDisk.name).Nodup :=
    List.pairwise_map.mpr (h.by_name.imp (fun hlt => hlt.ne))
  have hperm : (found api probe).Perm disks := by
    rw [List.perm_ext_iff_of_nodup (nodup_names_found hapi probe).of_map hnames.of_map]
    intro d
    rw [mem_found]
    constructor
    · intro hfound
      obtain ⟨n, _, hat⟩ := hfound
      exact ((hdisk n d).mp hat).1
    · intro hd
      obtain ⟨n, hn, hdrive⟩ := h.drive d hd
      exact ⟨n, hn, (hdisk n d).mpr ⟨hd, hdrive.named⟩⟩
  rw [enumerate_eq, if_neg]
  · have hsep := key_separates_of_nodup (nodup_names_found hapi probe)
    rw [sortByKey_eq_of_perm hsep hperm]
    exact congrArg Except.ok (h.by_name.imp le_of_lt).insertionSort_eq
  · intro hfailed
    obtain ⟨_, n, _, hden⟩ := hfailed
    rw [hdenied n] at hden
    exact absurd hden Bool.false_ne_true

end Probe

theorem returnable_of_reaches {api : ReadApi} (hapi : api.Lawful) {probe : Nat → OpenOutcome}
    {t : (kernel probe).State} {disks : List PhysicalDisk}
    (hrun : (kernel probe).Reaches (Ffi.enumerate api) Kernel.initial (.done (.ok disks)) t) :
    Returnable disks :=
  returnable_of_enumerate hapi (wp_of_reaches hrun (wp_enumerate api probe)).1.symm

theorem exists_reaches {api : ReadApi} (hapi : api.Lawful) {disks : List PhysicalDisk}
    (h : Returnable disks) :
    ∃ probe t, (kernel probe).Reaches (Ffi.enumerate api) Kernel.initial (.done (.ok disks)) t := by
  obtain ⟨probe, hok⟩ := exists_enumerate hapi h
  obtain ⟨r, t, hrun⟩ := exists_done (kernel_responsive probe) (wp_enumerate api probe)
  have hresult := (wp_of_reaches hrun (wp_enumerate api probe)).1
  rw [hresult, hok] at hrun
  exact ⟨probe, t, hrun⟩

/-- **WHAT THE CALLS CAN END WITH**: over all answers and all runs, the returnable listings and
    no others. -/
theorem probe_image (api : ReadApi) (hapi : api.Lawful) (disks : List PhysicalDisk) :
    (∃ probe t, (kernel probe).Reaches (Ffi.enumerate api) Kernel.initial (.done (.ok disks)) t)
      ↔ Returnable disks := by
  constructor
  · intro h
    obtain ⟨probe, t, hrun⟩ := h
    exact returnable_of_reaches hapi hrun
  · exact exists_reaches hapi

/-- A drive under index 2, and nothing else. -/
theorem probe_image_data :
    (∃ probe t, (kernel probe).Reaches (Ffi.enumerate referenceApi) Kernel.initial
        (.done (.ok [dataDrive.disk 2])) t)
      ↔ Returnable [dataDrive.disk 2] :=
  probe_image referenceApi referenceApi_lawful [dataDrive.disk 2]

end LivediskForensic.Windows
