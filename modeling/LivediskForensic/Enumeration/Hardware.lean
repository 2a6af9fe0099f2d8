/-
  LivediskForensic.Enumeration.Hardware — ONE UNIFIED MODEL.

  What the three backends have in common is the HARDWARE they enumerate: a
  multiset of disks, each with its size, its sector and its extents, in bytes.
  Names, paths and types are the platform's own.  `Platform.hardware` reads it
  off what the kernel knows, before it is turned into files, buffers or
  dictionaries; `hardwareOf` off what `enumerate` returns.

      returns_hardware — on every platform, in every run, `enumerate` returns
                         the hardware that is there
-/
import LivediskForensic.Linux.Machine
import LivediskForensic.Macos.Machine
import LivediskForensic.Windows.Ffi
import LivediskForensic.Windows.Machine
import Mathlib.Data.Multiset.MapFold

namespace LivediskForensic.Enumeration

open LivediskForensic.Lib
open LivediskForensic.DriveLayout

/-! ## §1. Hardware. -/

/-- A disk as a piece of hardware, in bytes. -/
structure Geometry where
  size : Nat
  sector : Nat
  /-- Start and length of each partition. -/
  extents : Multiset (Nat × Nat)

/-- The extent of a partition. -/
def extentOf (p : Partition) : Nat × Nat := (p.startOffset.toNat, p.sizeBytes.toNat)

/-- What a listed disk says of the hardware. -/
def geometryOf (d : PhysicalDisk) : Geometry :=
  { size := d.sizeBytes.toNat
    sector := d.logicalSectorSize.toNat
    extents := (d.partitions.map extentOf : List (Nat × Nat)) }

/-- What a listing says of it. -/
def hardwareOf (disks : List PhysicalDisk) : Multiset Geometry :=
  (disks.map geometryOf : List Geometry)

/-- The order of a listing says nothing. -/
theorem hardwareOf_perm {disks disks' : List PhysicalDisk} (h : disks.Perm disks') :
    hardwareOf disks = hardwareOf disks' :=
  Multiset.coe_eq_coe.mpr (h.map geometryOf)

/-- Nor does the order of a disk's partitions. -/
theorem extents_sortByKey {κ : Type} [LinearOrder κ] (key : Partition → κ) (ps : List Partition) :
    (((sortByKey key ps).map extentOf : List (Nat × Nat)) : Multiset (Nat × Nat))
      = (ps.map extentOf : List (Nat × Nat)) :=
  Multiset.coe_eq_coe.mpr ((sortByKey_perm key ps).map extentOf)

/-! ## §2. Linux. -/

def deviceGeometry (d : Linux.BlockDevice) : Geometry :=
  { size := 512 * d.sectors.val
    sector := d.logical.toNat
    extents := (d.slices.map (fun s => (512 * s.start.val, 512 * s.sectors.val)) :
      List (Nat × Nat)) }

theorem geometryOf_device (mounts : List Sysfs.MountEntry) (d : Linux.BlockDevice) :
    geometryOf (d.disk mounts) = deviceGeometry d := by
  unfold geometryOf deviceGeometry Linux.BlockDevice.disk
  dsimp only
  rw [extents_sortByKey, Linux.Sectors.toNat_bytes, List.map_map]
  congr 2
  apply List.map_congr_left
  intro s _
  show (s.start.bytes.toNat, s.sectors.bytes.toNat) = _
  rw [Linux.Sectors.toNat_bytes, Linux.Sectors.toNat_bytes]

/-! ## §3. Windows. -/

def driveGeometry (d : Windows.Drive) : Geometry :=
  { size := d.size.toNat
    sector := d.sector.toNat
    -- the slots in use, with their lengths
    extents := (d.partitions.map (fun p => (p.startOffset.toNat, p.length.toNat)) :
      List (Nat × Nat)) }

/-- The drives that answer, by index. -/
def drivesOf (bays : Nat → Windows.Bay) : List Windows.Drive :=
  (List.range Windows.MAX_DRIVES).filterMap (fun n => (bays n).drive?)

theorem geometryOf_drive (n : Nat) (d : Windows.Drive) :
    geometryOf (d.disk n) = driveGeometry d := by
  unfold geometryOf driveGeometry Windows.Drive.disk
  dsimp only
  rw [extents_sortByKey, List.map_map]
  rfl

theorem map_geometryOf_disksOf (bays : Nat → Windows.Bay) :
    (Windows.disksOf bays).map geometryOf = (drivesOf bays).map driveGeometry := by
  unfold Windows.disksOf drivesOf
  rw [List.map_filterMap, List.map_filterMap]
  apply List.filterMap_congr
  intro n _
  rw [Option.map_map]
  congr 1
  funext d
  exact geometryOf_drive n d

/-! ## §4. macOS. -/

/-- The media named after a whole disk. -/
def slicesOf (m : Macos.Machine) (w : Macos.Medium) : List Macos.Medium :=
  m.media.filter (fun s => !s.whole && decide (Macos.SliceOf s.bsd w.bsd))

def mediumGeometry (m : Macos.Machine) (w : Macos.Medium) : Geometry :=
  { size := w.size.val
    sector := w.block.toNat
    extents := ((slicesOf m w).map (fun s => (s.base.val, s.size.val)) : List (Nat × Nat)) }

/-- The registry's names are of its own kind. -/
def Named (m : Macos.Machine) : Prop := Macos.WellNamed (m.media.map Macos.Medium.raw)

theorem toNat_bytes (n : Macos.Bytes) : (UInt64.ofNat n.val).toNat = n.val := by
  have hn := n.property
  rw [UInt64.toNat_ofNat']
  omega

theorem geometryOf_medium {m : Macos.Machine} (h : Named m) {w : Macos.Medium} (hw : w ∈ m.media)
    (hwhole : w.whole = true) :
    geometryOf (Macos.groupOf (m.media.map Macos.Medium.raw) w.raw) = mediumGeometry m w := by
  obtain ⟨n, _, hname⟩ := h.whole w.raw (List.mem_map_of_mem hw) hwhole
  have hwn : w.bsd = Macos.diskName n := hname
  have hextents : ((Macos.groupOf (m.media.map Macos.Medium.raw) w.raw).partitions.map extentOf :
      Multiset (Nat × Nat)) = ((slicesOf m w).map (fun s => (s.base.val, s.size.val)) :
        List (Nat × Nat)) := by
    rw [Macos.groupOf_partitions h hname, extents_sortByKey]
    unfold slicesOf
    rw [List.filter_map, List.map_map, List.map_map, hwn]
    congr 1
    apply List.map_congr_left
    intro s _
    show ((UInt64.ofNat s.base.val).toNat, (UInt64.ofNat s.size.val).toNat) = _
    rw [toNat_bytes, toNat_bytes]
  unfold geometryOf mediumGeometry
  rw [hextents]
  congr 1
  exact toNat_bytes w.size

theorem map_geometryOf_disks {m : Macos.Machine} (h : Named m) :
    m.disks.map geometryOf = (m.media.filter Macos.Medium.whole).map (mediumGeometry m) := by
  unfold Macos.Machine.disks
  rw [List.filter_map, List.map_map, List.map_map]
  apply List.map_congr_left
  intro w hw
  rw [List.mem_filter] at hw
  exact geometryOf_medium h hw.1 hw.2

/-! ## §5. The platforms. -/

/-- A machine on one of the platforms with a backend. -/
inductive Platform where
  | linux (m : Linux.Machine)
  | windows (bays : Nat → Windows.Bay) (h : Windows.Listable bays)
  | macos (m : Macos.Machine) (h : Named m)

/-- The hardware that is there. -/
def Platform.hardware : Platform → Multiset Geometry
  | .linux m => (m.devices.map deviceGeometry : List Geometry)
  | .windows bays _ => ((drivesOf bays).map driveGeometry : List Geometry)
  | .macos m _ => ((m.media.filter Macos.Medium.whole).map (mediumGeometry m) : List Geometry)

/-- **What `enumerate` can return** on a platform: from its files, or at the end of some run of
    its calls. -/
def Platform.Returns (api : ReadApi) : Platform → Except Error (List PhysicalDisk) → Prop
  | .linux m, r => r = Linux.enumerate m.host
  | .windows bays _, r => ∃ k, (Windows.Ffi.kernel (Windows.probeOf bays)).Reaches
      (Windows.Ffi.enumerate api) Windows.Ffi.Kernel.initial (.done r) k
  | .macos m _, r => ∃ spare k, (Macos.Ffi.kernel m.registry).Reaches
      (Macos.Ffi.enumerate (m.registry.entries.length + 1 + spare)) [] (.done (some r)) k

/-- Some result comes back. -/
theorem exists_returns (api : ReadApi) (p : Platform) : ∃ r, p.Returns api r := by
  cases p with
  | linux m => exact ⟨_, rfl⟩
  | windows bays h =>
      obtain ⟨r, k, hrun⟩ := exists_done (Windows.Ffi.kernel_responsive _)
        (Windows.Ffi.wp_enumerate api (Windows.probeOf bays))
      exact ⟨r, k, hrun⟩
  | macos m h =>
      have hwp := Macos.wp_registry h.distinct (Nat.lt_succ_self m.registry.entries.length)
      obtain ⟨r, k, hrun⟩ := exists_done (Macos.Ffi.kernel_responsive _) hwp
      -- with that much fuel the walk does not run out
      have hr := (wp_of_reaches hrun hwp).1
      rw [hr] at hrun
      exact ⟨_, 0, k, hrun⟩

/-- And whichever does is the hardware. -/
theorem hardware_of_returns {api : ReadApi} (hapi : api.Lawful) {p : Platform}
    {r : Except Error (List PhysicalDisk)} (h : p.Returns api r) : ∃ disks, r = .ok disks ∧ hardwareOf disks = p.hardware := by
  cases p with
  | linux m =>
      refine ⟨_, (show r = _ from h).trans (Linux.enumerate_host_eq m), ?_⟩
      rw [hardwareOf_perm (sortByKey_perm _ _)]
      unfold hardwareOf Platform.hardware
      rw [List.map_map]
      congr 1
      apply List.map_congr_left
      intro d _
      exact geometryOf_device m.mounts d
  | windows bays hlist =>
      obtain ⟨k, hrun⟩ := h
      have hr := (wp_of_reaches hrun (Windows.Ffi.wp_enumerate api (Windows.probeOf bays))).1
      refine ⟨_, (show r = _ from hr).trans (Windows.enumerate_probeOf hapi hlist), ?_⟩
      rw [hardwareOf_perm (sortByKey_perm _ _)]
      unfold hardwareOf Platform.hardware
      rw [map_geometryOf_disksOf]
  | macos m hnamed =>
      obtain ⟨spare, k, hrun⟩ := h
      have hwp := Macos.wp_registry hnamed.distinct
        (show m.registry.entries.length < m.registry.entries.length + 1 + spare by omega)
      have hr := (wp_of_reaches hrun hwp).1
      injection hr with hr
      refine ⟨_, hr, ?_⟩
      rw [hardwareOf_perm (sortByKey_perm _ _)]
      unfold hardwareOf Platform.hardware
      rw [map_geometryOf_disks hnamed]

/-- **ONE MODEL ACROSS THE PLATFORMS.**  Two machines with the same hardware, on whatever
    platforms: both enumerations succeed in every run, and list that hardware, byte for byte. -/
theorem returns_hardware (api : ReadApi) (hapi : api.Lawful) (p q : Platform)
    (h : p.hardware = q.hardware) :
    (∃ r, p.Returns api r) ∧ (∃ r, q.Returns api r)
      ∧ ∀ r r', p.Returns api r → q.Returns api r' → ∃ disks disks', r = .ok disks
        ∧ r' = .ok disks' ∧ hardwareOf disks = p.hardware ∧ hardwareOf disks' = hardwareOf disks := by
  refine ⟨exists_returns api p, exists_returns api q, ?_⟩
  intro r r' hr hr'
  obtain ⟨disks, hok, hhw⟩ := hardware_of_returns hapi hr
  obtain ⟨disks', hok', hhw'⟩ := hardware_of_returns hapi hr'
  exact ⟨disks, disks', hok, hok', hhw, by rw [hhw, hhw', h]⟩

theorem plain_of_all {s : String} (h : s.toList.all (fun c => !Sysfs.mangled c) = true) :
    ∀ c ∈ s.toList, Sysfs.mangled c = false := by
  intro c hc
  have hplain := List.all_eq_true.mp h c hc
  rw [Bool.not_eq_true'] at hplain
  exact hplain

/-- A stick of 4096 sectors with one slice, as Linux knows it. -/
def stickLinux : Linux.Machine :=
  { blocks := [.inl
      { name := "sda"
        sectors := ⟨4096, by decide⟩
        logical := 512
        physical := 4096
        removable := true
        readOnly := false
        model := none
        children := [.inl
          { suffix := "1"
            start := ⟨2048, by decide⟩
            sectors := ⟨1024, by decide⟩
            plain := plain_of_all (by decide) }]
        imaging := by decide
        plain := plain_of_all (by decide)
        logical_ne := fun h => absurd (congrArg UInt32.toNat h) (by decide)
        physical_ne := by decide }]
    mounts := []
    parseable := by
      intro e he
      exact absurd he List.not_mem_nil }

/-- `Macos.stick` is the same stick. -/
theorem stick_named : Named Macos.stick where
  whole := List.forall_mem_cons.mpr ⟨fun h => absurd h (by decide),
    List.forall_mem_singleton.mpr (fun _ => ⟨4, by decide, by decide⟩)⟩
  slice := List.forall_mem_cons.mpr ⟨fun _ => ⟨4, by decide⟩,
    List.forall_mem_singleton.mpr (fun h => absurd h (by decide))⟩
  distinct := by decide

theorem returns_hardware_stick : ∃ disks disks',
    hardwareOf disks = (Platform.linux stickLinux).hardware ∧ hardwareOf disks' = hardwareOf disks := by
  obtain ⟨⟨r, hr⟩, ⟨r', hr'⟩, hboth⟩ := returns_hardware referenceApi referenceApi_lawful
    (.linux stickLinux) (.macos Macos.stick stick_named) rfl
  obtain ⟨disks, disks', _, _, h, h'⟩ := hboth r r' hr hr'
  exact ⟨disks, disks', h, h'⟩

end LivediskForensic.Enumeration
