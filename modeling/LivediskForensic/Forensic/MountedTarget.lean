/-
  LivediskForensic.Forensic.MountedTarget — THE TEXT OF THE MOUNT TABLE AGAINST
  THE FINDINGS, end to end: `/proc/mounts` → `build` → `analyse`.

  Only partitions carry a mount point in the unified model.  So a table line
  for a PARTITION of a disk always surfaces as LIVE-MOUNTED, while a line for
  the whole disk (a filesystem on an unpartitioned stick) surfaces only if
  some partition of the same disk is mounted as well.
-/
import LivediskForensic.Forensic.Analyse
import LivediskForensic.Linux.MountLookup

namespace LivediskForensic.Forensic

open LivediskForensic.Sysfs

/-- The table names the disk itself or something carved from it. -/
def DiskMounted (text : String) (d : PhysicalDisk) : Prop :=
  ∃ name ∈ d.name :: d.partitions.map Partition.name, NamesDevice text name

/-- Both entry points report LIVE-MOUNTED. -/
def ReportsMounted (api : ReportApi) (d : PhysicalDisk) : Prop :=
  "LIVE-MOUNTED" ∈ (analyse api d).map api.code
    ∧ "LIVE-MOUNTED" ∈ (analyseTarget api d).map api.code

/-- LIVE-MOUNTED sees the partitions' lines, and nothing else. -/
theorem reportsMounted_iff {api : ReportApi} (law : api.Lawful) {disks : List RawDisk}
    {text : String} {d : PhysicalDisk} (hd : d ∈ build disks text) :
    ReportsMounted api d ↔ ∃ p ∈ d.partitions, NamesDevice text p.name := by
  unfold ReportsMounted
  rw [liveMounted_mem_analyse law, liveMounted_mem_analyseTarget law, and_self]
  constructor
  · intro h
    obtain ⟨p, hp, hm⟩ := h
    exact ⟨p, hp, (mountPoint_isSome_iff hd hp).mp hm⟩
  · intro h
    obtain ⟨p, hp, hm⟩ := h
    exact ⟨p, hp, (mountPoint_isSome_iff hd hp).mpr hm⟩

/-- **WHEN A MOUNTED DEVICE IS REPORTED.**  A mount of the disk or of a partition reaches the
findings exactly when a line for the whole disk never stands without a line for one of its
partitions. -/
theorem mounted_reported_iff (api : ReportApi) (law : api.Lawful) (disks : List RawDisk)
    (text : String) (d : PhysicalDisk) (hd : d ∈ build disks text) :
    (DiskMounted text d → ReportsMounted api d)
      ↔ (NamesDevice text d.name → ∃ p ∈ d.partitions, NamesDevice text p.name) := by
  rw [reportsMounted_iff law hd]
  constructor
  · intro h hown
    exact h ⟨d.name, List.mem_cons_self, hown⟩
  · intro h hm
    obtain ⟨name, hname, hline⟩ := hm
    rcases List.mem_cons.mp hname with hown | hpart
    · exact h (hown ▸ hline)
    · obtain ⟨p, hp, hpn⟩ := List.mem_map.mp hpart
      exact ⟨p, hp, hpn ▸ hline⟩

/-- An unpartitioned, write-protected stick. -/
def bareStick : RawDisk :=
  { name := "sdb", size := "7831552", removable := "0", ro := "1", logical := "512",
    physical := "512", model := none, partitions := [] }

/-- A table with the stick's filesystem mounted. -/
def bareStickMounts : String := "/dev/sdb /media/evidence vfat rw 0 0\n"

theorem mounted_reported_iff_bareStick :
    ∃ d ∈ build [bareStick] bareStickMounts,
      (DiskMounted bareStickMounts d → ReportsMounted plainReport d)
        ↔ (NamesDevice bareStickMounts d.name → ∃ p ∈ d.partitions,
            NamesDevice bareStickMounts p.name) :=
  ⟨buildDisk (parseMounts bareStickMounts) bareStick,
    mem_build.mpr ⟨bareStick, List.mem_singleton.mpr rfl, rfl⟩,
    mounted_reported_iff plainReport plainReport_lawful [bareStick] bareStickMounts _
      (mem_build.mpr ⟨bareStick, List.mem_singleton.mpr rfl, rfl⟩)⟩

/-- **The missed case**: the stick is mounted, and its acquisition report is empty. -/
theorem bareStick_mount_missed :
    ∃ d ∈ build [bareStick] bareStickMounts,
      DiskMounted bareStickMounts d ∧ analyse plainReport d = []
        ∧ analyseTarget plainReport d = [] := by
  refine ⟨buildDisk (parseMounts bareStickMounts) bareStick,
    mem_build.mpr ⟨bareStick, List.mem_singleton.mpr rfl, rfl⟩, ?_, by decide, by decide⟩
  refine ⟨"sdb", List.mem_cons_self, bareStickMounts.toList.dropLast, by decide, ?_⟩
  exact ⟨"/media/evidence".toList, "vfat".toList, ["rw".toList, ['0'], ['0']], by decide⟩

end LivediskForensic.Forensic
