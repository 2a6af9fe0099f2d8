/-
  LivediskForensic.Enumeration.Reports — WHICH FINDINGS A PLATFORM CAN YIELD.

  The analyzer looks at one disk of the unified model, and its five conditions
  are independent.  The backends do not fill every field, though: no mounts and
  no second sector size come from macOS, and a Windows drive is always listed as
  fixed and writable.  From the images of the backends the possible reports can
  be read off exactly.

      reports_iff — the code lists a disk listed on a platform can be given
-/
import LivediskForensic.Forensic.Analyse
import LivediskForensic.Linux.ListingImage
import LivediskForensic.Macos.ListingImage
import LivediskForensic.Windows.ListingImage

namespace LivediskForensic.Enumeration

open LivediskForensic.Lib
open LivediskForensic.DriveLayout (ReadApi)
open LivediskForensic.Forensic

/-! ## §1. Platforms. -/

inductive Backend where
  | linux
  | macos
  | windows
  deriving Repr, DecidableEq

/-- Some run of the backend comes to that listing. -/
def Backend.Lists (api : ReadApi) (backend : Backend) (disks : List PhysicalDisk) : Prop :=
  match backend with
  | .linux => ∃ host, Linux.enumerate host = .ok disks
  | .macos => ∃ reg t, (Macos.Ffi.kernel reg).Reaches (Macos.Ffi.enumerate (reg.entries.length + 1))
      [] (.done (some (.ok disks))) t
  | .windows => ∃ probe t, (Windows.Ffi.kernel probe).Reaches (Windows.Ffi.enumerate api)
      Windows.Ffi.Kernel.initial (.done (.ok disks)) t

/-- The findings that come and go. -/
def Backend.varying (backend : Backend) : List String :=
  match backend with
  | .linux => ["LIVE-MOUNTED", "LIVE-REMOVABLE", "LIVE-SECTOR-4KN", "LIVE-SYNTHESIZED",
      "LIVE-WRITABLE"]
  | .macos => ["LIVE-REMOVABLE", "LIVE-SYNTHESIZED", "LIVE-WRITABLE"]
  | .windows => []

/-- The findings on every disk. -/
def Backend.constant (backend : Backend) : List String :=
  match backend with
  | .windows => ["LIVE-WRITABLE"]
  | _ => []

/-! ## §2. Code lists and flags. -/

/-- What `analyse_target` reports, as a function of five flags. -/
def codesOf (mounted removable sectors synthesized writable : Bool) : List String :=
  (if mounted then ["LIVE-MOUNTED"] else []) ++ (if removable then ["LIVE-REMOVABLE"] else [])
    ++ (if sectors then ["LIVE-SECTOR-4KN"] else [])
    ++ (if synthesized then ["LIVE-SYNTHESIZED"] else [])
    ++ (if writable then ["LIVE-WRITABLE"] else [])

theorem sublist_cons_iff_flag {a : String} {l as : List String} :
    l.Sublist (a :: as)
      ↔ ∃ flag : Bool, ∃ l', l'.Sublist as ∧ l = (if flag then [a] else []) ++ l' := by
  rw [List.sublist_cons_iff]
  constructor
  · intro h
    rcases h with h | ⟨l', rfl, h⟩
    · exact ⟨false, l, h, rfl⟩
    · exact ⟨true, l', h, rfl⟩
  · intro hflag
    obtain ⟨flag, l', h, rfl⟩ := hflag
    cases flag with
    | false => exact Or.inl h
    | true => exact Or.inr ⟨l', rfl, h⟩

theorem sublist_linux_iff (codes : List String) :
    codes.Sublist (Backend.varying .linux)
      ↔ ∃ mounted removable sectors synthesized writable : Bool,
        codes = codesOf mounted removable sectors synthesized writable := by
  unfold Backend.varying codesOf
  simp only [sublist_cons_iff_flag, List.sublist_nil]
  constructor
  · intro h
    obtain ⟨mounted, l₁, ⟨removable, l₂, ⟨sectors, l₃, ⟨synthesized, l₄, ⟨writable, l₅, rfl, rfl⟩,
      rfl⟩, rfl⟩, rfl⟩, rfl⟩ := h
    exact ⟨mounted, removable, sectors, synthesized, writable, by simp only [List.append_assoc,
      List.append_nil]⟩
  · intro hflags
    obtain ⟨mounted, removable, sectors, synthesized, writable, rfl⟩ := hflags
    exact ⟨mounted, _, ⟨removable, _, ⟨sectors, _, ⟨synthesized, _, ⟨writable, _, rfl, rfl⟩, rfl⟩, rfl⟩,
      rfl⟩, by simp only [List.append_assoc, List.append_nil]⟩

theorem sublist_macos_iff (codes : List String) :
    codes.Sublist (Backend.varying .macos)
      ↔ ∃ removable synthesized writable : Bool,
        codes = codesOf false removable false synthesized writable := by
  unfold Backend.varying codesOf
  simp only [sublist_cons_iff_flag, List.sublist_nil]
  constructor
  · intro hflags
    obtain ⟨removable, l₁, ⟨synthesized, l₂, ⟨writable, l₃, rfl, rfl⟩, rfl⟩, rfl⟩ := hflags
    exact ⟨removable, synthesized, writable, by simp⟩
  · intro hflags
    obtain ⟨removable, synthesized, writable, rfl⟩ := hflags
    exact ⟨removable, _, ⟨synthesized, _, ⟨writable, _, rfl, rfl⟩, rfl⟩, by simp⟩

/-- The report on any disk. -/
theorem codes_target {api : ReportApi} (law : api.Lawful) (d : PhysicalDisk) :
    (analyseTarget api d).map api.code
      = codesOf (decide (∃ p ∈ d.partitions, p.mountPoint.isSome = true)) d.removable
          (decide (d.logicalSectorSize > 0 ∧ d.physicalSectorSize ≠ d.logicalSectorSize))
          d.synthesized (!d.readOnly) := by
  have hwritable : (if d.readOnly then [] else ["LIVE-WRITABLE"])
      = if (!d.readOnly) = true then ["LIVE-WRITABLE"] else [] := by
    cases d.readOnly <;> rfl
  rw [codes_analyseTarget law, codes_analyse law, hwritable]
  unfold codesOf
  simp only [decide_eq_true_eq]

/-! ## §3. A disk for any report. -/

def linuxName (synthesized : Bool) : String := if synthesized then "dm-0" else "sda"

/-- A disk that `sysfs` can be read as, with these flags. -/
def linuxDisk (mounted removable sectors synthesized writable : Bool) : PhysicalDisk :=
  { devicePath := "/dev/" ++ linuxName synthesized
    name := linuxName synthesized
    sizeBytes := 1024
    logicalSectorSize := 512
    physicalSectorSize := if sectors then 4096 else 512
    model := none
    serial := none
    removable := removable
    readOnly := !writable
    synthesized := synthesized
    partitions :=
      [{ devicePath := "/dev/" ++ (linuxName synthesized ++ "1")
         name := linuxName synthesized ++ "1"
         startOffset := 512
         sizeBytes := 512
         partitionType := none
         mountPoint := if mounted then some "/" else none
         filesystem := if mounted then some "ext4" else none
         label := none }] }

/-- A disk that `IOKit` can publish, with these flags. -/
def macosDisk (removable synthesized writable : Bool) : PhysicalDisk :=
  { devicePath := "/dev/disk0"
    name := "disk0"
    sizeBytes := 1024
    logicalSectorSize := 512
    physicalSectorSize := 512
    model := none
    serial := none
    removable := removable
    readOnly := !writable
    synthesized := synthesized
    partitions := [] }

/-- A drive without partitions. -/
def windowsDisk : PhysicalDisk :=
  { devicePath := Windows.drivePath 0
    name := Windows.driveName 0
    sizeBytes := 1024
    logicalSectorSize := 512
    physicalSectorSize := 512
    model := none
    serial := none
    removable := false
    readOnly := false
    synthesized := false
    partitions := [] }

theorem linuxName_spec (synthesized : Bool) :
    Linux.isVirtual (linuxName synthesized) = false
      ∧ synthesized = "dm-".toList.isPrefixOf (linuxName synthesized).toList
      ∧ (linuxName synthesized ++ "1").toList.all (fun c => !isWhiteSpace c) = true := by
  cases synthesized <;> decide

theorem mountable_linuxDisk (mounted synthesized : Bool) :
    Linux.Mountable (linuxName synthesized ++ "1") (if mounted then some "/" else none)
      (if mounted then some "ext4" else none) := by
  cases mounted with
  | false => exact Or.inl ⟨rfl, rfl⟩
  | true =>
      have hmount : Sysfs.Unspaced "/" := Sysfs.unspaced_of_all (by decide)
      have hfs : Sysfs.Unspaced "ext4" := Sysfs.unspaced_of_all (by decide)
      have hmount_ne : "/" ≠ "" := by decide
      have hfs_ne : "ext4" ≠ "" := by decide
      refine Or.inr ⟨"/", "ext4", rfl, rfl, ?_, hmount_ne, ?_, hfs_ne, hfs⟩
      · exact Sysfs.unspaced_of_all (linuxName_spec synthesized).2.2
      · intro c hc hspace
        rw [hmount c hc] at hspace
        exact absurd hspace Bool.false_ne_true

theorem returnable_linuxDisk (mounted removable sectors synthesized writable : Bool) :
    Linux.Returnable [linuxDisk mounted removable sectors synthesized writable] := by
  obtain ⟨himaging, hsynthesized, _⟩ := linuxName_spec synthesized
  have hsize : 512 ∣ (1024 : UInt64).toNat := by decide
  have hsector : 512 ∣ (512 : UInt64).toNat := by decide
  have hlogical : (512 : UInt32) ≠ 0 := by decide
  have hphysical : (if sectors then (4096 : UInt32) else 512) ≠ 0 := by
    cases sectors <;> decide
  refine ⟨?_, List.pairwise_singleton _ _, ?_⟩
  · intro d hd
    rw [List.mem_singleton] at hd
    subst hd
    refine ⟨himaging, rfl, hsize, hlogical, hphysical, ?_, rfl, hsynthesized, ?_,
      List.pairwise_singleton _ _⟩
    · intro m hm
      exact absurd hm (Option.not_mem_none m)
    · intro p hp
      rw [show (linuxDisk mounted removable sectors synthesized writable).partitions = [_] from rfl,
        List.mem_singleton] at hp
      subst hp
      refine ⟨rfl, ?_, hsector, hsector, rfl, mountable_linuxDisk mounted synthesized, rfl⟩
      show (linuxName synthesized).toList <+: (linuxName synthesized ++ "1").toList
      rw [String.toList_append]
      exact List.prefix_append _ _
  · intro p hp q hq _
    -- there is one partition only
    have hone : Linux.partitionsOf [linuxDisk mounted removable sectors synthesized writable]
        = [_] := rfl
    rw [hone, List.mem_singleton] at hp hq
    rw [hp, hq]
    exact ⟨rfl, rfl⟩

theorem returnable_macosDisk (removable synthesized writable : Bool) :
    Macos.Returnable [macosDisk removable synthesized writable] := by
  have hpath : "/dev/disk0" = "/dev/" ++ "disk0" := by decide
  have hsize : (1024 : UInt64).toNat < 2 ^ 63 := by decide
  refine ⟨?_, List.pairwise_singleton _ _, List.pairwise_singleton _ _⟩
  intro d hd
  rw [List.mem_singleton] at hd
  subst hd
  exact ⟨hpath, hsize, rfl, rfl, rfl, fun p hp => absurd hp List.not_mem_nil,
    List.Pairwise.nil⟩

theorem returnable_windowsDisk : Windows.Returnable [windowsDisk] := by
  have hindex : 0 < Windows.MAX_DRIVES := by decide
  have hsize : (1024 : UInt64).toNat < 2 ^ 63 := by decide
  have hlogical : (512 : UInt32) ≠ 0 := by decide
  refine ⟨?_, List.pairwise_singleton _ _⟩
  intro d hd
  rw [List.mem_singleton] at hd
  subst hd
  exact ⟨0, hindex, rfl, rfl, hsize, hlogical, rfl, rfl, rfl, rfl, rfl, rfl,
    ⟨0, fun p hp => absurd hp List.not_mem_nil⟩, Nat.zero_le _, List.Pairwise.nil⟩

/-! ## §4. The reports. -/

/-- Without a mount and a second sector size there are three flags. -/
theorem codes_target_unmounted {api : ReportApi} (law : api.Lawful) {d : PhysicalDisk}
    (hmount : ∀ p ∈ d.partitions, p.mountPoint = none)
    (hphysical : d.physicalSectorSize = d.logicalSectorSize) :
    (analyseTarget api d).map api.code
      = codesOf false d.removable false d.synthesized (!d.readOnly) := by
  have hnone : ¬ ∃ p ∈ d.partitions, p.mountPoint.isSome = true := by
    intro hsome
    obtain ⟨p, hp, hsome⟩ := hsome
    rw [hmount p hp] at hsome
    exact absurd hsome (by simp)
  rw [codes_target law, decide_eq_false hnone, decide_eq_false (fun h => h.2 hphysical)]

theorem codes_linuxDisk {api : ReportApi} (law : api.Lawful)
    (mounted removable sectors synthesized writable : Bool) :
    (analyseTarget api (linuxDisk mounted removable sectors synthesized writable)).map api.code
      = codesOf mounted removable sectors synthesized writable := by
  have hmounted : decide (∃ p ∈ (linuxDisk mounted removable sectors synthesized writable).partitions,
      p.mountPoint.isSome = true) = mounted := by
    unfold linuxDisk
    cases mounted <;> simp
  have hsectors : decide ((512 : UInt32) > 0 ∧ (if sectors then (4096 : UInt32) else 512) ≠ 512)
      = sectors := by
    cases sectors <;> decide
  rw [codes_target law, hmounted]
  show codesOf mounted removable (decide _) synthesized (!(!writable)) = _
  rw [Bool.not_not]
  exact congrArg (fun flag => codesOf mounted removable flag synthesized writable) hsectors

section Backends

variable (readApi : ReadApi) {api : ReportApi} (law : api.Lawful) (codes : List String)
include law

theorem reports_linux_iff :
    (∃ disks, Backend.linux.Lists readApi disks
        ∧ ∃ d ∈ disks, (analyseTarget api d).map api.code = codes)
      ↔ ∃ varying, varying.Sublist Backend.linux.varying
        ∧ codes = varying ++ Backend.linux.constant := by
  constructor
  · intro h
    obtain ⟨disks, _, d, _, rfl⟩ := h
    exact ⟨_, (sublist_linux_iff _).mpr ⟨_, _, _, _, _, codes_target law d⟩,
      (List.append_nil _).symm⟩
  · intro h
    obtain ⟨varying, hsub, rfl⟩ := h
    obtain ⟨mounted, removable, sectors, synthesized, writable, rfl⟩ :=
      (sublist_linux_iff varying).mp hsub
    refine ⟨_, ⟨_, Linux.enumerate_filesOf
      (returnable_linuxDisk mounted removable sectors synthesized writable)⟩, _,
      List.mem_singleton_self _, ?_⟩
    exact (codes_linuxDisk law _ _ _ _ _).trans (List.append_nil _).symm

theorem reports_macos_iff :
    (∃ disks, Backend.macos.Lists readApi disks
        ∧ ∃ d ∈ disks, (analyseTarget api d).map api.code = codes)
      ↔ ∃ varying, varying.Sublist Backend.macos.varying
        ∧ codes = varying ++ Backend.macos.constant := by
  constructor
  · intro h
    obtain ⟨disks, ⟨reg, t, hrun⟩, d, hd, rfl⟩ := h
    have hform := (Macos.returnable_of_reaches hrun).disk d hd
    refine ⟨_, (sublist_macos_iff _).mpr ⟨_, _, _, codes_target_unmounted law ?_ hform.physical⟩,
      (List.append_nil _).symm⟩
    intro p hp
    exact (hform.partitions p hp).no_mount
  · intro h
    obtain ⟨varying, hsub, rfl⟩ := h
    obtain ⟨removable, synthesized, writable, rfl⟩ := (sublist_macos_iff varying).mp hsub
    refine ⟨_, Macos.exists_reaches (returnable_macosDisk removable synthesized writable), _,
      List.mem_singleton_self _, ?_⟩
    rw [codes_target_unmounted law (fun p hp => absurd hp List.not_mem_nil) rfl]
    show codesOf false removable false synthesized (!(!writable)) = _
    rw [Bool.not_not]
    exact (List.append_nil _).symm

theorem reports_windows_iff (hread : readApi.Lawful) :
    (∃ disks, Backend.windows.Lists readApi disks
        ∧ ∃ d ∈ disks, (analyseTarget api d).map api.code = codes)
      ↔ ∃ varying, varying.Sublist Backend.windows.varying
        ∧ codes = varying ++ Backend.windows.constant := by
  constructor
  · intro h
    obtain ⟨disks, ⟨probe, t, hrun⟩, d, hd, rfl⟩ := h
    obtain ⟨n, _, hform⟩ := (Windows.returnable_of_reaches hread hrun).drive d hd
    obtain ⟨style, hparts⟩ := hform.partitions
    refine ⟨[], List.nil_sublist _, ?_⟩
    rw [codes_target_unmounted law (fun p hp => (hparts p hp).no_mount) hform.physical,
      hform.fixed, hform.store, hform.writable]
    rfl
  · intro h
    obtain ⟨varying, hsub, rfl⟩ := h
    have hnil : varying = [] := List.sublist_nil.mp hsub
    subst hnil
    refine ⟨_, Windows.exists_reaches hread returnable_windowsDisk, _,
      List.mem_singleton_self _, ?_⟩
    rw [codes_target_unmounted law (fun p hp => absurd hp List.not_mem_nil) rfl]
    rfl

end Backends

/-- **WHICH REPORTS A PLATFORM CAN YIELD.**  On Linux any of the five findings without or with any
other, on macOS any of three, on Windows always the same. -/
theorem reports_iff (readApi : ReadApi) (hread : readApi.Lawful) (api : ReportApi)
    (law : api.Lawful) (backend : Backend) (codes : List String) :
    (∃ disks, backend.Lists readApi disks
        ∧ ∃ d ∈ disks, (analyseTarget api d).map api.code = codes)
      ↔ ∃ varying, varying.Sublist backend.varying ∧ codes = varying ++ backend.constant := by
  cases backend with
  | linux => exact reports_linux_iff readApi law codes
  | macos => exact reports_macos_iff readApi law codes
  | windows => exact reports_windows_iff readApi law codes hread

/-- Everything at once, on Linux. -/
theorem reports_iff_linux :
    (∃ disks, Backend.linux.Lists DriveLayout.referenceApi disks
        ∧ ∃ d ∈ disks, (analyseTarget plainReport d).map plainReport.code
          = Backend.linux.varying)
      ↔ ∃ varying, varying.Sublist Backend.linux.varying
        ∧ Backend.linux.varying = varying ++ Backend.linux.constant :=
  reports_iff DriveLayout.referenceApi DriveLayout.referenceApi_lawful plainReport plainReport_lawful
    .linux _

end LivediskForensic.Enumeration
