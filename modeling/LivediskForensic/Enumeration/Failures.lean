/-
  LivediskForensic.Enumeration.Failures — WHAT A FAILED QUERY COSTS.

  Every per-device query is data with an arbitrary outcome, so the two laws
  the enumeration is documented to keep become statements about all mixtures
  of failures, and each comes with the exact condition under which the code
  keeps it:

      everyDeviceListed_iff — best-effort completeness holds exactly when no
                              LISTING query fails: the layout control of an
                              open drive, the directory of a block device.
                              (All other queries may fail freely.)
      failsLoud_iff         — an empty Windows listing means an empty machine
                              exactly when some access was denied, some layout
                              was read, or nothing was there
-/
import LivediskForensic.Linux.Enumerate
import LivediskForensic.Linux.MountLookup
import LivediskForensic.Windows.Enumerate

namespace LivediskForensic.Enumeration

open LivediskForensic.Lib
open LivediskForensic.Linux (BlockEntry Host isVirtual Listable)
open LivediskForensic.Windows
open LivediskForensic.DriveLayout

/-! ## §1. Enumerations, and the devices in front of them. -/

/-- One enumeration, with all the answers of the operating system. -/
inductive Run where
  | windows (probe : Nat → OpenOutcome)
  /-- `/sys/block` could be listed; these are its entries. -/
  | linux (entries : List BlockEntry) (mounts : FileRead)

def Run.enumerate (api : ReadApi) : Run → Except Error (List PhysicalDisk)
  | .windows probe => Windows.enumerate api probe
  | .linux entries mounts =>
      Linux.enumerate { block := .ok (entries.map .ok), mounts := mounts }

/-- A device of that name is there: a drive that opened, a block device that is no ram disk. -/
def Run.Present : Run → String → Prop
  | .windows probe, name => ∃ n < MAX_DRIVES, ∃ handle, probe n = .opened handle ∧ driveName n = name
  | .linux entries _, name => ∃ e ∈ entries, isVirtual e.name = false ∧ e.name = name

/-- Best-effort completeness: every device that is there is listed. -/
def EveryDeviceListed (api : ReadApi) (run : Run) : Prop :=
  ∀ name, run.Present name →
    ∃ disks, run.enumerate api = .ok disks ∧ name ∈ disks.map PhysicalDisk.name

/-- The one query of each device that its place in the listing hangs on succeeded. -/
def ListingsReadable : Run → Prop
  | .windows probe =>
      ∀ n < MAX_DRIVES, ∀ handle, probe n = .opened handle → handle.layout.isSome = true
  | .linux entries _ => ∀ e ∈ entries, isVirtual e.name = false → Listable e.children

/-! ## §2. Windows. -/

section Windows

variable {api : ReadApi} {probe : Nat → OpenOutcome}

variable (api probe) in
/-- The name of a drive is found exactly when the drive opened and its layout was read. -/
theorem driveName_mem_found {n : Nat} (hn : n < MAX_DRIVES) :
    driveName n ∈ (found api probe).map PhysicalDisk.name
      ↔ ∃ handle, probe n = .opened handle ∧ handle.layout.isSome = true := by
  rw [List.mem_map]
  constructor
  · intro h
    obtain ⟨disk, hdisk, hname⟩ := h
    obtain ⟨m, _, hm⟩ := mem_found.mp hdisk
    obtain ⟨handle, buf, hp, hl, hd⟩ := diskAt_eq_some_iff.mp hm
    -- the name tells the index
    have hmn : m = n := by
      rw [hd] at hname
      exact driveName_injective hname
    subst hmn
    exact ⟨handle, hp, by rw [hl]; rfl⟩
  · intro h
    obtain ⟨handle, hp, hlayout⟩ := h
    obtain ⟨buf, hl⟩ := Option.isSome_iff_exists.mp hlayout
    exact ⟨_, mem_found.mpr ⟨n, hn, diskAt_eq_some_iff.mpr ⟨handle, buf, hp, hl, rfl⟩⟩, rfl⟩

/-- A found drive makes the enumeration succeed, and is in it. -/
theorem enumerate_of_mem_found {name : String}
    (h : name ∈ (found api probe).map PhysicalDisk.name) :
    ∃ disks, Windows.enumerate api probe = .ok disks ∧ name ∈ disks.map PhysicalDisk.name := by
  have hne : ¬ (found api probe = [] ∧ ∃ n < MAX_DRIVES, deniedAt probe n = true) := by
    intro hnil
    rw [hnil.1] at h
    exact absurd h (List.not_mem_nil)
  refine ⟨sortByKey PhysicalDisk.name (found api probe), ?_, ?_⟩
  · rw [enumerate_eq, if_neg hne]
  · rw [List.mem_map] at h ⊢
    simpa using h

/-- A listed name was found. -/
theorem mem_found_of_enumerate {name : String} {disks : List PhysicalDisk}
    (h : Windows.enumerate api probe = .ok disks) (hname : name ∈ disks.map PhysicalDisk.name) :
    name ∈ (found api probe).map PhysicalDisk.name := by
  rw [enumerate_eq] at h
  by_cases hc : found api probe = [] ∧ ∃ n < MAX_DRIVES, deniedAt probe n = true
  · rw [if_pos hc] at h
    exact absurd h (by simp)
  · rw [if_neg hc] at h
    injection h with h
    rw [← h, List.mem_map] at hname
    rw [List.mem_map]
    simpa using hname

end Windows

/-! ## §3. Linux. -/

/-- The names of a successful Linux enumeration. -/
theorem mem_names_linux {host : Host} {disks : List PhysicalDisk} {entries : List BlockEntry}
    (hblock : host.block = .ok (entries.map .ok)) (h : Linux.enumerate host = .ok disks)
    {name : String} :
    name ∈ disks.map PhysicalDisk.name ↔ ∃ e ∈ entries, isVirtual e.name = false ∧ e.name = name := by
  obtain ⟨raw, hraw, hdisks⟩ := Linux.enumerate_eq_ok_iff.mp h
  rw [hblock] at hraw
  have hnames := Linux.readEntries_names entries raw hraw
  have hmem : name ∈ disks.map PhysicalDisk.name ↔ name ∈ raw.map Sysfs.RawDisk.name := by
    rw [hdisks, List.mem_map, List.mem_map]
    simp only [Sysfs.mem_build]
    constructor
    · intro hd
      obtain ⟨d, ⟨r, hr, hrd⟩, hn⟩ := hd
      exact ⟨r, hr, by rw [← hn, ← hrd, Sysfs.buildDisk_name]⟩
    · intro hr
      obtain ⟨r, hr, hn⟩ := hr
      exact ⟨_, ⟨r, hr, rfl⟩, hn⟩
  rw [hmem, hnames, List.mem_filter, List.mem_map]
  constructor
  · intro hm
    obtain ⟨⟨e, he, hn⟩, hv⟩ := hm
    rw [Bool.not_eq_true'] at hv
    exact ⟨e, he, hn ▸ hv, hn⟩
  · intro hm
    obtain ⟨e, he, hv, hn⟩ := hm
    exact ⟨⟨e, he, hn⟩, by rw [← hn, hv]; rfl⟩

/-- The enumeration of a listed `/sys/block` succeeds exactly when every entry can be listed. -/
theorem enumerate_linux_isOk_iff {entries : List BlockEntry} {mounts : FileRead} :
    (∃ disks, Linux.enumerate { block := .ok (entries.map .ok), mounts := mounts } = .ok disks)
      ↔ ∀ e ∈ entries, isVirtual e.name = false → Listable e.children := by
  rw [← Linux.readEntries_isOk_iff]
  constructor
  · intro h
    obtain ⟨disks, h⟩ := h
    obtain ⟨raw, hraw, _⟩ := Linux.enumerate_eq_ok_iff.mp h
    exact ⟨raw, hraw⟩
  · intro h
    obtain ⟨raw, hraw⟩ := h
    exact ⟨_, Linux.enumerate_eq_ok_iff.mpr ⟨raw, hraw, rfl⟩⟩

/-! ## §4. Best-effort completeness. -/

/-- **WHEN EVERY DEVICE IS LISTED**: exactly when every listing query succeeded. -/
theorem everyDeviceListed_iff (api : ReadApi) (run : Run) :
    EveryDeviceListed api run ↔ ListingsReadable run := by
  cases run with
  | windows probe =>
      show (∀ name, (∃ n < MAX_DRIVES, ∃ handle, probe n = .opened handle ∧ driveName n = name) →
        ∃ disks, Windows.enumerate api probe = .ok disks ∧ name ∈ disks.map PhysicalDisk.name)
        ↔ ∀ n < MAX_DRIVES, ∀ handle, probe n = .opened handle → handle.layout.isSome = true
      constructor
      · intro h n hn handle hp
        obtain ⟨disks, hok, hmem⟩ := h (driveName n) ⟨n, hn, handle, hp, rfl⟩
        obtain ⟨handle', hp', hlayout⟩ :=
          (driveName_mem_found api probe hn).mp (mem_found_of_enumerate hok hmem)
        rw [hp] at hp'
        injection hp' with hp'
        exact hp' ▸ hlayout
      · intro h name hname
        obtain ⟨n, hn, handle, hp, hdrive⟩ := hname
        have hfound := (driveName_mem_found api probe hn).mpr ⟨handle, hp, h n hn handle hp⟩
        exact enumerate_of_mem_found (hdrive ▸ hfound)
  | linux entries mounts =>
      show (∀ name, (∃ e ∈ entries, isVirtual e.name = false ∧ e.name = name) → ∃ disks,
        Linux.enumerate { block := .ok (entries.map .ok), mounts := mounts } = .ok disks
          ∧ name ∈ disks.map PhysicalDisk.name)
        ↔ ∀ e ∈ entries, isVirtual e.name = false → Listable e.children
      constructor
      · -- the entry itself is a device that has to be listed
        intro h e he hv
        obtain ⟨disks, hok, _⟩ := h e.name ⟨e, he, hv, rfl⟩
        exact enumerate_linux_isOk_iff.mp ⟨disks, hok⟩ e he hv
      · intro h name hname
        obtain ⟨disks, hok⟩ := enumerate_linux_isOk_iff.mpr h
        exact ⟨disks, hok, (mem_names_linux rfl hok).mpr hname⟩

/-- A drive that opens but does not tell its layout, in slot 0 of an otherwise empty machine. -/
def muteDrive : Nat → OpenOutcome
  | 0 => .opened { length := none, geometry := none, layout := none }
  | _ => .failed ERROR_FILE_NOT_FOUND

/-- A block device with readable, empty attribute files. -/
def plainEntry (name : String) (children : Except IoError (List (Except IoError Linux.SubEntry))) :
    BlockEntry :=
  { name := name
    children := children
    size := .ok []
    removable := .ok []
    ro := .ok []
    logical := .ok []
    physical := .ok []
    model := .ok [] }

/-- One disk in order, and one that was unplugged while it was being listed. -/
def unplugged : List BlockEntry := [plainEntry "sda" (.ok []), plainEntry "sdb" (.error .notFound)]

/-- **Devices do go missing**: a drive without a layout is dropped, and one unlistable directory
takes every other disk with it. -/
theorem devices_lost :
    ¬ EveryDeviceListed referenceApi (.windows muteDrive)
      ∧ ¬ EveryDeviceListed referenceApi (.linux unplugged (.ok [])) := by
  constructor
  · intro h
    obtain ⟨disks, hok, hmem⟩ := h (driveName 0) ⟨0, by decide, _, rfl, rfl⟩
    have hempty : Windows.enumerate referenceApi muteDrive = .ok [] := rfl
    rw [show (Run.windows muteDrive).enumerate referenceApi
      = Windows.enumerate referenceApi muteDrive from rfl, hempty] at hok
    injection hok with hok
    rw [← hok] at hmem
    exact absurd hmem (List.not_mem_nil)
  · intro h
    obtain ⟨disks, hok, _⟩ := h "sda" ⟨plainEntry "sda" (.ok []), by simp [unplugged], by decide, rfl⟩
    have herr : (Run.linux unplugged (.ok [])).enumerate referenceApi = .error (.io .notFound) := rfl
    rw [herr] at hok
    exact absurd hok (by simp)

/-! ## §5. Failing loud. -/

/-- Nothing is there under that index. -/
def NotFound (answer : OpenOutcome) : Prop :=
  answer = .failed ERROR_FILE_NOT_FOUND ∨ answer = .failed ERROR_PATH_NOT_FOUND

/-- No index has anything. -/
def MachineEmpty (probe : Nat → OpenOutcome) : Prop := ∀ n < MAX_DRIVES, NotFound (probe n)

/-- An empty listing means an empty machine, and everything else that yields no disk an error. -/
def FailsLoud (api : ReadApi) (probe : Nat → OpenOutcome) : Prop :=
  (Windows.enumerate api probe = .ok [] → MachineEmpty probe)
    ∧ (¬ MachineEmpty probe →
      (∃ disks, Windows.enumerate api probe = .ok disks ∧ disks ≠ [])
        ∨ ∃ e, Windows.enumerate api probe = .error e)

/-- Nothing is found exactly when no layout could be read. -/
theorem found_eq_nil_iff (api : ReadApi) (probe : Nat → OpenOutcome) :
    found api probe = []
      ↔ ¬ ∃ n < MAX_DRIVES, ∃ handle, probe n = .opened handle ∧ handle.layout.isSome = true := by
  constructor
  · intro h hread
    obtain ⟨n, hn, hread⟩ := hread
    have hmem := (driveName_mem_found api probe hn).mpr hread
    rw [h] at hmem
    exact absurd hmem (List.not_mem_nil)
  · intro h
    rw [List.eq_nil_iff_forall_not_mem]
    intro disk hdisk
    obtain ⟨n, hn, hd⟩ := mem_found.mp hdisk
    obtain ⟨handle, buf, hp, hl, _⟩ := diskAt_eq_some_iff.mp hd
    exact h ⟨n, hn, handle, hp, by rw [hl]; rfl⟩

/-- The empty list comes back exactly when no layout was read and no access was denied. -/
theorem enumerate_eq_ok_nil_iff (api : ReadApi) (probe : Nat → OpenOutcome) :
    Windows.enumerate api probe = .ok []
      ↔ (¬ ∃ n < MAX_DRIVES, ∃ handle, probe n = .opened handle ∧ handle.layout.isSome = true)
        ∧ ¬ ∃ n < MAX_DRIVES, probe n = .failed ERROR_ACCESS_DENIED := by
  -- the flag of the loop, as a statement about the answers
  have hdenied : (∃ n < MAX_DRIVES, deniedAt probe n = true)
      ↔ ∃ n < MAX_DRIVES, probe n = .failed ERROR_ACCESS_DENIED := by
    simp only [deniedAt_eq_true_iff]
  rw [← found_eq_nil_iff api probe, ← hdenied, enumerate_eq]
  by_cases hnil : found api probe = []
  · by_cases hden : ∃ n < MAX_DRIVES, deniedAt probe n = true
    · rw [if_pos ⟨hnil, hden⟩]
      simp [hden]
    · rw [if_neg (fun h => hden h.2)]
      simp [hnil, hden]
  · rw [if_neg (fun h => hnil h.1)]
    simp [hnil]

/-- **WHEN THE BACKEND FAILS LOUD**: exactly when some access was denied, some open drive told its
layout, or there was nothing to be found. -/
theorem failsLoud_iff (api : ReadApi) (probe : Nat → OpenOutcome) :
    FailsLoud api probe
      ↔ (∃ n < MAX_DRIVES, probe n = .failed ERROR_ACCESS_DENIED)
        ∨ (∃ n < MAX_DRIVES, ∃ handle, probe n = .opened handle ∧ handle.layout.isSome = true)
        ∨ MachineEmpty probe := by
  have hnil := enumerate_eq_ok_nil_iff api probe
  constructor
  · intro h
    by_cases hden : ∃ n < MAX_DRIVES, probe n = .failed ERROR_ACCESS_DENIED
    · exact Or.inl hden
    · by_cases hread : ∃ n < MAX_DRIVES, ∃ handle, probe n = .opened handle ∧ handle.layout.isSome = true
      · exact Or.inr (Or.inl hread)
      · exact Or.inr (Or.inr (h.1 (hnil.mpr ⟨hread, hden⟩)))
  · intro h
    have hempty : Windows.enumerate api probe = .ok [] → MachineEmpty probe := by
      intro hok
      obtain ⟨hread, hden⟩ := hnil.mp hok
      rcases h with h | h | h
      · exact absurd h hden
      · exact absurd h hread
      · exact h
    refine ⟨hempty, ?_⟩
    intro hne
    cases hr : Windows.enumerate api probe with
    | error e => exact Or.inr ⟨e, rfl⟩
    | ok disks =>
        refine Or.inl ⟨disks, rfl, ?_⟩
        intro hd
        exact hne (hempty (hr.trans (by rw [hd])))

/-- A drive another program holds open exclusively, in an otherwise empty machine. -/
def heldDrive : Nat → OpenOutcome
  | 0 => .failed 32
  | _ => .failed ERROR_FILE_NOT_FOUND

/-- **A failure does pass for an empty machine**: a sharing violation, and a layout that cannot be
read. -/
theorem failure_hidden :
    (Windows.enumerate referenceApi heldDrive = .ok [] ∧ ¬ MachineEmpty heldDrive)
      ∧ (Windows.enumerate referenceApi muteDrive = .ok [] ∧ ¬ MachineEmpty muteDrive) := by
  refine ⟨⟨rfl, ?_⟩, ⟨rfl, ?_⟩⟩
  · intro h
    rcases h 0 (by decide) with h0 | h0
    · exact absurd h0 (by simp [heldDrive, ERROR_FILE_NOT_FOUND])
    · exact absurd h0 (by simp [heldDrive, ERROR_PATH_NOT_FOUND])
  · intro h
    rcases h 0 (by decide) with h0 | h0
    · exact absurd h0 (by simp [muteDrive])
    · exact absurd h0 (by simp [muteDrive])

end LivediskForensic.Enumeration
