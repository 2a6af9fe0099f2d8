/-
  LivediskForensic.Windows.Enumerate — `core/src/windows.rs`: probing
  `\\.\PhysicalDrive0..63` with three I/O controls per open handle.

  What the kernel answers for an index is DATA: an error code of the open, or a
  handle with the outcome of each control.  `probe : Nat → OpenOutcome` is any
  assignment of answers, so a statement about every `probe` is about every
  mixture of failures.

      probeLoop_spec   — the loop keeps the disks it could read, in order of
                         index, and remembers a denied access
      enumerate_eq     — an error comes back exactly when no disk was read and
                         some access was denied
      diskAt_eq_some_iff — an index contributes a disk exactly when its handle
                         opened and its layout was read
-/
import LivediskForensic.Lib.StableSort
import LivediskForensic.Model.Disk
import LivediskForensic.Windows.DriveLayout

namespace LivediskForensic.Windows

open LivediskForensic.Lib
open LivediskForensic.DriveLayout

/-! ## §1. What the kernel answers. -/

/-- Upper bound on `\\.\PhysicalDriveN` indices to probe. -/
def MAX_DRIVES : Nat := 64

/-- Generous layout buffer — enough for a 128-entry GPT. -/
def LAYOUT_BUF : Nat := 32 * 1024

/-- `BytesPerSector` offset within `DISK_GEOMETRY_EX`. -/
def GEOMETRY_BYTES_PER_SECTOR : Nat := 20

def ERROR_FILE_NOT_FOUND : UInt32 := 2
def ERROR_PATH_NOT_FOUND : UInt32 := 3
def ERROR_ACCESS_DENIED : UInt32 := 5

/-- An open drive: the buffer each I/O control leaves behind, `none` where it fails. -/
structure Handle where
  /-- `IOCTL_DISK_GET_LENGTH_INFO`. -/
  length : Option (Vector UInt8 8)
  /-- `IOCTL_DISK_GET_DRIVE_GEOMETRY_EX`. -/
  geometry : Option (Vector UInt8 32)
  /-- `IOCTL_DISK_GET_DRIVE_LAYOUT_EX`. -/
  layout : Option (Vector UInt8 LAYOUT_BUF)

/-- What `CreateFileW` answers for one index. -/
inductive OpenOutcome where
  /-- An invalid handle, with `GetLastError`. -/
  | failed (code : UInt32)
  | opened (handle : Handle)

/-! ## §2. One drive. -/

/-- `PhysicalDrive{index}`. -/
def driveName (index : Nat) : String := "PhysicalDrive" ++ Nat.repr index

/-- `\\.\PhysicalDrive{index}`. -/
def drivePath (index : Nat) : String := "\\\\.\\PhysicalDrive" ++ Nat.repr index

/-- The drive's length, 0 when the query fails. -/
def sizeOf (length : Option (Vector UInt8 8)) : UInt64 :=
  match length with
  | some buf => nonNegative (UInt64.ofNat (leValue buf.toList)).toInt64
  | none => 0

/-- The sector size, 512 when the query fails or says 0. -/
def sectorOf (geometry : Option (Vector UInt8 32)) : UInt32 :=
  let sector :=
    match geometry with
    | some geo => UInt32.ofNat (leValue (slice geo.toList GEOMETRY_BYTES_PER_SECTOR 4))
    | none => 0
  if sector = 0 then 512 else sector

/-- A partition of the drive.  Its path is the DRIVE's. -/
def partitionOf (index : Nat) (p : ParsedPartition) : Partition :=
  { devicePath := drivePath index
    name := driveName index ++ "p" ++ Nat.repr p.number.toNat
    startOffset := p.startOffset
    sizeBytes := p.length
    partitionType := p.typeDesc
    mountPoint := none
    filesystem := none
    label := p.name }

/-- The disk of a drive whose layout was read. -/
def diskOf (index : Nat) (handle : Handle) (parsed : ParsedLayout) : PhysicalDisk :=
  { devicePath := drivePath index
    name := driveName index
    sizeBytes := sizeOf handle.length
    logicalSectorSize := sectorOf handle.geometry
    physicalSectorSize := sectorOf handle.geometry
    model := none
    serial := none
    removable := false
    readOnly := false
    synthesized := false
    partitions := sortByKey (fun p => p.startOffset.toNat)
      (parsed.partitions.map (partitionOf index)) }

/-- Query one open physical-drive handle: `none` when the layout cannot be read. -/
def readDisk (api : ReadApi) (handle : Handle) (index : Nat) : Option PhysicalDisk :=
  -- failures of the other two queries are defaulted inside `diskOf`
  match handle.layout with
  | some buf => some (diskOf index handle (parseDriveLayout api buf.toList))
  | none => none

/-! ## §3. The probe loop. -/

/-- The two variables of the loop. -/
structure ProbeState where
  disks : List PhysicalDisk
  accessDenied : Bool

/-- One round of the loop. -/
def probeStep (api : ReadApi) (st : ProbeState) (index : Nat) (answer : OpenOutcome) :
    ProbeState :=
  match answer with
  | .failed code =>
    -- no drive under this index
    if code = ERROR_FILE_NOT_FOUND ∨ code = ERROR_PATH_NOT_FOUND then st
    else if code = ERROR_ACCESS_DENIED then { st with accessDenied := true }
    -- the catch-all arm: any other error leaves no trace
    else st
  | .opened handle =>
    match readDisk api handle index with
    | some disk => { st with disks := st.disks ++ [disk] }
    -- nor does an open drive without a layout
    | none => st

/-- The loop over the given indices. -/
def probeLoop (api : ReadApi) (probe : Nat → OpenOutcome) (indices : List Nat) : ProbeState :=
  indices.foldl (fun st n => probeStep api st n (probe n)) { disks := [], accessDenied := false }

/-- **Enumerate the drives of a Windows host.** -/
def enumerate (api : ReadApi) (probe : Nat → OpenOutcome) : Except Error (List PhysicalDisk) :=
  let st := probeLoop api probe (List.range MAX_DRIVES)
  -- a denied access counts only when nothing at all was read
  if st.disks.isEmpty && st.accessDenied then
    .error (.os "access denied opening \\\\.\\PhysicalDrive* — run as Administrator")
  else .ok (sortByKey PhysicalDisk.name st.disks)

/-! ## §4. What the loop leaves behind. -/

/-- The disk an index contributes. -/
def diskAt (api : ReadApi) (probe : Nat → OpenOutcome) (index : Nat) : Option PhysicalDisk :=
  match probe index with
  | .failed _ => none
  | .opened handle => readDisk api handle index

/-- The access to an index was denied. -/
def deniedAt (probe : Nat → OpenOutcome) (index : Nat) : Bool :=
  match probe index with
  | .failed code => code == ERROR_ACCESS_DENIED
  | .opened _ => false

theorem diskAt_opened {api : ReadApi} {probe : Nat → OpenOutcome} {n : Nat} {handle : Handle}
    (h : probe n = .opened handle) : diskAt api probe n = readDisk api handle n := by
  unfold diskAt
  rw [h]

theorem diskAt_failed {api : ReadApi} {probe : Nat → OpenOutcome} {n : Nat} {code : UInt32}
    (h : probe n = .failed code) : diskAt api probe n = none := by
  unfold diskAt
  rw [h]

theorem deniedAt_eq_true_iff {probe : Nat → OpenOutcome} {n : Nat} :
    deniedAt probe n = true ↔ probe n = .failed ERROR_ACCESS_DENIED := by
  unfold deniedAt
  cases probe n with
  | failed code => simp
  | opened handle => simp

/-- One round adds what its index contributes. -/
theorem probeStep_spec (api : ReadApi) (probe : Nat → OpenOutcome) (st : ProbeState) (n : Nat) :
    probeStep api st n (probe n)
      = { disks := st.disks ++ (diskAt api probe n).toList
          accessDenied := st.accessDenied || deniedAt probe n } := by
  cases hp : probe n with
  | opened handle =>
      have hden : deniedAt probe n = false := by
        unfold deniedAt
        rw [hp]
      rw [diskAt_opened hp, hden, Bool.or_false]
      show (match readDisk api handle n with
        | some disk => { st with disks := st.disks ++ [disk] }
        | none => st) = _
      cases readDisk api handle n with
      | some disk => simp only [Option.toList_some]
      | none => simp only [Option.toList_none, List.append_nil]
  | failed code =>
      have hden : deniedAt probe n = (code == ERROR_ACCESS_DENIED) := by
        unfold deniedAt
        rw [hp]
      rw [diskAt_failed hp, hden, Option.toList_none, List.append_nil]
      show (if code = ERROR_FILE_NOT_FOUND ∨ code = ERROR_PATH_NOT_FOUND then st
        else if code = ERROR_ACCESS_DENIED then { st with accessDenied := true } else st) = _
      by_cases hacc : code = ERROR_ACCESS_DENIED
      -- the flag is raised: 5 is neither of the not-found codes
      · rw [hacc, if_neg (by decide), if_pos rfl]
        simp
      · -- every other code leaves the state alone
        have hbeq : (code == ERROR_ACCESS_DENIED) = false := by simp [hacc]
        rw [if_neg hacc, ite_self, hbeq, Bool.or_false]

/-- **The run of the loop**, from any state. -/
theorem foldl_probeStep (api : ReadApi) (probe : Nat → OpenOutcome) :
    ∀ (indices : List Nat) (st : ProbeState),
      indices.foldl (fun st n => probeStep api st n (probe n)) st
        = { disks := st.disks ++ indices.filterMap (diskAt api probe)
            accessDenied := st.accessDenied || indices.any (deniedAt probe) }
  | [], st => by simp
  | n :: indices, st => by
      rw [List.foldl_cons, probeStep_spec, foldl_probeStep api probe indices, List.filterMap_cons,
        List.any_cons]
      cases diskAt api probe n with
      | none => simp [Bool.or_assoc]
      | some disk => simp [Bool.or_assoc]

/-- The disks that could be read, in order of index. -/
def found (api : ReadApi) (probe : Nat → OpenOutcome) : List PhysicalDisk :=
  (List.range MAX_DRIVES).filterMap (diskAt api probe)

theorem probeLoop_spec (api : ReadApi) (probe : Nat → OpenOutcome) :
    probeLoop api probe (List.range MAX_DRIVES)
      = { disks := found api probe
          accessDenied := (List.range MAX_DRIVES).any (deniedAt probe) } := by
  unfold probeLoop found
  rw [foldl_probeStep, List.nil_append, Bool.false_or]

/-- **When an error comes back**: no disk was read, and some access was denied. -/
theorem enumerate_eq (api : ReadApi) (probe : Nat → OpenOutcome) :
    enumerate api probe
      = if found api probe = [] ∧ ∃ n < MAX_DRIVES, deniedAt probe n = true then
          .error (.os "access denied opening \\\\.\\PhysicalDrive* — run as Administrator")
        else .ok (sortByKey PhysicalDisk.name (found api probe)) := by
  unfold enumerate
  rw [probeLoop_spec]
  have hiff : ((found api probe).isEmpty && (List.range MAX_DRIVES).any (deniedAt probe)) = true
      ↔ found api probe = [] ∧ ∃ n < MAX_DRIVES, deniedAt probe n = true := by
    simp only [Bool.and_eq_true, List.isEmpty_iff, List.any_eq_true, List.mem_range]
  simp only [hiff]

/-! ## §5. The listed disks. -/

theorem driveName_injective {n m : Nat} (h : driveName n = driveName m) : n = m :=
  append_repr_injective "PhysicalDrive" h

theorem drivePath_injective {n m : Nat} (h : drivePath n = drivePath m) : n = m :=
  append_repr_injective "\\\\.\\PhysicalDrive" h

section Found

variable {api : ReadApi} {probe : Nat → OpenOutcome}

/-- **What an index contributes**: the disk of a handle whose layout was read. -/
theorem diskAt_eq_some_iff {n : Nat} {d : PhysicalDisk} :
    diskAt api probe n = some d
      ↔ ∃ handle buf, probe n = .opened handle ∧ handle.layout = some buf
        ∧ d = diskOf n handle (parseDriveLayout api buf.toList) := by
  constructor
  · intro h
    cases hp : probe n with
    | failed code =>
        rw [diskAt_failed hp] at h
        exact absurd h (by simp)
    | opened handle =>
        rw [diskAt_opened hp] at h
        unfold readDisk at h
        cases hl : handle.layout with
        | none =>
            rw [hl] at h
            exact absurd h (by simp)
        | some buf =>
            rw [hl] at h
            injection h with h
            exact ⟨handle, buf, rfl, hl, h.symm⟩
  · intro h
    obtain ⟨handle, buf, hp, hl, hd⟩ := h
    rw [diskAt_opened hp, hd]
    unfold readDisk
    rw [hl]

theorem mem_found {d : PhysicalDisk} :
    d ∈ found api probe ↔ ∃ n < MAX_DRIVES, diskAt api probe n = some d := by
  unfold found
  rw [List.mem_filterMap]
  simp only [List.mem_range]

/-- The listed disks are the found ones, in some order. -/
theorem enumerate_getD_perm :
    ((enumerate api probe).toOption.getD []).Perm (found api probe) := by
  rw [enumerate_eq]
  by_cases h : found api probe = [] ∧ ∃ n < MAX_DRIVES, deniedAt probe n = true
  · rw [if_pos h, h.1]
    exact List.Perm.refl _
  · rw [if_neg h]
    exact sortByKey_perm _ _

end Found

end LivediskForensic.Windows
