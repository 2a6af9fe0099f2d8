/-
  LivediskForensic.Windows.Ffi — `core/src/windows.rs` call by call: the probe
  loop as the program that opens, queries and closes each drive, run against
  the Win32 kernel.

  `enumerate` (in `Windows.Enumerate`) is what the loop computes when the
  kernel's answers are DATA.  Here the loop makes the calls, and the kernel is
  an environment: it hands out whatever handle value it likes for a drive it
  can open, fills a buffer or leaves anything in it, and accepts a call on a
  handle only while the handle is open.

      enumerate_meets — every run makes accepted calls only, closes every handle
                        it opened, and returns `enumerate` of the machine
-/
import LivediskForensic.Lib.Interaction
import LivediskForensic.Lib.Utf16
import LivediskForensic.Windows.Enumerate

namespace LivediskForensic.Windows.Ffi

open LivediskForensic.Lib
open LivediskForensic.DriveLayout

/-! ## §1. The calls. -/

abbrev HANDLE := UInt64

/-- `INVALID_HANDLE_VALUE`, that is −1. -/
def INVALID_HANDLE_VALUE : HANDLE := 0xFFFFFFFFFFFFFFFF

/-- A NUL-terminated UTF-16 copy of `s` for the `*W` Win32 APIs. -/
def wide (s : String) : List UInt16 := encodeUtf16 s.toList ++ [0]

/-- The I/O controls the backend issues. -/
inductive Control where
  /-- `IOCTL_DISK_GET_LENGTH_INFO`. -/
  | lengthInfo
  /-- `IOCTL_DISK_GET_DRIVE_GEOMETRY_EX`. -/
  | driveGeometryEx
  /-- `IOCTL_DISK_GET_DRIVE_LAYOUT_EX`. -/
  | driveLayoutEx
  deriving Repr, DecidableEq

/-- The size of the buffer passed along. -/
@[reducible] def Control.len : Control → Nat
  | .lengthInfo => 8
  | .driveGeometryEx => 32
  | .driveLayoutEx => LAYOUT_BUF

/-- The foreign functions.  The arguments that never vary are left out. -/
inductive Call where
  | createFileW (path : List UInt16)
  | getLastError
  | deviceIoControl (handle : HANDLE) (code : Control)
  | closeHandle (handle : HANDLE)

/-- What each returns; an I/O control its `BOOL`, `returned`, and the buffer as it left it. -/
@[reducible] def Answer : Call → Type
  | .createFileW _ => HANDLE
  | .getLastError => UInt32
  | .deviceIoControl _ code => Int32 × UInt32 × Vector UInt8 code.len
  | .closeHandle _ => Int32

/-! ## §2. The program. -/

/-- Issue a no-input `DeviceIoControl`: the bytes written on success, and the buffer. -/
def ioctl (handle : HANDLE) (code : Control) :
    Prog Call Answer (Option UInt32 × Vector UInt8 code.len) := do
  let answer : Int32 × UInt32 × Vector UInt8 code.len ←
    request (Call.deviceIoControl handle code)
  -- the buffer is the caller's, whatever the outcome
  return (if answer.1 ≠ 0 then some answer.2.1 else none, answer.2.2)

/-- Query one open physical-drive handle. -/
def readDisk (api : ReadApi) (handle : HANDLE) (index : Nat) :
    Prog Call Answer (Option PhysicalDisk) := do
  let length ← ioctl handle .lengthInfo
  let sizeBytes : UInt64 :=
    if length.1.isSome then nonNegative (UInt64.ofNat (leValue length.2.toList)).toInt64 else 0
  let geo ← ioctl handle .driveGeometryEx
  let sector : UInt32 :=
    if geo.1.isSome then UInt32.ofNat (leValue (slice geo.2.toList GEOMETRY_BYTES_PER_SECTOR 4))
    else 0
  let sector : UInt32 := if sector = 0 then 512 else sector
  let layout ← ioctl handle .driveLayoutEx
  match layout.1 with
  | none => return none
  | some _ =>
    let parsed := parseDriveLayout api layout.2.toList
    let name := "PhysicalDrive" ++ Nat.repr index
    let devicePath := "\\\\.\\PhysicalDrive" ++ Nat.repr index
    let partitions := parsed.partitions.map (fun p =>
      ({ devicePath := devicePath
         name := name ++ "p" ++ Nat.repr p.number.toNat
         startOffset := p.startOffset
         sizeBytes := p.length
         partitionType := p.typeDesc
         mountPoint := none
         filesystem := none
         label := p.name } : Partition))
    return some
      { devicePath := devicePath
        name := name
        sizeBytes := sizeBytes
        logicalSectorSize := sector
        physicalSectorSize := sector
        model := none
        serial := none
        removable := false
        readOnly := false
        synthesized := false
        partitions := sortByKey (fun p => p.startOffset.toNat) partitions }

/-- One round of the loop: the drive under an index. -/
def probeDrive (api : ReadApi) (st : ProbeState) (n : Nat) : Prog Call Answer ProbeState := do
  let path := wide ("\\\\.\\PhysicalDrive" ++ Nat.repr n)
  let handle ← request (.createFileW path)
  if handle = INVALID_HANDLE_VALUE then
    let code ← request .getLastError
    return if code = ERROR_FILE_NOT_FOUND ∨ code = ERROR_PATH_NOT_FOUND then st
      else if code = ERROR_ACCESS_DENIED then { st with accessDenied := true }
      else st
  else
    let disk ← readDisk api handle n
    let st := match disk with
      | some disk => { st with disks := st.disks ++ [disk] }
      | none => st
    let _ ← request (.closeHandle handle)
    return st

/-- **`enumerate`**, with its calls. -/
def enumerate (api : ReadApi) : Prog Call Answer (Except Error (List PhysicalDisk)) := do
  let st ← (List.range MAX_DRIVES).foldlM (probeDrive api) { disks := [], accessDenied := false }
  return if st.disks.isEmpty && st.accessDenied then
      .error (.os "access denied opening \\\\.\\PhysicalDrive* — run as Administrator")
    else .ok (sortByKey PhysicalDisk.name st.disks)

/-! ## §3. The kernel. -/

/-- The buffer of an open drive under a control, `none` where the control fails. -/
def reply (drive : Handle) : (code : Control) → Option (Vector UInt8 code.len)
  | .lengthInfo => drive.length
  | .driveGeometryEx => drive.geometry
  | .driveLayoutEx => drive.layout

/-- What the kernel knows of the process. -/
structure Kernel where
  /-- The open handles, each with its drive. -/
  opened : List (HANDLE × Handle)
  /-- The error of the call just made, if it failed to open. -/
  lastError : Option UInt32

/-- Before the first call. -/
def Kernel.initial : Kernel := { opened := [], lastError := none }

/-- A text for a `*W` function: one NUL, at its end. -/
def NulTerminated (path : List UInt16) : Prop := ∃ body, path = body ++ [0] ∧ (0 : UInt16) ∉ body

/-- **What each call requires.** -/
def Accepts (k : Kernel) : Call → Prop
  -- one drive at a time
  | .createFileW path => NulTerminated path ∧ k.opened = []
  -- any other call in between would have overwritten the code
  | .getLastError => ∃ code, k.lastError = some code
  | .deviceIoControl handle _ => ∃ drive, (handle, drive) ∈ k.opened
  | .closeHandle handle => ∃ drive, (handle, drive) ∈ k.opened

/-- **How a machine's kernel answers.**  `probe` says what becomes of opening each drive. -/
inductive Answers (probe : Nat → OpenOutcome) :
    Kernel → (c : Call) → Answer c → Kernel → Prop where
  /-- No drive has that path. -/
  | absent {k : Kernel} {path : List UInt16} {code : UInt32}
      (h : ∀ n, path ≠ wide (drivePath n)) :
      Answers probe k (.createFileW path) INVALID_HANDLE_VALUE { k with lastError := some code }
  | refused {k : Kernel} {n : Nat} {code : UInt32} (h : probe n = .failed code) :
      Answers probe k (.createFileW (wide (drivePath n))) INVALID_HANDLE_VALUE
        { k with lastError := some code }
  /-- Any handle value that is not in use. -/
  | opened {k : Kernel} {n : Nat} {drive : Handle} {handle : HANDLE}
      (h : probe n = .opened drive) (hvalid : handle ≠ INVALID_HANDLE_VALUE)
      (hfresh : Fresh k.opened handle) :
      Answers probe k (.createFileW (wide (drivePath n))) handle
        { opened := (handle, drive) :: k.opened, lastError := none }
  | lastError {k : Kernel} {code : UInt32} (h : k.lastError = some code) :
      Answers probe k .getLastError code k
  /-- The control succeeds, with any value but 0. -/
  | filled {k : Kernel} {handle : HANDLE} {drive : Handle} {code : Control} {ok : Int32}
      {returned : UInt32} {buf : Vector UInt8 code.len} (h : (handle, drive) ∈ k.opened)
      (hreply : reply drive code = some buf) (hok : ok ≠ 0) :
      Answers probe k (.deviceIoControl handle code) (ok, returned, buf)
        { k with lastError := none }
  /-- The control fails, and the buffer holds anything. -/
  | unanswered {k : Kernel} {handle : HANDLE} {drive : Handle} {code : Control}
      {returned : UInt32} {buf : Vector UInt8 code.len} (h : (handle, drive) ∈ k.opened)
      (hreply : reply drive code = none) :
      Answers probe k (.deviceIoControl handle code) (0, returned, buf)
        { k with lastError := none }
  | closed {k : Kernel} {handle : HANDLE} {ok : Int32} :
      Answers probe k (.closeHandle handle) ok
        { opened := release k.opened handle, lastError := none }

/-- The kernel of a machine. -/
@[reducible] def kernel (probe : Nat → OpenOutcome) : Environment Call Answer :=
  { State := Kernel, Accepts := Accepts, Answers := Answers probe }

/-! ## §4. The paths. -/

theorem wide_injective {s t : String} (h : wide s = wide t) : s = t := by
  unfold wide at h
  have hencoded : encodeUtf16 s.toList = encodeUtf16 t.toList := List.append_cancel_right h
  -- well-formed UTF-16 decodes
  have hdecoded := congrArg decodeUtf16Lossy hencoded
  rw [decodeUtf16Lossy_encodeUtf16, decodeUtf16Lossy_encodeUtf16] at hdecoded
  exact String.toList_inj.mp hdecoded

theorem wide_drivePath_injective {n m : Nat} (h : wide (drivePath n) = wide (drivePath m)) :
    n = m :=
  drivePath_injective (wide_injective h)

/-- A drive's path holds no NUL, so the one at the end ends it. -/
theorem nulTerminated_wide_drivePath (n : Nat) : NulTerminated (wide (drivePath n)) := by
  refine ⟨encodeUtf16 (drivePath n).toList, rfl, ?_⟩
  apply zero_not_mem_encodeUtf16
  intro hmem
  unfold drivePath at hmem
  rw [String.toList_append, List.mem_append] at hmem
  cases hmem with
  | inl hstem => exact absurd hstem (by decide)
  | inr hdigits =>
      have hrepr : (Nat.repr n).toList = Nat.toDigits 10 n := String.toList_ofList
      rw [hrepr] at hdigits
      have hdigit := List.all_eq_true.mp (toDigits_isDigit n) _ hdigits
      exact absurd hdigit (by decide)

/-! ## §5. One call at a time. -/

variable {api : ReadApi} {probe : Nat → OpenOutcome}

/-- **Opening a drive** does what the machine says of it. -/
theorem answers_createFileW {k k' : Kernel} {n : Nat} {handle : HANDLE}
    (h : Answers probe k (.createFileW (wide (drivePath n))) handle k') :
    (∃ code, probe n = .failed code ∧ handle = INVALID_HANDLE_VALUE
        ∧ k' = { k with lastError := some code })
    ∨ ∃ drive, probe n = .opened drive ∧ handle ≠ INVALID_HANDLE_VALUE
        ∧ k' = { opened := (handle, drive) :: k.opened, lastError := none } := by
  -- the kernel resolves a path, which only one drive has
  generalize hpath : wide (drivePath n) = path at h
  cases h with
  | absent hnone => exact absurd hpath.symm (hnone n)
  | refused hp =>
      rw [wide_drivePath_injective hpath]
      exact .inl ⟨_, hp, rfl, rfl⟩
  | opened hp hvalid _ =>
      rw [wide_drivePath_injective hpath]
      exact .inr ⟨_, hp, hvalid, rfl⟩

/-- **One control** on an open handle: the drive's buffer or a failure, and nothing is opened or
    closed. -/
theorem wp_ioctl {k : Kernel} {handle : HANDLE} {drive : Handle} (code : Control)
    (h : Holds k.opened handle drive) :
    (kernel probe).wp (ioctl handle code) (fun r t => t.opened = k.opened
      ∧ ((∃ returned buf, reply drive code = some buf ∧ r = (some returned, buf))
        ∨ ∃ buf, reply drive code = none ∧ r = (none, buf))) k := by
  unfold ioctl
  rw [wp_bind, wp_request]
  refine ⟨⟨drive, h.mem⟩, ?_⟩
  intro answer k' hans
  cases hans with
  | @filled _ drive' _ ok returned buf hmem hreply hok =>
      rw [h.only drive' hmem] at hreply
      rw [wp_pure, if_pos hok]
      exact ⟨rfl, .inl ⟨returned, buf, hreply, rfl⟩⟩
  | @unanswered _ drive' _ returned buf hmem hreply =>
      rw [h.only drive' hmem] at hreply
      rw [wp_pure, if_neg (by simp)]
      exact ⟨rfl, .inr ⟨buf, hreply, rfl⟩⟩

/-- **One drive**: three controls, and the disk the drive's buffers describe. -/
theorem wp_readDisk {k : Kernel} {handle : HANDLE} {drive : Handle} (n : Nat)
    (h : Holds k.opened handle drive) :
    (kernel probe).wp (readDisk api handle n) (fun r t => r = Windows.readDisk api drive n
      ∧ t.opened = k.opened) k := by
  unfold readDisk
  rw [wp_bind]
  refine wp_mono (wp_ioctl .lengthInfo h) ?_
  intro length k₁ hlength
  rw [wp_bind]
  refine wp_mono (wp_ioctl .driveGeometryEx (hlength.1 ▸ h)) ?_
  intro geo k₂ hgeo
  have hopened₂ : k₂.opened = k.opened := hgeo.1.trans hlength.1
  rw [wp_bind]
  refine wp_mono (wp_ioctl .driveLayoutEx (hopened₂ ▸ h)) ?_
  intro layout k₃ hlayout
  have hopened₃ : k₃.opened = k.opened := hlayout.1.trans hopened₂
  -- a failed query is defaulted, whatever its buffer holds
  have hsize : (if length.1.isSome then
      nonNegative (UInt64.ofNat (leValue length.2.toList)).toInt64 else 0) = sizeOf drive.length := by
    rcases hlength.2 with ⟨returned, buf, hreply, rfl⟩ | ⟨buf, hreply, rfl⟩
    · rw [show drive.length = some buf from hreply]
      rfl
    · rw [show drive.length = none from hreply]
      rfl
  have hsector : (if (if geo.1.isSome then
      UInt32.ofNat (leValue (slice geo.2.toList GEOMETRY_BYTES_PER_SECTOR 4)) else 0) = 0 then 512
      else if geo.1.isSome then
        UInt32.ofNat (leValue (slice geo.2.toList GEOMETRY_BYTES_PER_SECTOR 4)) else 0)
      = sectorOf drive.geometry := by
    rcases hgeo.2 with ⟨returned, buf, hreply, rfl⟩ | ⟨buf, hreply, rfl⟩
    · rw [show drive.geometry = some buf from hreply]
      rfl
    · rw [show drive.geometry = none from hreply]
      rfl
  -- only the layout can make the drive unreadable
  unfold Windows.readDisk
  rcases hlayout.2 with ⟨returned, buf, hreply, rfl⟩ | ⟨buf, hreply, rfl⟩
  · rw [show drive.layout = some buf from hreply]
    refine ⟨?_, hopened₃⟩
    show some _ = some (diskOf n drive (parseDriveLayout api buf.toList))
    unfold diskOf
    rw [← hsize, ← hsector]
    rfl
  · rw [show drive.layout = none from hreply]
    exact ⟨rfl, hopened₃⟩

/-- **One round**, from a state with no handle open, ends in one. -/
theorem wp_probeDrive {k : Kernel} (st : ProbeState) (n : Nat) (h : k.opened = []) :
    (kernel probe).wp (probeDrive api st n)
      (fun r t => r = probeStep api st n (probe n) ∧ t.opened = []) k := by
  unfold probeDrive
  rw [wp_bind, wp_request]
  refine ⟨⟨nulTerminated_wide_drivePath n, h⟩, ?_⟩
  intro handle k₁ hans
  rcases answers_createFileW hans with ⟨code, hp, hinvalid, hk⟩ | ⟨drive, hp, hvalid, hk⟩
  · -- nothing was opened: only the code is asked for
    rw [hp, if_pos hinvalid, wp_bind, wp_request]
    refine ⟨⟨code, by rw [hk]⟩, ?_⟩
    intro code' k₂ hans₂
    cases hans₂ with
    | lastError hlast =>
        rw [hk] at hlast
        injection hlast with hcode
        refine ⟨?_, by rw [hk]; exact h⟩
        rw [hcode]
        rfl
  · -- the handle is closed on the way out, disk or not
    have hone : k₁.opened = [(handle, drive)] := by
      rw [hk]
      show (handle, drive) :: k.opened = _
      rw [h]
    have hholds : Holds k₁.opened handle drive := by
      rw [hone]
      exact .head drive (fresh_nil handle)
    rw [hp, if_neg hvalid, wp_bind]
    refine wp_mono (wp_readDisk n hholds) ?_
    intro disk k₂ hdisk
    rw [wp_bind, wp_request]
    refine ⟨⟨drive, by rw [hdisk.2]; exact hholds.mem⟩, ?_⟩
    intro ok k₃ hans₃
    cases hans₃ with
    | closed =>
        refine ⟨?_, ?_⟩
        · rw [hdisk.1]
          rfl
        · show release k₂.opened handle = []
          rw [hdisk.2, hone]
          exact release_cons drive (fresh_nil handle)

/-! ## §6. Every run. -/

/-- The kernel answers whatever it accepts. -/
theorem kernel_responsive (probe : Nat → OpenOutcome) : (kernel probe).Responsive := by
  intro k c hacc
  cases c with
  | createFileW path =>
      by_cases hpath : ∃ n, path = wide (drivePath n)
      · obtain ⟨n, rfl⟩ := hpath
        cases hp : probe n with
        | failed code => exact ⟨_, _, .refused hp⟩
        | opened drive =>
            -- with nothing open, every value is free
            have hvalid : (0 : HANDLE) ≠ INVALID_HANDLE_VALUE := by decide
            refine ⟨0, _, .opened hp hvalid ?_⟩
            rw [hacc.2]
            exact fresh_nil 0
      · refine ⟨INVALID_HANDLE_VALUE, { k with lastError := some 0 }, .absent ?_⟩
        intro n hn
        exact hpath ⟨n, hn⟩
  | getLastError =>
      obtain ⟨code, hcode⟩ := hacc
      exact ⟨code, k, .lastError hcode⟩
  | deviceIoControl handle code =>
      obtain ⟨drive, hmem⟩ := hacc
      cases hreply : reply drive code with
      | some buf => exact ⟨(1, 0, buf), _, .filled hmem hreply (by decide)⟩
      | none => exact ⟨(0, 0, Vector.replicate _ 0), _, .unanswered hmem hreply⟩
  | closeHandle handle => exact ⟨0, _, .closed⟩

/-- The loop, from no open handle, runs the pure loop. -/
theorem wp_enumerate (api : ReadApi) (probe : Nat → OpenOutcome) :
    (kernel probe).wp (enumerate api)
      (fun r t => r = Windows.enumerate api probe ∧ t.opened = []) Kernel.initial := by
  unfold enumerate
  rw [wp_bind]
  -- before each round nothing is open, and the state is the pure loop's
  have hloop : (kernel probe).wp
      ((List.range MAX_DRIVES).foldlM (probeDrive api) { disks := [], accessDenied := false })
      (fun st t => st = probeLoop api probe (List.range MAX_DRIVES) ∧ t.opened = [])
      Kernel.initial := by
    let Inv : List Nat → ProbeState → (kernel probe).State → Prop := fun before st t =>
      st = probeLoop api probe before ∧ t.opened = []
    apply wp_foldlM Inv ⟨rfl, rfl⟩
    intro before n after st k _ hinv
    refine wp_mono (wp_probeDrive st n hinv.2) ?_
    intro st' t ht
    refine ⟨?_, ht.2⟩
    rw [ht.1, hinv.1]
    unfold probeLoop
    rw [List.foldl_append, List.foldl_cons, List.foldl_nil]
  refine wp_mono hloop ?_
  intro st t hst
  refine ⟨?_, hst.2⟩
  rw [hst.1]
  rfl

/-- **The calls compute `enumerate`.**  Against any machine, in every run: each call is accepted,
    no handle is left open, and the result is the one the machine's answers determine. -/
theorem enumerate_meets (api : ReadApi) (probe : Nat → OpenOutcome) :
    (kernel probe).Meets (enumerate api) Kernel.initial
      (fun r t => r = Windows.enumerate api probe ∧ t.opened = []) :=
  .of_wp (kernel_responsive probe) (wp_enumerate api probe)

end LivediskForensic.Windows.Ffi
