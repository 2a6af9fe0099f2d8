/-
  LivediskForensic.Model.OpenDevice — `open_device` of `core/src/lib.rs`, call
  by call: open, seek to the end for the size, rewind.

  A file of the process is a descriptor with a position.  Each of the three
  calls can fail, and each failure leaves the function through a `?`, which
  drops the file if there is one.

      openDevice_meets — one file is asked for, and every other call is on it;
                         on success the caller holds it rewound, with its size;
                         on a failure it is closed again, and the error is that
                         of the first call to fail
-/
import LivediskForensic.Lib.Interaction
import LivediskForensic.Model.Disk

namespace LivediskForensic.OpenDevice

open LivediskForensic.Lib

/-! ## §1. The program. -/

/-- A file descriptor. -/
abbrev Fd := Nat

/-- The calls of `std::fs::File`.  `close` is its `Drop`. -/
inductive Call where
  | fileOpen (path : String)
  /-- `seek(SeekFrom::End(offset))`. -/
  | seekEnd (file : Fd) (offset : Int64)
  /-- `seek(SeekFrom::Start(offset))`. -/
  | seekStart (file : Fd) (offset : UInt64)
  | close (file : Fd)

/-- What each returns; a seek the new position. -/
@[reducible] def Answer : Call → Type
  | .fileOpen _ => Except IoError Fd
  | .seekEnd _ _ => Except IoError UInt64
  | .seekStart _ _ => Except IoError UInt64
  | .close _ => Unit

/-- **Open a live block device for reading and return it with its size in bytes.** -/
def openDevice (path : String) : Prog Call Answer (Except IoError (Fd × UInt64)) := do
  let opened : Except IoError Fd ← request (Call.fileOpen path)
  match opened with
  | .error e => return .error e
  | .ok file =>
    let size : Except IoError UInt64 ← request (Call.seekEnd file 0)
    match size with
    | .error e =>
      let _ ← request (Call.close file)
      return .error e
    | .ok size =>
      let rewound : Except IoError UInt64 ← request (Call.seekStart file 0)
      match rewound with
      | .error e =>
        let _ ← request (Call.close file)
        return .error e
      | .ok _ => return .ok (file, size)

/-! ## §2. The devices. -/

/-- A device node that can be opened. -/
structure Node where
  /-- Seeking to its end: its size, or a failure. -/
  size : Except IoError UInt64
  /-- Why it cannot be rewound, if it cannot. -/
  rewind : Option IoError

/-- A file of the process. -/
structure OpenFile where
  node : Node
  position : UInt64

structure Kernel where
  /-- The files the process holds, the last opened first. -/
  files : List (Fd × OpenFile)
  /-- How many files it has asked for since the function was called. -/
  opens : Nat
  /-- The one it got, as long as that is open. -/
  own : Option Fd

/-- When the function is called. -/
def Kernel.before (files : List (Fd × OpenFile)) : Kernel :=
  { files := files, opens := 0, own := none }

/-- **What each call requires**: the first file asked for is the only one, and it is the device's;
    every other call is on the file that came of it.  The offsets are the two the function uses. -/
def Accepts (path : String) (k : Kernel) : Call → Prop
  | .fileOpen asked => asked = path ∧ k.opens = 0
  | .seekEnd file offset => k.own = some file ∧ (∃ f, Holds k.files file f) ∧ offset = 0
  | .seekStart file offset => k.own = some file ∧ (∃ f, Holds k.files file f) ∧ offset = 0
  | .close file => k.own = some file ∧ ∃ f, Holds k.files file f

/-- **How the kernel answers**, given what each path leads to. -/
inductive Answers (devices : String → Except IoError Node) :
    Kernel → (c : Call) → Answer c → Kernel → Prop where
  | refused {k : Kernel} {path : String} {e : IoError} (h : devices path = .error e) :
      Answers devices k (.fileOpen path) (.error e) { k with opens := k.opens + 1 }
  | opened {k : Kernel} {path : String} {node : Node} {file : Fd} (h : devices path = .ok node)
      (hfresh : Fresh k.files file) :
      Answers devices k (.fileOpen path) (.ok file)
        { files := (file, { node, position := 0 }) :: k.files
          opens := k.opens + 1
          own := some file }
  | ended {k : Kernel} {file : Fd} {offset : Int64} {f : OpenFile} {size : UInt64}
      (h : (file, f) ∈ k.files) (hsize : f.node.size = .ok size) :
      Answers devices k (.seekEnd file offset) (.ok size)
        { k with files := update k.files file { f with position := size } }
  /-- A failed seek leaves the position wherever it is. -/
  | notEnded {k : Kernel} {file : Fd} {offset : Int64} {f : OpenFile} {e : IoError}
      {position : UInt64} (h : (file, f) ∈ k.files) (hsize : f.node.size = .error e) :
      Answers devices k (.seekEnd file offset) (.error e)
        { k with files := update k.files file { f with position } }
  | rewound {k : Kernel} {file : Fd} {offset : UInt64} {f : OpenFile} (h : (file, f) ∈ k.files)
      (hrewind : f.node.rewind = none) :
      Answers devices k (.seekStart file offset) (.ok offset)
        { k with files := update k.files file { f with position := offset } }
  | notRewound {k : Kernel} {file : Fd} {offset : UInt64} {f : OpenFile} {e : IoError}
      {position : UInt64} (h : (file, f) ∈ k.files) (hrewind : f.node.rewind = some e) :
      Answers devices k (.seekStart file offset) (.error e)
        { k with files := update k.files file { f with position } }
  | closed {k : Kernel} {file : Fd} :
      Answers devices k (.close file) () { k with files := release k.files file, own := none }

/-- A kernel with these devices, while the function runs on a path. -/
@[reducible] def kernel (devices : String → Except IoError Node) (path : String) :
    Environment Call Answer :=
  { State := Kernel, Accepts := Accepts path, Answers := Answers devices }

/-- The failure of the first call that fails, if one does. -/
def firstFailure (devices : String → Except IoError Node) (path : String) : Option IoError :=
  match devices path with
  | .error e => some e
  | .ok node =>
    match node.size with
    | .error e => some e
    | .ok _ => node.rewind

/-- What the caller gets, and what the process has done and holds then. -/
def Outcome (devices : String → Except IoError Node) (path : String)
    (files : List (Fd × OpenFile)) : Except IoError (Fd × UInt64) → Kernel → Prop
  | .ok (file, size), t => firstFailure devices path = none ∧ ∃ node, devices path = .ok node
      ∧ node.size = .ok size ∧ Fresh files file
      ∧ t = { files := (file, { node, position := 0 }) :: files, opens := 1, own := some file }
  | .error e, t => firstFailure devices path = some e
      ∧ t = { files := files, opens := 1, own := none }

/-! ## §3. Every run. -/

variable {devices : String → Except IoError Node} {path : String} {files : List (Fd × OpenFile)}

/-- With the file it got, first among those it holds. -/
def Kernel.during (files : List (Fd × OpenFile)) (file : Fd) (f : OpenFile) : Kernel :=
  { files := (file, f) :: files, opens := 1, own := some file }

/-- The `Drop` of the file. -/
theorem wp_close {file : Fd} {f : OpenFile} (hfresh : Fresh files file) {Q : Unit → Kernel → Prop}
    (hQ : Q () { files := files, opens := 1, own := none }) :
    (kernel devices path).wp (request (Call.close file)) Q (Kernel.during files file f) := by
  rw [wp_request]
  refine ⟨⟨rfl, f, .head f hfresh⟩, ?_⟩
  intro answer t hans
  cases hans with
  | closed =>
      have hfiles : release ((file, f) :: files) file = files := release_cons f hfresh
      show Q () { files := release ((file, f) :: files) file, opens := 1, own := none }
      rw [hfiles]
      exact hQ

theorem firstFailure_of_refused {e : IoError} (h : devices path = .error e) :
    firstFailure devices path = some e := by
  unfold firstFailure
  rw [h]

theorem firstFailure_of_notEnded {node : Node} {e : IoError} (h : devices path = .ok node)
    (hsize : node.size = .error e) :
    firstFailure devices path = some e := by
  unfold firstFailure
  simp only [h, hsize]

theorem firstFailure_of_ended {node : Node} {size : UInt64} (h : devices path = .ok node)
    (hsize : node.size = .ok size) :
    firstFailure devices path = node.rewind := by
  unfold firstFailure
  simp only [h, hsize]

/-- A seek to the end finds the device's size, or fails as it does. -/
theorem wp_seekEnd {node : Node} {file : Fd} {f : OpenFile} (hf : f.node = node)
    (hfresh : Fresh files file) {Q : Except IoError UInt64 → Kernel → Prop}
    (hok : ∀ size, node.size = .ok size →
      Q (.ok size) (Kernel.during files file { node, position := size }))
    (herror : ∀ e position, node.size = .error e →
      Q (.error e) (Kernel.during files file { node, position })) :
    (kernel devices path).wp (request (Call.seekEnd file 0)) Q (Kernel.during files file f) := by
  have hheld : Holds ((file, f) :: files) file f := .head f hfresh
  rw [wp_request]
  refine ⟨⟨rfl, ⟨f, hheld⟩, rfl⟩, ?_⟩
  intro answer t hans
  subst hf
  cases hans with
  | @ended _ _ g size hmem hsize =>
      obtain rfl := hheld.only g hmem
      show Q (.ok size)
        { files := update ((file, g) :: files) file _, opens := 1, own := some file }
      rw [update_cons _ _ hfresh]
      exact hok size hsize
  | @notEnded _ _ g e position hmem hsize =>
      obtain rfl := hheld.only g hmem
      show Q (.error e)
        { files := update ((file, g) :: files) file _, opens := 1, own := some file }
      rw [update_cons _ _ hfresh]
      exact herror e position hsize

theorem wp_seekStart {node : Node} {file : Fd} {f : OpenFile} (hf : f.node = node)
    (hfresh : Fresh files file) {Q : Except IoError UInt64 → Kernel → Prop}
    (hok : node.rewind = none → Q (.ok 0) (Kernel.during files file { node, position := 0 }))
    (herror : ∀ e position, node.rewind = some e →
      Q (.error e) (Kernel.during files file { node, position })) :
    (kernel devices path).wp (request (Call.seekStart file 0)) Q (Kernel.during files file f) := by
  have hheld : Holds ((file, f) :: files) file f := .head f hfresh
  rw [wp_request]
  refine ⟨⟨rfl, ⟨f, hheld⟩, rfl⟩, ?_⟩
  intro answer t hans
  subst hf
  cases hans with
  | @rewound _ _ g hmem hrewind =>
      obtain rfl := hheld.only g hmem
      show Q (.ok 0)
        { files := update ((file, g) :: files) file _, opens := 1, own := some file }
      rw [update_cons _ _ hfresh]
      exact hok hrewind
  | @notRewound _ _ g e position hmem hrewind =>
      obtain rfl := hheld.only g hmem
      show Q (.error e)
        { files := update ((file, g) :: files) file _, opens := 1, own := some file }
      rw [update_cons _ _ hfresh]
      exact herror e position hrewind

/-- **The three calls**, from whatever the process holds. -/
theorem wp_openDevice (devices : String → Except IoError Node) (path : String)
    (files : List (Fd × OpenFile)) :
    (kernel devices path).wp (openDevice path) (Outcome devices path files)
      (Kernel.before files) := by
  unfold openDevice
  rw [wp_bind, wp_request]
  refine ⟨⟨rfl, rfl⟩, ?_⟩
  intro opened k₁ hans
  cases hans with
  | @refused _ e h => exact ⟨firstFailure_of_refused h, rfl⟩
  | @opened _ node file h hfresh =>
      show (kernel devices path).wp (request (Call.seekEnd file 0) >>= _) _
        (Kernel.during files file { node, position := 0 })
      rw [wp_bind]
      apply wp_seekEnd rfl hfresh
      · intro size hsize
        have hfirst := firstFailure_of_ended h hsize
        show (kernel devices path).wp (request (Call.seekStart file 0) >>= _) _ _
        rw [wp_bind]
        apply wp_seekStart rfl hfresh
        · intro hrewind
          exact ⟨hfirst.trans hrewind, node, h, hsize, hfresh, rfl⟩
        · intro e position hrewind
          show (kernel devices path).wp (request (Call.close file) >>= _) _ _
          rw [wp_bind]
          apply wp_close hfresh
          exact ⟨hfirst.trans hrewind, rfl⟩
      · intro e position hsize
        show (kernel devices path).wp (request (Call.close file) >>= _) _ _
        rw [wp_bind]
        apply wp_close hfresh
        exact ⟨firstFailure_of_notEnded h hsize, rfl⟩

theorem kernel_responsive (devices : String → Except IoError Node) (path : String) :
    (kernel devices path).Responsive := by
  intro k c hacc
  cases c with
  | fileOpen asked =>
      cases h : devices asked with
      | error e => exact ⟨.error e, _, .refused h⟩
      | ok node =>
          -- among one more numbers than files there is a free one
          have hlen : k.files.length < (List.range (k.files.length + 1)).length := by
            rw [List.length_range]
            omega
          obtain ⟨file, _, hfresh⟩ := exists_fresh List.nodup_range hlen
          exact ⟨.ok file, _, .opened h hfresh⟩
  | seekEnd file offset =>
      obtain ⟨_, ⟨f, hf⟩, _⟩ := hacc
      cases h : f.node.size with
      | error e => exact ⟨.error e, _, @Answers.notEnded _ _ _ _ _ _ 0 hf.mem h⟩
      | ok size => exact ⟨.ok size, _, .ended hf.mem h⟩
  | seekStart file offset =>
      obtain ⟨_, ⟨f, hf⟩, _⟩ := hacc
      cases h : f.node.rewind with
      | none => exact ⟨.ok offset, _, .rewound hf.mem h⟩
      | some e => exact ⟨.error e, _, @Answers.notRewound _ _ _ _ _ _ 0 hf.mem h⟩
  | close file => exact ⟨(), _, .closed⟩

/-- **Opening a device**, in every run and from every state of the process: one file is asked for,
    the device's, and every other call is on that file; success hands it over at position 0 with
    the device's size, and every failure is the first one's and leaves the process holding what it
    held. -/
theorem openDevice_meets (devices : String → Except IoError Node) (path : String)
    (files : List (Fd × OpenFile)) :
    (kernel devices path).Meets (openDevice path) (Kernel.before files)
      (Outcome devices path files) :=
  .of_wp (kernel_responsive devices path) (wp_openDevice devices path files)

end LivediskForensic.OpenDevice
