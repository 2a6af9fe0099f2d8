/-
  LivediskForensic.Linux.Calls — `core/src/linux.rs` call by call: the walk of
  `/sys/block` as the program that lists directories and reads files, run
  against a file system that CHANGES WHILE IT WALKS.

  `enumerate` (in `Linux.Enumerate`) is what the walk computes when the file
  system is a fixed input.  Here a disk may be plugged in or pulled between any
  two calls.  The STEADY devices stay as they are from the first call to the
  last; about everything else the kernel may answer anything, differently each
  time it is asked.

      wp_enumerate        — whatever happens, the result is `enumerate` of what
                            the walk has seen
      enumerate_meets_hotplug — without a directory error every steady device
                            is listed once, as it is; with one, the first is
                            the result; every directory is closed again
-/
import LivediskForensic.Lib.Interaction
import LivediskForensic.Lib.Utf8
import LivediskForensic.Linux.Enumerate
import Mathlib.Algebra.Order.BigOperators.Group.List

namespace LivediskForensic.Linux.Calls

open LivediskForensic.Lib
open LivediskForensic.Sysfs

/-! ## §1. The calls. -/

/-- A path, as the backend builds it. -/
inductive Path where
  /-- `/sys/block`. -/
  | sysBlock
  /-- `/proc/mounts`. -/
  | procMounts
  /-- `Path::join`. -/
  | join (base : Path) (rel : String)
  deriving Repr, DecidableEq

/-- An open directory stream. -/
abbrev Dir := Nat

/-- The functions of `std::fs`.  `closeDir` is the `Drop` of a `ReadDir`. -/
inductive Call where
  | readDir (path : Path)
  /-- `ReadDir::next`. -/
  | next (dir : Dir)
  /-- `Path::exists`. -/
  | pathExists (path : Path)
  /-- The bytes behind `fs::read_to_string`. -/
  | readFile (path : Path)
  | closeDir (dir : Dir)

/-- What each returns; an item of a directory by its name. -/
@[reducible] def Answer : Call → Type
  | .readDir _ => Except IoError Dir
  | .next _ => Option (Except IoError String)
  | .pathExists _ => Bool
  | .readFile _ => FileRead
  | .closeDir _ => Unit

/-! ## §2. The program. -/

/-- `fs::read_to_string(path).unwrap_or_default()`. -/
def readAttrAt (path : Path) : Prog Call Answer String := do
  let f : FileRead ← request (Call.readFile path)
  return readAttr f

/-- What is done with one item of a disk's directory. -/
def partitionItem (name : String) (base : Path) (partitions : List RawPart) (pname : String) :
    Prog Call Answer (List RawPart) := do
  if name.toList.isPrefixOf pname.toList then
    let carries : Bool ← request (Call.pathExists ((base.join pname).join "partition"))
    if carries then
      let size ← readAttrAt ((base.join pname).join "size")
      let start ← readAttrAt ((base.join pname).join "start")
      return partitions ++ [{ name := pname, size := size, start := start }]
    else return partitions
  else return partitions

/-- One round of the loop over a disk's directory. -/
def partitionStep (name : String) (base : Path) (dir : Dir) (partitions : List RawPart) :
    Prog Call Answer (List RawPart ⊕ Except Error (List RawPart)) := do
  let item : Option (Except IoError String) ← request (Call.next dir)
  match item with
  | none => return .inr (.ok partitions)
  | some (.error e) => return .inr (.error (.io e))
  | some (.ok pname) =>
    let partitions ← partitionItem name base partitions pname
    return .inl partitions

/-- The partitions of one disk, reading at most `fuel` items. -/
def readPartitions (fuel : Nat) (name : String) (base : Path) :
    Prog Call Answer (Option (Except Error (List RawPart))) := do
  let opened : Except IoError Dir ← request (Call.readDir base)
  match opened with
  | .error e => return some (.error (.io e))
  | .ok dir =>
    let partitions ← iterate (partitionStep name base dir) fuel []
    -- the stream is dropped where the loop ends, on a failure too
    let _ ← request (Call.closeDir dir)
    return partitions

/-- The record of a disk, given its partitions. -/
def readDisk (name : String) (base : Path) (partitions : List RawPart) :
    Prog Call Answer RawDisk := do
  let size ← readAttrAt (base.join "size")
  let removable ← readAttrAt (base.join "removable")
  let ro ← readAttrAt (base.join "ro")
  let logical ← readAttrAt (base.join "queue/logical_block_size")
  let physical ← readAttrAt (base.join "queue/physical_block_size")
  let model : FileRead ← request (Call.readFile (base.join "device/model"))
  return {
    name := name
    size := size
    removable := removable
    ro := ro
    logical := logical
    physical := physical
    model := (readToString model).toOption
    partitions := partitions }

/-- What is done with one item of `/sys/block`; `.inr` where the loop is left. -/
def diskItem (fuel : Nat) (raw : List RawDisk) (name : String) :
    Prog Call Answer (List RawDisk ⊕ Option (Except Error (List RawDisk))) := do
  if isVirtual name then return .inl raw
  else
    let base := Path.sysBlock.join name
    match ← readPartitions fuel name base with
    | none => return .inr none
    | some (.error e) => return .inr (some (.error e))
    | some (.ok partitions) =>
      let disk ← readDisk name base partitions
      return .inl (raw ++ [disk])

/-- One round of the loop over `/sys/block`. -/
def diskStep (fuel : Nat) (dir : Dir) (raw : List RawDisk) :
    Prog Call Answer (List RawDisk ⊕ Option (Except Error (List RawDisk))) := do
  let item : Option (Except IoError String) ← request (Call.next dir)
  match item with
  | none => return .inr (some (.ok raw))
  | some (.error e) => return .inr (some (.error (.io e)))
  | some (.ok name) => diskItem fuel raw name

/-- **`enumerate`**, with its calls. -/
def enumerate (fuel : Nat) : Prog Call Answer (Option (Except Error (List PhysicalDisk))) := do
  let opened : Except IoError Dir ← request (Call.readDir .sysBlock)
  match opened with
  | .error e => return some (.error (.io e))
  | .ok dir =>
    let walked ← iterate (diskStep fuel dir) fuel []
    let _ ← request (Call.closeDir dir)
    match walked.join with
    | none => return none
    | some (.error e) => return some (.error e)
    | some (.ok raw) =>
      let mounts ← readAttrAt .procMounts
      return some (.ok (build raw mounts))

/-! ## §3. What stays as it is. -/

/-- One item of `/sys/block` with its files, listed to its end. -/
structure Directory where
  name : String
  children : List SubEntry
  size : FileRead
  removable : FileRead
  ro : FileRead
  logical : FileRead
  physical : FileRead
  model : FileRead

/-- As an item of the fixed input. -/
def Directory.entry (d : Directory) : BlockEntry :=
  { name := d.name
    children := .ok (d.children.map .ok)
    size := d.size
    removable := d.removable
    ro := d.ro
    logical := d.logical
    physical := d.physical
    model := d.model }

/-- The steady devices, and the mount table at the time it is read. -/
structure Steady where
  devices : List Directory
  mounts : FileRead
  distinct : (devices.map Directory.name).Nodup
  children_distinct : ∀ d ∈ devices, (d.children.map SubEntry.name).Nodup

def Steady.device? (s : Steady) (name : String) : Option Directory :=
  s.devices.find? (fun d => d.name = name)

def Directory.child? (d : Directory) (name : String) : Option SubEntry :=
  d.children.find? (fun sub => sub.name = name)

/-- The files of a steady partition. -/
def childFile (sub : SubEntry) (rel : String) : Option FileRead :=
  if rel = "size" then some sub.size
  else if rel = "start" then some sub.start
  else none

/-- The files of a steady device. -/
def Directory.file (d : Directory) (rel : String) : Option FileRead :=
  if rel = "size" then some d.size
  else if rel = "removable" then some d.removable
  else if rel = "ro" then some d.ro
  else if rel = "queue/logical_block_size" then some d.logical
  else if rel = "queue/physical_block_size" then some d.physical
  else if rel = "device/model" then some d.model
  else none

/-- What is known of the child of a directory. -/
def Steady.child? (s : Steady) (base : Path) (name : String) : Option SubEntry :=
  match base with
  | .join .sysBlock dev => (s.device? dev).bind (fun d => d.child? name)
  | _ => none

/-- What is known of a file. -/
def Steady.file (s : Steady) : Path → Option FileRead
  | .procMounts => some s.mounts
  | .join (.join .sysBlock dev) rel => (s.device? dev).bind (fun d => d.file rel)
  | .join (.join base sub) rel => (s.child? base sub).bind (fun c => childFile c rel)
  | _ => none

/-- What is known of whether a path is there. -/
def Steady.present (s : Steady) : Path → Option Bool
  | .join (.join base sub) rel =>
      if rel = "partition" then (s.child? base sub).map SubEntry.hasPartitionFile else none
  | _ => none

/-- The items known to be in a directory. -/
def Steady.items (s : Steady) : Path → List String
  | .sysBlock => s.devices.map Directory.name
  | .join .sysBlock dev => ((s.device? dev).map Directory.children).getD [] |>.map SubEntry.name
  | _ => []

/-- Where other items can turn up, and which: not in a steady device's own directory. -/
def Steady.Stray (s : Steady) (base : Path) (name : String) : Prop :=
  match base with
  | .sysBlock => s.device? name = none
  | .join .sysBlock dev => s.device? dev = none
  | _ => True

/-! ## §4. The kernel. -/

/-- A directory stream, with the known items still to come. -/
structure Stream where
  path : Path
  due : List String

structure Kernel where
  /-- The open streams, the last opened first. -/
  streams : List (Dir × Stream)
  /-- How many more items of other devices will turn up. -/
  budget : Nat
  /-- The directory error met, if any. -/
  failure : Option IoError

/-- Before the first call. -/
def Kernel.initial (budget : Nat) : Kernel :=
  { streams := [], budget := budget, failure := none }

/-- **What each call requires**: a walk that ends at the first directory error, and closes its
    streams in the order opposite to that of their opening. -/
def Accepts (k : Kernel) : Call → Prop
  | .readDir _ => k.failure = none ∧ k.streams.length < 2
  | .next dir => k.failure = none ∧ ∃ s rest, k.streams = (dir, s) :: rest
  | .pathExists _ => k.failure = none
  | .readFile _ => k.failure = none
  | .closeDir dir => ∃ s rest, k.streams = (dir, s) :: rest

/-- **How the kernel answers** while other devices come and go. -/
inductive Answers (s : Steady) : Kernel → (c : Call) → Answer c → Kernel → Prop where
  | opened {k : Kernel} {path : Path} {dir : Dir} (hfresh : Fresh k.streams dir) :
      Answers s k (.readDir path) (.ok dir)
        { k with streams := (dir, { path := path, due := s.items path }) :: k.streams }
  | unopened {k : Kernel} {path : Path} (e : IoError) :
      Answers s k (.readDir path) (.error e) { k with failure := some e }
  /-- The known items come in any order. -/
  | due {k : Kernel} {dir : Dir} {path : Path} {before after : List String} {name : String}
      {rest : List (Dir × Stream)}
      (h : k.streams = (dir, { path := path, due := before ++ name :: after }) :: rest) :
      Answers s k (.next dir) (some (.ok name))
        { k with streams := (dir, { path := path, due := before ++ after }) :: rest }
  /-- Among them, others. -/
  | stray {k : Kernel} {dir : Dir} {path : Path} {due : List String} {name : String}
      {rest : List (Dir × Stream)} {budget : Nat}
      (h : k.streams = (dir, { path := path, due := due }) :: rest) (hstray : s.Stray path name)
      (hbudget : k.budget = budget + 1) :
      Answers s k (.next dir) (some (.ok name)) { k with budget := budget }
  | broken {k : Kernel} {dir : Dir} (e : IoError) :
      Answers s k (.next dir) (some (.error e)) { k with failure := some e }
  /-- A listing does not end before every known item has come. -/
  | ended {k : Kernel} {dir : Dir} {path : Path} {rest : List (Dir × Stream)}
      (h : k.streams = (dir, { path := path, due := [] }) :: rest) :
      Answers s k (.next dir) none k
  | present {k : Kernel} {path : Path} {b : Bool} (h : ∀ b' ∈ s.present path, b = b') :
      Answers s k (.pathExists path) b k
  | read {k : Kernel} {path : Path} {f : FileRead} (h : ∀ f' ∈ s.file path, f = f') :
      Answers s k (.readFile path) f k
  | closed {k : Kernel} {dir : Dir} {stream : Stream} {rest : List (Dir × Stream)}
      (h : k.streams = (dir, stream) :: rest) :
      Answers s k (.closeDir dir) () { k with streams := rest }

/-- The kernel, with these devices steady. -/
@[reducible] def kernel (s : Steady) : Environment Call Answer :=
  { State := Kernel, Accepts := Accepts, Answers := Answers s }

/-! ## §5. What the walk makes of the directories it has seen. -/

def rawPart (sub : SubEntry) : RawPart :=
  { name := sub.name, size := readAttr sub.size, start := readAttr sub.start }

/-- The partitions among a disk's children. -/
def partsOf (name : String) (children : List SubEntry) : List RawPart :=
  (children.filter (isPartitionDir name)).map rawPart

def Directory.raw (d : Directory) : RawDisk := rawDisk d.entry (partsOf d.name d.children)

/-- The records of the disks among the directories. -/
def rawsOf (seen : List Directory) : List RawDisk :=
  (seen.filter (fun d => !isVirtual d.name)).map Directory.raw

theorem partsOf_append (name : String) (children : List SubEntry) (sub : SubEntry) :
    partsOf name (children ++ [sub])
      = partsOf name children ++ if isPartitionDir name sub then [rawPart sub] else [] := by
  unfold partsOf
  rw [List.filter_append, List.map_append, List.filter_singleton]
  cases isPartitionDir name sub <;> rfl

/-- RAM disks leave no record. -/
theorem rawsOf_append (seen : List Directory) (d : Directory) :
    rawsOf (seen ++ [d]) = rawsOf seen ++ if isVirtual d.name then [] else [d.raw] := by
  unfold rawsOf
  rw [List.filter_append, List.map_append, List.filter_singleton]
  cases isVirtual d.name <;> rfl

theorem readPartitions_listed (disk : String) (children : List SubEntry) :
    Linux.readPartitions disk (children.map .ok) = .ok (partsOf disk children) := by
  unfold partsOf
  induction children with
  | nil => rfl
  | cons sub children ih =>
      rw [List.map_cons, List.filter_cons]
      simp only [Linux.readPartitions, liftIo, bind, Except.bind, ih]
      cases isPartitionDir disk sub <;> rfl

theorem readEntries_listed (seen : List Directory) :
    Linux.readEntries (seen.map (fun d => .ok d.entry)) = .ok (rawsOf seen) := by
  unfold rawsOf
  induction seen with
  | nil => rfl
  | cons d seen ih =>
      have hchildren : readChildren d.entry = .ok (partsOf d.name d.children) :=
        readPartitions_listed d.name d.children
      have hname : d.entry.name = d.name := rfl
      rw [List.map_cons, List.filter_cons]
      simp only [Linux.readEntries, liftIo, bind, Except.bind, ih, hchildren, hname]
      cases isVirtual d.name <;> rfl

/-- The fixed input that holds these directories. -/
def hostOf (seen : List Directory) (mounts : FileRead) : Host :=
  { block := .ok (seen.map (fun d => .ok d.entry)), mounts := mounts }

theorem enumerate_hostOf (seen : List Directory) (mounts : FileRead) :
    Linux.enumerate (hostOf seen mounts) = .ok (build (rawsOf seen) (readAttr mounts)) :=
  enumerate_eq_ok_iff.mpr ⟨_, readEntries_listed seen, rfl⟩

/-! ## §6. What is known. -/

section Known

variable {s : Steady}

theorem device?_mem {name : String} {d : Directory} (h : s.device? name = some d) :
    d ∈ s.devices ∧ d.name = name :=
  ⟨List.mem_of_find?_eq_some h, by simpa using List.find?_some h⟩

theorem device?_eq_none_iff {name : String} :
    s.device? name = none ↔ ∀ d ∈ s.devices, d.name ≠ name := by
  unfold Steady.device?
  rw [List.find?_eq_none]
  simp

/-- The names tell apart. -/
theorem eq_of_find? {α : Type} {key : α → String} {l : List α} (h : (l.map key).Nodup) {a : α}
    (ha : a ∈ l) : l.find? (fun b => key b = key a) = some a := by
  cases hf : l.find? (fun b => key b = key a) with
  | none =>
      have hnone := List.find?_eq_none.mp hf a ha
      simp at hnone
  | some b =>
      have hkey : key b = key a := by simpa using List.find?_some hf
      rw [List.inj_on_of_nodup_map h (List.mem_of_find?_eq_some hf) ha hkey]

theorem device?_name {d : Directory} (h : d ∈ s.devices) : s.device? d.name = some d :=
  eq_of_find? s.distinct h

theorem child?_name {d : Directory} (h : d ∈ s.devices) {sub : SubEntry}
    (hsub : sub ∈ d.children) : d.child? sub.name = some sub :=
  eq_of_find? (s.children_distinct d h) hsub

end Known

/-! ## §7. One call at a time. -/

variable {s : Steady} {k : Kernel}

/-- A file is read as it is known, and nothing changes. -/
theorem wp_readAttrAt {path : Path} (hk : k.failure = none) {Q : String → Kernel → Prop}
    (hQ : ∀ f, (∀ f' ∈ s.file path, f = f') → Q (readAttr f) k) :
    (kernel s).wp (readAttrAt path) Q k := by
  unfold readAttrAt
  rw [wp_bind, wp_request]
  refine ⟨hk, ?_⟩
  intro f k' hans
  cases hans with
  | read h => exact hQ f h

theorem child?_mem {base : Path} {pname : String} {c : SubEntry}
    (h : s.child? base pname = some c) : c.name = pname := by
  unfold Steady.child? at h
  split at h
  · obtain ⟨d, _, hc⟩ := Option.bind_eq_some_iff.mp h
    simpa using List.find?_some hc
  · exact absurd h (by simp)

/-- A child as it may be read: as it is known, if it is. -/
theorem exists_child {base : Path} {pname : String} {carries : Bool}
    (h : ∀ c ∈ s.child? base pname, carries = c.hasPartitionFile) :
    ∃ sub : SubEntry, sub.name = pname ∧ sub.hasPartitionFile = carries
      ∧ ∀ c ∈ s.child? base pname, sub = c := by
  cases hc : s.child? base pname with
  | none =>
      refine ⟨⟨pname, carries, .error .notFound, .error .notFound⟩, rfl, rfl, ?_⟩
      intro c hc'
      exact absurd hc' (by simp)
  | some c =>
      refine ⟨c, child?_mem hc, (h c (Option.mem_def.mpr hc)).symm, ?_⟩
      intro c' hc'
      exact Option.some.inj hc'

/-- **One item of a disk's directory**: a partition is read as it is known. -/
theorem wp_partitionItem (name : String) (partitions : List RawPart) (pname : String)
    (hk : k.failure = none) :
    (kernel s).wp (partitionItem name (Path.sysBlock.join name) partitions pname)
      (fun r t => t = k ∧ ∃ sub : SubEntry, sub.name = pname
        ∧ (∀ c ∈ s.child? (Path.sysBlock.join name) pname, sub = c)
        ∧ r = partitions ++ if isPartitionDir name sub then [rawPart sub] else []) k := by
  unfold partitionItem
  by_cases hstarts : name.toList.isPrefixOf pname.toList = true
  · rw [if_pos hstarts, wp_bind, wp_request]
    refine ⟨hk, ?_⟩
    intro carries k₁ hans
    cases hans with
    | present hpresent =>
        have hcarries : ∀ c ∈ s.child? (Path.sysBlock.join name) pname,
            carries = c.hasPartitionFile := by
          intro c hc
          apply hpresent
          show (s.child? (Path.sysBlock.join name) pname).map SubEntry.hasPartitionFile = _
          rw [Option.mem_def.mp hc]
          rfl
        cases carries with
        | false =>
            obtain ⟨sub, hname, hnot, hsub⟩ := exists_child hcarries
            refine ⟨rfl, sub, hname, hsub, ?_⟩
            unfold isPartitionDir
            rw [hnot, Bool.and_false]
            simp
        | true =>
            rw [if_pos rfl, wp_bind]
            apply wp_readAttrAt hk
            intro size hsize
            rw [wp_bind]
            apply wp_readAttrAt hk
            intro start hstart
            refine ⟨rfl, { name := pname, hasPartitionFile := true, size, start }, rfl, ?_, ?_⟩
            · intro c hc
              have hfile : ∀ rel, s.file (((Path.sysBlock.join name).join pname).join rel)
                  = childFile c rel := by
                intro rel
                show (s.child? (Path.sysBlock.join name) pname).bind (fun c => childFile c rel) = _
                rw [Option.mem_def.mp hc]
                rfl
              rw [hsize c.size (hfile _), hstart c.start (hfile _), hcarries c hc,
                ← child?_mem (Option.mem_def.mp hc)]
            · have hyes : isPartitionDir name
                  { name := pname, hasPartitionFile := true, size, start } = true := by
                unfold isPartitionDir
                rw [hstarts, Bool.and_true]
              rw [if_pos hyes]
              rfl
  · -- what is not asked for is as it is known
    obtain ⟨sub, hname, _, hsub⟩ := @exists_child s (Path.sysBlock.join name) pname
      (((s.child? (Path.sysBlock.join name) pname).map SubEntry.hasPartitionFile).getD false)
      (by
        intro c hc
        rw [Option.mem_def.mp hc]
        rfl)
    rw [if_neg hstarts]
    refine ⟨rfl, sub, hname, hsub, ?_⟩
    unfold isPartitionDir
    rw [hname, Bool.eq_false_iff.mpr hstarts, Bool.false_and]
    simp

section Next

variable {α : Type} {key : α → String} {due : List α} {dir : Dir} {path : Path}
variable {rest : List (Dir × Stream)} {k' : Kernel}

/-- A listing ends when nothing known is left. -/
theorem next_ended (hstreams : k.streams = (dir, { path := path, due := due.map key }) :: rest)
    (hans : Answers s k (.next dir) none k') : due = [] ∧ k' = k := by
  cases hans with
  | ended hend =>
      rw [hstreams] at hend
      injection hend with hhead
      injection hhead with _ hstream
      injection hstream with _ hdue
      exact ⟨List.map_eq_nil_iff.mp hdue, rfl⟩

/-- **What comes next** is a known item that is due, or a stray one. -/
theorem next_listed (hstreams : k.streams = (dir, { path := path, due := due.map key }) :: rest)
    (hok : k.failure = none) {name : String}
    (hans : Answers s k (.next dir) (some (.ok name)) k') :
    k'.failure = none ∧ (
      (∃ front a back, due = front ++ a :: back ∧ key a = name ∧ k'.budget = k.budget
        ∧ k'.streams = (dir, { path := path, due := (front ++ back).map key }) :: rest)
      ∨ s.Stray path name ∧ k.budget = k'.budget + 1 ∧ k'.streams = k.streams) := by
  cases hans with
  | @due _ path' before after _ rest' hdue =>
      rw [hstreams] at hdue
      injection hdue with hhead htail
      injection hhead with _ hstream
      injection hstream with hpath hnames
      -- the name is that of one of those due
      obtain ⟨front, back, rfl, hfront, hback⟩ := List.map_eq_append_iff.mp hnames
      obtain ⟨a, back, rfl, ha, hback⟩ := List.map_eq_cons_iff.mp hback
      refine ⟨hok, .inl ⟨front, a, back, rfl, ha, rfl, ?_⟩⟩
      show (dir, _) :: rest' = _
      rw [← htail, ← hpath, List.map_append, hfront, hback]
  | @stray _ path' due' _ rest' budget hstray hnone hleft =>
      rw [hstreams] at hstray
      injection hstray with hhead _
      injection hhead with _ hstream
      injection hstream with hpath _
      rw [← hpath] at hnone
      exact ⟨hok, .inr ⟨hnone, hleft, rfl⟩⟩

end Next

/-! ## §8. One disk's directory. -/

/-- A walk ends with what it was to find, or with the directory error it met. -/
def Came {α : Type} (k : Kernel) (result : Except Error α) (found : α → Prop) : Prop :=
  match k.failure with
  | none => ∃ a, result = .ok a ∧ found a
  | some e => result = .error (.io e)

theorem Came.mono {α : Type} {k : Kernel} {result : Except Error α} {found found' : α → Prop}
    (h : Came k result found) (hle : ∀ a, found a → found' a) : Came k result found' := by
  unfold Came at h ⊢
  cases hfail : k.failure with
  | some e =>
      rw [hfail] at h
      exact h
  | none =>
      rw [hfail] at h
      obtain ⟨a, hresult, hfound⟩ := h
      exact ⟨a, hresult, hle a hfound⟩

/-- Before a round: the children seen and the known ones still due. -/
def PartitionInv (s : Steady) (name : String) (dir : Dir) (k₀ : Kernel) (n : Nat)
    (partitions : List RawPart) (k : Kernel) : Prop :=
  ∃ children due : List SubEntry, partitions = partsOf name children
    ∧ n = due.length + k.budget ∧ k.budget ≤ k₀.budget ∧ k.failure = none
    ∧ k.streams = (dir, { path := Path.sysBlock.join name, due := due.map SubEntry.name })
        :: k₀.streams
    ∧ ∀ d ∈ s.device? name, (children ++ due).Perm d.children

/-- What a disk's directory is read as. -/
def PartitionsFound (s : Steady) (name : String) (partitions : List RawPart) : Prop :=
  ∃ children, partitions = partsOf name children ∧ ∀ d ∈ s.device? name, children.Perm d.children

/-- A child of a steady device is known. -/
theorem child?_device {name : String} {d : Directory} (hd : d ∈ s.device? name) {sub : SubEntry}
    (hsub : sub ∈ d.children) : s.child? (Path.sysBlock.join name) sub.name = some sub := by
  show (s.device? name).bind (fun d => d.child? sub.name) = some sub
  rw [Option.mem_def.mp hd]
  exact child?_name (device?_mem hd).1 hsub

/-- **One round** sees one more child, or ends the listing. -/
theorem wp_partitionStep {name : String} {dir : Dir} {k₀ : Kernel} {n : Nat}
    {partitions : List RawPart} (h : PartitionInv s name dir k₀ n partitions k) :
    (kernel s).wp (partitionStep name (Path.sysBlock.join name) dir partitions) (fun r t => r.elim
      (fun partitions' => ∃ m < n, PartitionInv s name dir k₀ m partitions' t)
      (fun result => t.budget ≤ k₀.budget ∧ (∃ stream, t.streams = (dir, stream) :: k₀.streams)
        ∧ Came t result (PartitionsFound s name))) k := by
  obtain ⟨children, due, hparts, hn, hbudget, hok, hstreams, hknown⟩ := h
  unfold partitionStep
  rw [wp_bind, wp_request]
  refine ⟨⟨hok, _, _, hstreams⟩, ?_⟩
  intro item k₁ hans
  match item, hans with
  | some (.error e), .broken _ => exact ⟨hbudget, ⟨_, hstreams⟩, rfl⟩
  | none, hans =>
      obtain ⟨rfl, rfl⟩ := next_ended hstreams hans
      refine ⟨hbudget, ⟨_, hstreams⟩, ?_⟩
      unfold Came
      rw [hok]
      refine ⟨partitions, rfl, children, hparts, ?_⟩
      intro d hd
      have hperm := hknown d hd
      rw [List.append_nil] at hperm
      exact hperm
  | some (.ok pname), hans =>
      obtain ⟨hok₁, hcase⟩ := next_listed hstreams hok hans
      dsimp only
      rw [wp_bind]
      refine wp_mono (wp_partitionItem name partitions pname hok₁) ?_
      intro partitions' k₂ hitem
      obtain ⟨rfl, seen, hname, hseen, hpartitions⟩ := hitem
      have hparts' : partitions' = partsOf name (children ++ [seen]) := by
        rw [partsOf_append, ← hparts]
        exact hpartitions
      rcases hcase with ⟨front, sub, back, rfl, hsub, hb, hs⟩ | ⟨hstray, hb, hs⟩
      · -- a known child is no longer due
        refine ⟨(front ++ back).length + k₂.budget, ?_, children ++ [seen], front ++ back, hparts',
          rfl, by omega, hok₁, hs, ?_⟩
        · rw [hn, List.length_append, List.length_append, List.length_cons]
          omega
        · intro d hd
          have hperm := hknown d hd
          have hmem : sub ∈ d.children := hperm.subset (by simp)
          have hchild := child?_device hd hmem
          rw [hsub] at hchild
          rw [hseen sub hchild, List.append_assoc]
          have hmove : (sub :: (front ++ back)).Perm (front ++ sub :: back) :=
            List.perm_middle.symm
          exact (List.Perm.append_left children hmove).trans hperm
      · -- the disk is not a steady one
        have hdevice : s.device? name = none := hstray
        refine ⟨due.length + k₂.budget, by omega, children ++ [seen], due, hparts', rfl, by omega,
          hok₁, hs.trans hstreams, ?_⟩
        intro d hd
        rw [hdevice] at hd
        exact absurd hd (by simp)

/-- How many items of steady directories there are at most. -/
def Steady.weight (s : Steady) : Nat :=
  s.devices.length + (s.devices.map (fun d => d.children.length)).sum

theorem children_le_weight {name : String} {d : Directory} (h : s.device? name = some d) :
    d.children.length ≤ s.weight := by
  have hmem : d.children.length ∈ s.devices.map (fun d => d.children.length) :=
    List.mem_map_of_mem (device?_mem h).1
  have hle := List.le_sum_of_mem hmem
  unfold Steady.weight
  omega

/-- **One disk's directory**, opened, listed and closed. -/
theorem wp_readPartitions (name : String) {fuel : Nat} (hfuel : s.weight + k.budget < fuel)
    (hok : k.failure = none) (hroom : k.streams.length < 2) :
    (kernel s).wp (readPartitions fuel name (Path.sysBlock.join name))
      (fun r t => t.budget ≤ k.budget ∧ t.streams = k.streams
        ∧ ∃ result, r = some result ∧ Came t result (PartitionsFound s name)) k := by
  unfold readPartitions
  rw [wp_bind, wp_request]
  refine ⟨⟨hok, hroom⟩, ?_⟩
  intro opened k₁ hans
  cases hans with
  | unopened e => exact ⟨Nat.le_refl _, rfl, _, rfl, rfl⟩
  | @opened _ dir hfresh =>
      let due : List SubEntry := ((s.device? name).map Directory.children).getD []
      have hlen : due.length + k.budget < fuel := by
        have hdue : due.length ≤ s.weight := by
          cases hd : s.device? name with
          | none =>
              simp only [due, hd, Option.map_none, Option.getD_none, List.length_nil, Nat.zero_le]
          | some d =>
              simp only [due, hd, Option.map_some, Option.getD_some]
              exact children_le_weight hd
        omega
      have hinv : PartitionInv s name dir k (due.length + k.budget) []
          { k with streams :=
              (dir, { path := Path.sysBlock.join name, due := due.map SubEntry.name })
                :: k.streams } := by
        refine ⟨[], due, rfl, rfl, Nat.le_refl _, hok, rfl, ?_⟩
        intro d hd
        simp only [due, Option.mem_def.mp hd, Option.map_some, Option.getD_some, List.nil_append]
        exact List.Perm.refl _
      rw [wp_bind]
      refine wp_mono (wp_iterate (PartitionInv s name dir k) (fun _ _ _ => wp_partitionStep)
        fuel _ _ _ hlen hinv) ?_
      intro r k₂ hr
      obtain ⟨result, rfl, hbudget, ⟨stream, hstreams⟩, hcame⟩ := hr
      rw [wp_bind, wp_request]
      refine ⟨⟨stream, _, hstreams⟩, ?_⟩
      intro u k₃ hans₃
      cases hans₃ with
      | @closed _ stream' rest hclosed =>
          rw [hstreams] at hclosed
          injection hclosed with _ hrest
          exact ⟨hbudget, hrest.symm, result, rfl, hcame⟩

/-! ## §9. The disks. -/

/-- A steady device as the walk sees it: its children in the order of the listing. -/
def Reading (d dir : Directory) : Prop :=
  dir = { d with children := dir.children } ∧ dir.children.Perm d.children

/-- Each steady device is still due, or has been seen, once. -/
def Accounts (s : Steady) (seen due : List Directory) : Prop :=
  ∀ d ∈ s.devices,
    (d ∈ due ∧ seen.filter (fun dir => dir.name = d.name) = [])
    ∨ d ∉ due ∧ ∃ dir, seen.filter (fun dir => dir.name = d.name) = [dir] ∧ Reading d dir

theorem name_of_reading {d dir : Directory} (h : Reading d dir) : dir.name = d.name := by
  rw [h.1]

theorem filter_append_other {seen : List Directory} {d dir : Directory} (h : dir.name ≠ d.name) :
    (seen ++ [dir]).filter (fun dir => dir.name = d.name)
      = seen.filter (fun dir => dir.name = d.name) := by
  rw [List.filter_append, List.filter_singleton, decide_eq_false h]
  exact List.append_nil _

theorem filter_append_own {seen : List Directory} {d dir : Directory} (h : dir.name = d.name)
    (hnone : seen.filter (fun dir => dir.name = d.name) = []) :
    (seen ++ [dir]).filter (fun dir => dir.name = d.name) = [dir] := by
  rw [List.filter_append, hnone, List.filter_singleton, decide_eq_true h]
  rfl

/-- A steady device is seen. -/
theorem Accounts.known {seen front back : List Directory} {d dir : Directory}
    (h : Accounts s seen (front ++ d :: back))
    (hnodup : ((front ++ d :: back).map Directory.name).Nodup) (hd : d ∈ s.devices)
    (hread : Reading d dir) : Accounts s (seen ++ [dir]) (front ++ back) := by
  have hperm : (front ++ d :: back).Perm (d :: (front ++ back)) := List.perm_middle
  have hout : d ∉ front ++ back :=
    (List.nodup_cons.mp (hperm.nodup_iff.mp hnodup.of_map)).1
  intro e he
  by_cases hed : e = d
  · rw [hed]
    right
    refine ⟨hout, dir, ?_, hread⟩
    cases h d hd with
    | inl hdue => exact filter_append_own (name_of_reading hread) hdue.2
    | inr hseen => exact absurd (by simp) hseen.1
  · -- another device is not affected
    have hname : dir.name ≠ e.name := by
      intro heq
      rw [name_of_reading hread] at heq
      exact hed (List.inj_on_of_nodup_map s.distinct he hd heq.symm)
    have hmem : e ∈ front ++ back ↔ e ∈ front ++ d :: back := by
      rw [hperm.mem_iff, List.mem_cons]
      exact (or_iff_right hed).symm
    rw [filter_append_other hname, hmem]
    exact h e he

/-- Another device is seen. -/
theorem Accounts.other {seen due : List Directory} {dir : Directory} (h : Accounts s seen due)
    (hnone : s.device? dir.name = none) : Accounts s (seen ++ [dir]) due := by
  intro e he
  have hname : dir.name ≠ e.name := (device?_eq_none_iff.mp hnone e he).symm
  rw [filter_append_other hname]
  exact h e he

/-- **The attributes** of a disk are read as they are known. -/
theorem wp_readDisk (name : String) (children : List SubEntry) (hk : k.failure = none) :
    (kernel s).wp (readDisk name (Path.sysBlock.join name) (partsOf name children))
      (fun r t => t = k ∧ ∃ dir : Directory, dir.name = name ∧ dir.children = children
        ∧ r = dir.raw ∧ ∀ d ∈ s.device? name, dir = { d with children := children }) k := by
  unfold readDisk
  rw [wp_bind]
  apply wp_readAttrAt hk
  intro size hsize
  rw [wp_bind]
  apply wp_readAttrAt hk
  intro removable hremovable
  rw [wp_bind]
  apply wp_readAttrAt hk
  intro ro hro
  rw [wp_bind]
  apply wp_readAttrAt hk
  intro logical hlogical
  rw [wp_bind]
  apply wp_readAttrAt hk
  intro physical hphysical
  rw [wp_bind, wp_request]
  refine ⟨hk, ?_⟩
  intro model k₁ hans
  cases hans with
  | read hmodel =>
      refine ⟨rfl, { name, children, size, removable, ro, logical, physical, model }, rfl, rfl,
        rfl, ?_⟩
      intro d hd
      have hfile : ∀ rel, s.file ((Path.sysBlock.join name).join rel) = d.file rel := by
        intro rel
        show (s.device? name).bind (fun d => d.file rel) = _
        rw [Option.mem_def.mp hd]
        rfl
      rw [hsize d.size (hfile _), hremovable d.removable (hfile _), hro d.ro (hfile _),
        hlogical d.logical (hfile _), hphysical d.physical (hfile _), hmodel d.model (hfile _),
        ← (device?_mem hd).2]

/-- Before a round: the directories seen and the steady devices still due. -/
def DiskInv (s : Steady) (dir : Dir) (budget n : Nat) (raw : List RawDisk) (k : Kernel) : Prop :=
  ∃ seen due : List Directory, raw = rawsOf seen ∧ n = due.length + k.budget
    ∧ k.budget ≤ budget ∧ k.failure = none
    ∧ k.streams = [(dir, { path := .sysBlock, due := due.map Directory.name })]
    ∧ (due.map Directory.name).Nodup ∧ (∀ d ∈ due, d ∈ s.devices) ∧ Accounts s seen due

/-- What `/sys/block` is read as. -/
def DisksFound (s : Steady) (raw : List RawDisk) : Prop :=
  ∃ seen, raw = rawsOf seen ∧ Accounts s seen []

/-- What has become of one item: a directory more, or the end of the walk. -/
def ItemDone (s : Steady) (raw : List RawDisk) (name : String)
    (r : List RawDisk ⊕ Option (Except Error (List RawDisk))) (t : Kernel) : Prop :=
  match t.failure with
  | none => ∃ dir : Directory, dir.name = name ∧ (∀ d ∈ s.device? name, Reading d dir)
      ∧ r = .inl (raw ++ if isVirtual name then [] else [dir.raw])
  | some e => r = .inr (some (.error (.io e)))

/-- **One item of `/sys/block`.** -/
theorem wp_diskItem {fuel : Nat} (raw : List RawDisk) (name : String)
    (hfuel : s.weight + k.budget < fuel) (hok : k.failure = none) (hroom : k.streams.length < 2) :
    (kernel s).wp (diskItem fuel raw name)
      (fun r t => t.budget ≤ k.budget ∧ t.streams = k.streams ∧ ItemDone s raw name r t) k := by
  unfold diskItem
  by_cases hvirtual : isVirtual name = true
  · -- a RAM disk is passed over unread
    rw [if_pos hvirtual, wp_pure]
    refine ⟨Nat.le_refl _, rfl, ?_⟩
    unfold ItemDone
    rw [hok]
    simp only [if_pos hvirtual, List.append_nil]
    cases hd : s.device? name with
    | none =>
        have hread : ∀ d ∈ (none : Option Directory), Reading d
            { name, children := [], size := .error .notFound, removable := .error .notFound,
              ro := .error .notFound, logical := .error .notFound, physical := .error .notFound,
              model := .error .notFound } := by
          intro d hd'
          exact absurd hd' (by simp)
        exact ⟨_, rfl, hread, trivial⟩
    | some d =>
        refine ⟨d, (device?_mem hd).2, ?_, trivial⟩
        intro d' hd'
        injection hd' with hd'
        rw [← hd']
        exact ⟨rfl, List.Perm.refl _⟩
  · rw [if_neg hvirtual, wp_bind]
    refine wp_mono (wp_readPartitions name hfuel hok hroom) ?_
    intro r k₁ hr
    obtain ⟨hbudget, hstreams, result, rfl, hcame⟩ := hr
    unfold Came at hcame
    cases hfail : k₁.failure with
    | some e =>
        rw [hfail] at hcame
        rw [hcame]
        refine ⟨hbudget, hstreams, ?_⟩
        unfold ItemDone
        rw [hfail]
    | none =>
        rw [hfail] at hcame
        obtain ⟨partitions, rfl, children, rfl, hperm⟩ := hcame
        dsimp only
        rw [wp_bind]
        refine wp_mono (wp_readDisk name children hfail) ?_
        intro disk k₂ hdisk
        obtain ⟨rfl, dir, hname, hchildren, rfl, hread⟩ := hdisk
        refine ⟨hbudget, hstreams, ?_⟩
        unfold ItemDone
        rw [hfail]
        refine ⟨dir, hname, ?_, by rw [if_neg hvirtual]⟩
        intro d hd
        exact ⟨hchildren ▸ hread d hd, hchildren ▸ hperm d hd⟩

/-- **One round** sees one more directory, or ends the walk. -/
theorem wp_diskStep {dir : Dir} {fuel budget n : Nat} {raw : List RawDisk}
    (hfuel : s.weight + budget < fuel) (h : DiskInv s dir budget n raw k) :
    (kernel s).wp (diskStep fuel dir raw) (fun r t => r.elim
      (fun raw' => ∃ m < n, DiskInv s dir budget m raw' t)
      (fun walked => (∃ stream, t.streams = [(dir, stream)])
        ∧ ∃ result, walked = some result ∧ Came t result (DisksFound s))) k := by
  obtain ⟨seen, due, hraw, hn, hbudget, hok, hstreams, hnodup, hdue, haccounts⟩ := h
  unfold diskStep
  rw [wp_bind, wp_request]
  refine ⟨⟨hok, _, _, hstreams⟩, ?_⟩
  intro item k₁ hans
  match item, hans with
  | some (.error e), .broken _ => exact ⟨⟨_, hstreams⟩, _, rfl, rfl⟩
  | none, hans =>
      obtain ⟨rfl, rfl⟩ := next_ended hstreams hans
      refine ⟨⟨_, hstreams⟩, _, rfl, ?_⟩
      unfold Came
      rw [hok]
      exact ⟨raw, rfl, seen, hraw, haccounts⟩
  | some (.ok name), hans =>
      obtain ⟨hok₁, hcase⟩ := next_listed hstreams hok hans
      have hk₁ : k₁.budget ≤ k.budget ∧ k₁.streams.length < 2 := by
        rcases hcase with ⟨front, d, back, _, _, hb, hs⟩ | ⟨_, hb, hs⟩
        · rw [hs]
          exact ⟨Nat.le_of_eq hb, Nat.lt_add_one 1⟩
        · rw [hs, hstreams]
          exact ⟨by omega, Nat.lt_add_one 1⟩
      refine wp_mono (wp_diskItem raw name (by omega) hok₁ hk₁.2) ?_
      intro r k₂ hr
      obtain ⟨hbudget₂, hstreams₂, hdone⟩ := hr
      unfold ItemDone at hdone
      cases hfail : k₂.failure with
      | some e =>
          rw [hfail] at hdone
          rw [hdone]
          refine ⟨?_, _, rfl, ?_⟩
          · rcases hcase with ⟨front, d, back, _, _, _, hs⟩ | ⟨_, _, hs⟩
            · exact ⟨_, hstreams₂.trans hs⟩
            · exact ⟨_, hstreams₂.trans (hs.trans hstreams)⟩
          · unfold Came
            rw [hfail]
      | none =>
          rw [hfail] at hdone
          obtain ⟨seen₁, hname, hread, rfl⟩ := hdone
          have hraw₁ : raw ++ (if isVirtual name then [] else [seen₁.raw])
              = rawsOf (seen ++ [seen₁]) := by
            rw [rawsOf_append, hname, hraw]
          rcases hcase with ⟨front, d, back, rfl, hd, hb, hs⟩ | ⟨hnone, hb, hs⟩
          · -- a steady device is no longer due
            have hmem : d ∈ s.devices := hdue d (by simp)
            have hreading : Reading d seen₁ := by
              apply hread
              rw [← hd]
              exact device?_name hmem
            have hsub : (front ++ back).Sublist (front ++ d :: back) :=
              List.Sublist.append_left (List.sublist_cons_self d back) front
            refine ⟨(front ++ back).length + k₂.budget, ?_, seen ++ [seen₁], front ++ back, hraw₁,
              rfl, by omega, hfail, hstreams₂.trans hs, hnodup.sublist (hsub.map _), ?_,
              haccounts.known hnodup hmem hreading⟩
            · rw [hn, List.length_append, List.length_append, List.length_cons]
              omega
            · intro e he
              exact hdue e (hsub.subset he)
          · -- some other device
            refine ⟨due.length + k₂.budget, by omega, seen ++ [seen₁], due, hraw₁, rfl, by omega,
              hfail, hstreams₂.trans (hs.trans hstreams), hnodup, hdue, ?_⟩
            apply haccounts.other
            rw [hname]
            exact hnone

/-! ## §10. The whole walk. -/

/-- **The calls compute `enumerate`** of the directories the walk has seen, or end with the
    directory error met. -/
theorem wp_enumerate (s : Steady) (budget : Nat) {fuel : Nat} (hfuel : s.weight + budget < fuel) :
    (kernel s).wp (enumerate fuel) (fun r t => t.streams = [] ∧ ∃ result, r = some result
      ∧ Came t result (fun disks => ∃ seen, Linux.enumerate (hostOf seen s.mounts) = .ok disks
          ∧ Accounts s seen [])) (Kernel.initial budget) := by
  unfold enumerate
  rw [wp_bind, wp_request]
  refine ⟨⟨rfl, Nat.zero_lt_succ 1⟩, ?_⟩
  intro opened k₁ hans
  cases hans with
  | unopened e => exact ⟨rfl, _, rfl, rfl⟩
  | @opened _ dir hfresh =>
      have hlen : s.devices.length + budget < fuel := by
        unfold Steady.weight at hfuel
        omega
      have hinv : DiskInv s dir budget (s.devices.length + budget) []
          { streams := [(dir, { path := .sysBlock, due := s.devices.map Directory.name })]
            budget := budget
            failure := none } := by
        refine ⟨[], s.devices, rfl, rfl, Nat.le_refl _, rfl, rfl, s.distinct, fun _ hd => hd, ?_⟩
        intro d hd
        exact .inl ⟨hd, rfl⟩
      rw [wp_bind]
      refine wp_mono (wp_iterate (DiskInv s dir budget) (fun _ _ _ => wp_diskStep hfuel)
        fuel _ _ _ hlen hinv) ?_
      intro r k₂ hr
      obtain ⟨walked, rfl, ⟨stream, hstreams⟩, result, rfl, hcame⟩ := hr
      rw [wp_bind, wp_request]
      refine ⟨⟨stream, _, hstreams⟩, ?_⟩
      intro u k₃ hans₃
      cases hans₃ with
      | @closed _ stream' rest hclosed =>
          rw [hstreams] at hclosed
          injection hclosed with _ hrest
          unfold Came at hcame
          cases hfail : k₂.failure with
          | some e =>
              rw [hfail] at hcame
              rw [hcame]
              exact ⟨hrest.symm, _, rfl, rfl⟩
          | none =>
              rw [hfail] at hcame
              obtain ⟨raw, rfl, seen, rfl, haccounts⟩ := hcame
              show (kernel s).wp (readAttrAt .procMounts >>= _) _ _
              rw [wp_bind]
              apply wp_readAttrAt rfl
              intro f hf
              rw [hf s.mounts rfl]
              exact ⟨hrest.symm, _, rfl, _, rfl, seen, enumerate_hostOf seen s.mounts, haccounts⟩

/-- The disk of a steady device. -/
def Steady.disk (s : Steady) (d : Directory) : PhysicalDisk :=
  buildDisk (parseMounts (readAttr s.mounts)) d.raw

/-- What a listing has to say of the steady devices, whatever else it holds. -/
structure Faithful (s : Steady) (disks : List PhysicalDisk) : Prop where
  /-- Each is listed once, as it is. -/
  listed : ∀ d ∈ s.devices, isVirtual d.name = false →
    ∃ disk, disks.filter (fun x => x.name = d.name) = [disk]
      ∧ disk = { s.disk d with partitions := disk.partitions }
      ∧ disk.partitions.Perm (s.disk d).partitions
      ∧ disk.partitions.Pairwise (fun p q => p.startOffset.toNat ≤ q.startOffset.toNat)
  /-- No RAM disk is. -/
  no_virtual : ∀ disk ∈ disks, isVirtual disk.name = false
  by_name : disks.Pairwise (fun d e => d.name ≤ e.name)

/-- The order of a directory's listing shows in the order of equal offsets at most. -/
theorem disk_of_reading {mounts : List (String × String × String)} {d dir : Directory}
    (h : Reading d dir) :
    buildDisk mounts dir.raw
        = { buildDisk mounts d.raw with partitions := (buildDisk mounts dir.raw).partitions }
      ∧ (buildDisk mounts dir.raw).partitions.Perm (buildDisk mounts d.raw).partitions := by
  obtain ⟨heq, hperm⟩ := h
  constructor
  · rw [heq]
    rfl
  · have hparts : (partsOf d.name dir.children).Perm (partsOf d.name d.children) :=
      (hperm.filter _).map _
    have hname : dir.name = d.name := by rw [heq]
    refine (sortByKey_perm _ _).trans (List.Perm.trans ?_ (sortByKey_perm _ _).symm)
    show ((partsOf dir.name dir.children).map (buildPartition mounts)).Perm _
    rw [hname]
    exact hparts.map _

/-- **What is listed of what was seen.** -/
theorem faithful_of_accounts {seen : List Directory} (h : Accounts s seen []) :
    Faithful s (build (rawsOf seen) (readAttr s.mounts)) where
  listed d hd hvirtual := by
    cases h d hd with
    | inl hdue => exact absurd hdue.1 List.not_mem_nil
    | inr hseen =>
        obtain ⟨_, dir, hone, hread⟩ := hseen
        refine ⟨buildDisk (parseMounts (readAttr s.mounts)) dir.raw, ?_, (disk_of_reading hread).1,
          (disk_of_reading hread).2, sortByKey_pairwise _ _⟩
        -- by name, the listing is what was seen under that name
        have hfilter : (rawsOf seen).filter (fun r => r.name = d.name) = [dir.raw] := by
          have hcomm : (rawsOf seen).filter (fun r => r.name = d.name)
              = ((seen.filter (fun x => x.name = d.name)).filter
                  (fun x => !isVirtual x.name)).map Directory.raw := by
            unfold rawsOf
            rw [List.filter_map, List.filter_comm]
            rfl
          have hreal : isVirtual dir.name = false := by
            rw [name_of_reading hread]
            exact hvirtual
          rw [hcomm, hone, List.filter_singleton, hreal]
          rfl
        unfold build
        rw [sortByKey_filter_key PhysicalDisk.name, List.filter_map]
        show ((rawsOf seen).filter (fun r => r.name = d.name)).map _ = _
        rw [hfilter]
        rfl
  no_virtual disk hdisk := by
    have hmem := (mem_sortByKey).mp hdisk
    obtain ⟨raw, hraw, rfl⟩ := List.mem_map.mp hmem
    obtain ⟨dir, hdir, rfl⟩ := List.mem_map.mp hraw
    have hreal := (List.mem_filter.mp hdir).2
    rw [Bool.not_eq_true'] at hreal
    exact hreal
  by_name := sortByKey_pairwise _ _

/-- The kernel answers whatever it accepts. -/
theorem kernel_responsive (s : Steady) : (kernel s).Responsive := by
  intro k c hacc
  cases c with
  | readDir path => exact ⟨_, _, .unopened .notFound⟩
  | next dir => exact ⟨_, _, .broken .notFound⟩
  | pathExists path =>
      refine ⟨(s.present path).getD false, k, .present ?_⟩
      intro b hb
      rw [Option.mem_def.mp hb, Option.getD_some]
  | readFile path =>
      refine ⟨(s.file path).getD (.error .notFound), k, .read ?_⟩
      intro f hf
      rw [Option.mem_def.mp hf, Option.getD_some]
  | closeDir dir =>
      obtain ⟨stream, rest, hstreams⟩ := hacc
      exact ⟨(), _, .closed hstreams⟩

/-- **WHATEVER COMES AND GOES.**  While other devices are plugged in and pulled between any two
    calls: every run closes what it opened, and either ends with the directory error it met or
    lists every steady device once, as it is. -/
theorem enumerate_meets_hotplug (s : Steady) (budget spare : Nat) :
    (kernel s).Meets (enumerate (s.weight + budget + 1 + spare)) (Kernel.initial budget)
      (fun r t => t.streams = [] ∧ ∃ result, r = some result ∧ Came t result (Faithful s)) := by
  apply Environment.Meets.of_wp (kernel_responsive s)
  have hfuel : s.weight + budget < s.weight + budget + 1 + spare := by omega
  refine wp_mono (wp_enumerate s budget hfuel) ?_
  intro r t hr
  obtain ⟨hclosed, result, hresult, hcame⟩ := hr
  refine ⟨hclosed, result, hresult, hcame.mono ?_⟩
  intro disks hseen
  obtain ⟨seen, henum, haccounts⟩ := hseen
  rw [enumerate_hostOf] at henum
  injection henum with hdisks
  exact hdisks ▸ faithful_of_accounts haccounts

/-- `sda` with its `queue` directory and one partition. -/
def oneDirectory : Directory :=
  { name := "sda"
    children :=
      [ { name := "queue", hasPartitionFile := false
          size := .error .notFound, start := .error .notFound },
        { name := "sda1", hasPartitionFile := true
          size := .ok (utf8Bytes "1024\n"), start := .ok (utf8Bytes "2048\n") } ]
    size := .ok (utf8Bytes "8192\n")
    removable := .ok (utf8Bytes "1\n")
    ro := .ok (utf8Bytes "0\n")
    logical := .ok (utf8Bytes "512\n")
    physical := .ok (utf8Bytes "4096\n")
    model := .error .notFound }

/-- It stays plugged in, and its partition mounted. -/
def steadyDisk : Steady :=
  { devices := [oneDirectory]
    mounts := .ok (utf8Bytes "/dev/sda1 /mnt ext4 rw 0 0\n")
    distinct := by decide
    children_distinct := by
      intro d hd
      rw [List.mem_singleton.mp hd]
      decide }

/-- What has to be listed of it. -/
def listedDisk : PhysicalDisk :=
  { devicePath := "/dev/sda"
    name := "sda"
    sizeBytes := 4194304
    logicalSectorSize := 512
    physicalSectorSize := 4096
    model := none
    serial := none
    removable := true
    readOnly := false
    synthesized := false
    partitions :=
      [{ devicePath := "/dev/sda1"
         name := "sda1"
         startOffset := 1048576
         sizeBytes := 524288
         partitionType := none
         mountPoint := some "/mnt"
         filesystem := some "ext4"
         label := none }] }

theorem disk_oneDirectory : steadyDisk.disk oneDirectory = listedDisk := by decide

/-- A faithful listing has the disk exactly once, with its partition. -/
theorem listed_steadyDisk {disks : List PhysicalDisk} (h : Faithful steadyDisk disks) :
    disks.filter (fun x => x.name = "sda") = [listedDisk] := by
  obtain ⟨disk, hone, heq, hperm, _⟩ := h.listed oneDirectory List.mem_cons_self (by decide)
  rw [disk_oneDirectory] at heq hperm
  rw [List.perm_singleton.mp hperm] at heq
  have hdisk : disk = listedDisk := heq
  rw [hdisk] at hone
  exact hone

/-- While five other items turn up, it is listed. -/
theorem enumerate_meets_hotplug_disk :
    (kernel steadyDisk).Meets (enumerate 9) (Kernel.initial 5)
      (fun r t => t.streams = [] ∧ ∃ result, r = some result
        ∧ Came t result (fun disks => disks.filter (fun x => x.name = "sda") = [listedDisk])) := by
  refine (enumerate_meets_hotplug steadyDisk 5 0).mono ?_
  intro r t hend
  obtain ⟨hclosed, result, hresult, hcame⟩ := hend
  exact ⟨hclosed, result, hresult, hcame.mono (fun _ hfaithful => listed_steadyDisk hfaithful)⟩

end LivediskForensic.Linux.Calls
