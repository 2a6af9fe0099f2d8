/-
  LivediskForensic.Linux.Enumerate — `core/src/linux.rs`: the walk of
  `/sys/block`.

  The file system is an input (`Host`): what each `read_dir`, each directory
  item and each file read yields, success or failure.  `enumerate` runs the
  source's loops over it, stopping where the source's `?` stops.

      readEntries_isOk_iff  — the walk succeeds exactly when every item it
                              looks into can be listed
      readEntries_names     — a successful walk has one record per
                              non-virtual entry, in the order of the listing
-/
import LivediskForensic.Linux.Sysfs

namespace LivediskForensic.Linux

open LivediskForensic.Sysfs

/-! ## §1. What the file system answers. -/

/-- One item of `/sys/block/<disk>`. -/
structure SubEntry where
  name : String
  /-- Whether `<item>/partition` exists. -/
  hasPartitionFile : Bool
  size : FileRead
  start : FileRead

/-- One item of `/sys/block`. -/
structure BlockEntry where
  /-- Any string: that a directory lists no name twice, and none with a slash, is not used. -/
  name : String
  /-- Listing the item's own directory. -/
  children : Except IoError (List (Except IoError SubEntry))
  size : FileRead
  removable : FileRead
  ro : FileRead
  /-- `queue/logical_block_size`. -/
  logical : FileRead
  /-- `queue/physical_block_size`. -/
  physical : FileRead
  /-- `device/model`. -/
  model : FileRead

/-- The files the backend reads. -/
structure Host where
  /-- Listing `/sys/block`. -/
  block : Except IoError (List (Except IoError BlockEntry))
  /-- Reading `/proc/mounts`. -/
  mounts : FileRead

/-! ## §2. The walk. -/

/-- Purely virtual block devices that are never imaging targets. -/
def isVirtual (name : String) : Bool :=
  "ram".toList.isPrefixOf name.toList || "zram".toList.isPrefixOf name.toList

/-- The `?` operator on an I/O result. -/
def liftIo {α : Type} (r : Except IoError α) : Except Error α :=
  match r with
  | .ok a => .ok a
  | .error e => .error (.io e)

/-- `fs::read_to_string(..).unwrap_or_default()`. -/
def readAttr (f : FileRead) : String := unwrapOrDefault (readToString f)

/-- A partition is a child named after the disk that carries a `partition` file. -/
def isPartitionDir (disk : String) (sub : SubEntry) : Bool :=
  disk.toList.isPrefixOf sub.name.toList && sub.hasPartitionFile

/-- The loop over one disk's directory. -/
def readPartitions (disk : String) :
    List (Except IoError SubEntry) → Except Error (List RawPart)
  | [] => .ok []
  | item :: items => do
      -- `?`: one item that cannot be listed ends the whole enumeration
      let sub ← liftIo item
      if isPartitionDir disk sub then
        let rest ← readPartitions disk items
        .ok ({ name := sub.name, size := readAttr sub.size, start := readAttr sub.start } :: rest)
      else
        readPartitions disk items

/-- The record of one disk, given its partitions. -/
def rawDisk (entry : BlockEntry) (partitions : List RawPart) : RawDisk :=
  { name := entry.name
    size := readAttr entry.size
    removable := readAttr entry.removable
    ro := readAttr entry.ro
    logical := readAttr entry.logical
    physical := readAttr entry.physical
    model := (readToString entry.model).toOption
    partitions := partitions }

/-- Listing one disk's own directory. -/
def readChildren (entry : BlockEntry) : Except Error (List RawPart) := do
  let items ← liftIo entry.children
  readPartitions entry.name items

/-- The loop over `/sys/block`. -/
def readEntries : List (Except IoError BlockEntry) → Except Error (List RawDisk)
  | [] => .ok []
  | item :: items => do
      let entry ← liftIo item
      if isVirtual entry.name then
        readEntries items
      else
        -- `read_dir(&base)?`: so does a disk whose own directory cannot be listed
        let partitions ← readChildren entry
        let rest ← readEntries items
        .ok (rawDisk entry partitions :: rest)

/-- The records of the whole of `/sys/block`. -/
def readSysBlock (block : Except IoError (List (Except IoError BlockEntry))) :
    Except Error (List RawDisk) := do
  let items ← liftIo block
  readEntries items

/-- Enumerate the disks of a Linux host. -/
def enumerate (host : Host) : Except Error (List PhysicalDisk) := do
  let raw ← readSysBlock host.block
  -- a failed read of the table is an empty table
  let mounts := readAttr host.mounts
  .ok (build raw mounts)

/-! ## §3. What `enumerate` returns. -/

/-- `enumerate` fails exactly where the walk fails, and never on the mount table. -/
theorem enumerate_eq_ok_iff {host : Host} {disks : List PhysicalDisk} :
    enumerate host = .ok disks
      ↔ ∃ raw, readSysBlock host.block = .ok raw ∧ disks = build raw (readAttr host.mounts) := by
  unfold enumerate
  cases h : readSysBlock host.block with
  | error e =>
      show (Except.error e : Except Error _) = .ok disks ↔ _
      simp
  | ok raw =>
      show Except.ok (build raw (readAttr host.mounts)) = .ok disks ↔ _
      simp only [Except.ok.injEq]
      constructor
      · intro hd
        exact ⟨raw, rfl, hd.symm⟩
      · intro hd
        obtain ⟨raw', hraw, hd⟩ := hd
        rw [hd, hraw]

theorem enumerate_eq_error_iff {host : Host} {e : Error} :
    enumerate host = .error e ↔ readSysBlock host.block = .error e := by
  unfold enumerate
  cases h : readSysBlock host.block with
  | error e' =>
      show (Except.error e' : Except Error _) = .error e ↔ _
      simp
  | ok raw =>
      show Except.ok (build raw (readAttr host.mounts)) = .error e ↔ _
      simp

/-! ## §4. When the walk succeeds. -/

/-- A directory that can be listed to its end. -/
def Listable {α : Type} (r : Except IoError (List (Except IoError α))) : Prop :=
  ∃ items : List α, r = .ok (items.map .ok)

/-- A listing goes on past an item that is there. -/
theorem listed_ok_cons_iff {α : Type} {a : α} {items : List (Except IoError α)} :
    (∃ as : List α, .ok a :: items = as.map .ok) ↔ ∃ as : List α, items = as.map .ok := by
  constructor
  · intro h
    obtain ⟨as, h⟩ := h
    cases as with
    | nil => exact absurd h (by simp)
    | cons b as =>
        rw [List.map_cons] at h
        injection h with _ h
        exact ⟨as, h⟩
  · intro h
    obtain ⟨as, h⟩ := h
    exact ⟨a :: as, by rw [h, List.map_cons]⟩

theorem not_listed_error_cons {α : Type} {e : IoError} {items : List (Except IoError α)} :
    ¬ ∃ as : List α, .error e :: items = as.map .ok := by
  intro h
  obtain ⟨as, h⟩ := h
  cases as with
  | nil => exact absurd h (by simp)
  | cons a as => exact absurd h (by simp)

theorem readPartitions_isOk_iff (disk : String) (items : List (Except IoError SubEntry)) :
    (∃ parts, readPartitions disk items = .ok parts)
      ↔ ∃ subs : List SubEntry, items = subs.map .ok := by
  induction items with
  | nil => exact ⟨fun _ => ⟨[], rfl⟩, fun _ => ⟨[], rfl⟩⟩
  | cons item items ih =>
      cases item with
      | error e =>
          constructor
          · intro h
            obtain ⟨parts, h⟩ := h
            exact absurd h (by simp [readPartitions, liftIo, bind, Except.bind])
          · intro h
            exact absurd h not_listed_error_cons
      | ok sub =>
          -- a listed item never decides: kept or skipped, the rest has to be listed
          have hstep : (∃ parts, readPartitions disk (.ok sub :: items) = .ok parts)
              ↔ ∃ parts, readPartitions disk items = .ok parts := by
            simp only [readPartitions, liftIo, bind, Except.bind]
            cases hp : isPartitionDir disk sub with
            | false => simp
            | true => cases readPartitions disk items <;> simp
          rw [hstep, ih, listed_ok_cons_iff]

/-- A disk's directory is read exactly when it can be listed to its end. -/
theorem readChildren_isOk_iff (entry : BlockEntry) :
    (∃ parts, readChildren entry = .ok parts) ↔ Listable entry.children := by
  unfold readChildren Listable
  cases entry.children with
  | error e =>
      show (∃ parts, (Except.error (Error.io e) : Except Error _) = .ok parts) ↔ _
      simp
  | ok items =>
      show (∃ parts, readPartitions entry.name items = .ok parts) ↔ _
      rw [readPartitions_isOk_iff]
      simp

/-- **The walk of a listed `/sys/block`**: it succeeds exactly when every non-virtual entry's
own directory can be listed. -/
theorem readEntries_isOk_iff :
    ∀ entries : List BlockEntry,
      (∃ raw, readEntries (entries.map .ok) = .ok raw)
        ↔ ∀ e ∈ entries, isVirtual e.name = false → Listable e.children
  | [] => by
      constructor
      · intro _ e he
        exact absurd he (List.not_mem_nil)
      · intro _
        exact ⟨[], rfl⟩
  | e :: entries => by
      have ih := readEntries_isOk_iff entries
      rw [List.map_cons, List.forall_mem_cons, ← ih, ← readChildren_isOk_iff]
      simp only [readEntries, liftIo, bind, Except.bind]
      cases hv : isVirtual e.name with
      | true => simp
      | false =>
          cases readChildren e with
          | error err => simp
          | ok parts => cases readEntries (entries.map .ok) <;> simp

/-- **No entry is lost**: a successful walk has one record per non-virtual entry, in order. -/
theorem readEntries_names :
    ∀ (entries : List BlockEntry) (raw : List RawDisk),
      readEntries (entries.map .ok) = .ok raw →
      raw.map RawDisk.name
        = (entries.map BlockEntry.name).filter (fun name => !isVirtual name)
  | [], raw, h => by
      injection h with h
      rw [← h]
      rfl
  | e :: entries, raw, h => by
      simp only [List.map_cons, readEntries, liftIo, bind, Except.bind] at h
      rw [List.map_cons, List.filter_cons]
      cases hv : isVirtual e.name with
      | true =>
          simp only [hv, if_true] at h
          rw [readEntries_names entries raw h]
          simp
      | false =>
          simp only [hv, Bool.false_eq_true, if_false] at h
          cases hc : readChildren e with
          | error err =>
              rw [hc] at h
              exact absurd h (by simp)
          | ok parts =>
              rw [hc] at h
              cases hr : readEntries (entries.map .ok) with
              | error err =>
                  rw [hr] at h
                  exact absurd h (by simp)
              | ok rest =>
                  rw [hr] at h
                  injection h with h
                  rw [← h, List.map_cons, readEntries_names entries rest hr]
                  simp [rawDisk]

end LivediskForensic.Linux
