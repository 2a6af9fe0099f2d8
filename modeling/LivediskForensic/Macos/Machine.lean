/-
  LivediskForensic.Macos.Machine — THE REGISTRY'S SIDE of the walk, and the
  round trip through it.

  A medium is what the kernel knows of one `IOMedia` node; `Medium.entry`
  publishes it as a dictionary of typed properties, among any others.  Between
  the media stand entries that yield none: without a dictionary, or without a
  name.

      mediaOf_entry           — a dictionary is read back to its medium
      enumerate_meets_machine — every run of the walk ends with the machine's
                                disks
-/
import LivediskForensic.Macos.Ffi

namespace LivediskForensic.Macos

open LivediskForensic.Lib
open LivediskForensic.Macos.Ffi

/-! ## §1. What the kernel knows. -/

/-- A number of bytes that a `CFNumber` gives back as an `i64`. -/
abbrev Bytes := {n : Nat // n < 2 ^ 63}

/-- One `IOMedia` node. -/
structure Medium where
  bsd : String
  size : Bytes
  block : UInt32
  base : Bytes
  whole : Bool
  removable : Bool
  writable : Bool
  /-- Published as a string, if at all. -/
  content : Option String
  className : Option String
  /-- Every other property. -/
  others : String → Option CFValue
  block_ne : block ≠ 0
  /-- Without a content string there is none of another type. -/
  content_absent : content = none → (others "Content").bind CFValue.string? = none

/-- An entry that yields no medium. -/
def Nameless (e : Entry) : Prop :=
  ∀ props, e.properties = some props → (props "BSD Name").bind CFValue.string? = none

/-! ## §2. How it appears in the registry. -/

/-- The dictionary. -/
def Medium.properties (m : Medium) (key : String) : Option CFValue :=
  if key = "BSD Name" then some (.string m.bsd)
  else if key = "Size" then some (.number (some (Int64.ofNat m.size.val)))
  else if key = "Preferred Block Size" then some (.number (some (Int64.ofNat m.block.toNat)))
  else if key = "Base" then some (.number (some (Int64.ofNat m.base.val)))
  else if key = "Whole" then some (.boolean m.whole)
  else if key = "Removable" then some (.boolean m.removable)
  else if key = "Writable" then some (.boolean m.writable)
  else if key = "Content" then (m.content.map CFValue.string).or (m.others key)
  else m.others key

def Medium.entry (m : Medium) : Entry :=
  { properties := some m.properties, className := m.className }

/-- The record the walk has to come to. -/
def Medium.raw (m : Medium) : RawMedia :=
  { bsd := m.bsd
    size := UInt64.ofNat m.size.val
    block := m.block
    base := UInt64.ofNat m.base.val
    whole := m.whole
    removable := m.removable
    writable := m.writable
    content := m.content.getD ""
    className := m.className.getD "" }

/-- A machine: the registry's entries, in the iterator's order. -/
structure Machine where
  entries : List (Medium ⊕ {e : Entry // Nameless e})

def Machine.media (m : Machine) : List Medium := m.entries.filterMap Sum.getLeft?

/-- The registry of a machine. -/
def Machine.registry (m : Machine) : Registry :=
  { matching := true
    services := .ok (m.entries.map (fun entry => entry.elim Medium.entry Subtype.val)) }

/-! ## §3. One entry read back. -/

/-- A number within the bounds is not clamped. -/
theorem toUInt64_max {n bound : Nat} (hn : n < 2 ^ 63) (hb : bound ≤ n) :
    (max (Int64.ofNat n) (Int64.ofNat bound)).toUInt64 = UInt64.ofNat n := by
  have hmax : max (Int64.ofNat n) (Int64.ofNat bound) = Int64.ofNat n := by
    show (if Int64.ofNat n ≤ Int64.ofNat bound then Int64.ofNat bound else Int64.ofNat n) = _
    by_cases hle : Int64.ofNat n ≤ Int64.ofNat bound
    · have hint := Int64.le_iff_toInt_le.mp hle
      rw [Int64.toInt_ofNat_of_lt hn, Int64.toInt_ofNat_of_lt (by omega)] at hint
      rw [if_pos hle, show bound = n by omega]
    · rw [if_neg hle]
  rw [hmax, Int64.toUInt64_ofNat']

theorem toUInt32_block {n : UInt32} (h : n ≠ 0) :
    (max (Int64.ofNat n.toNat) 1).toUInt64.toUInt32 = n := by
  have hlt := n.toNat_lt
  have hpos : n.toNat ≠ 0 := fun hz => h (UInt32.toNat_inj.mp hz)
  have hmax : (max (Int64.ofNat n.toNat) (Int64.ofNat 1)).toUInt64 = UInt64.ofNat n.toNat :=
    toUInt64_max (by omega) (by omega)
  show (max (Int64.ofNat n.toNat) (Int64.ofNat 1)).toUInt64.toUInt32 = n
  rw [hmax, ← UInt32.toNat_inj, UInt64.toNat_toUInt32, UInt64.toNat_ofNat']
  omega

/-- The content string is there or it is not. -/
theorem string_content (m : Medium) :
    (m.properties "Content").bind CFValue.string? = m.content := by
  show ((m.content.map CFValue.string).or (m.others "Content")).bind CFValue.string? = _
  cases hc : m.content with
  | none => exact m.content_absent hc
  | some content => rfl

/-- **One dictionary read back.** -/
theorem mediaOf_entry (m : Medium) : mediaOf m.entry = some m.raw := by
  have hsize : (max (Int64.ofNat m.size.val) 0).toUInt64 = UInt64.ofNat m.size.val :=
    toUInt64_max m.size.property (Nat.zero_le _)
  have hbase : (max (Int64.ofNat m.base.val) 0).toUInt64 = UInt64.ofNat m.base.val :=
    toUInt64_max m.base.property (Nat.zero_le _)
  show mediaOfProperties m.properties m.className = some m.raw
  unfold mediaOfProperties Medium.raw
  rw [string_content, ← hsize, ← hbase, ← toUInt32_block m.block_ne]
  rfl

theorem mediaOf_nameless {e : Entry} (h : Nameless e) : mediaOf e = none := by
  unfold mediaOf
  cases hp : e.properties with
  | none => rfl
  | some props =>
      show mediaOfProperties props e.className = none
      unfold mediaOfProperties
      rw [h props hp]
      rfl

/-! ## §4. The walk read back. -/

/-- The walk finds the media, and passes over the rest. -/
theorem registry_media (m : Machine) : m.registry.media = .ok (m.media.map Medium.raw) := by
  have hwalk : ∀ entries : List (Medium ⊕ {e : Entry // Nameless e}),
      (entries.map (fun entry => entry.elim Medium.entry Subtype.val)).filterMap mediaOf
        = (entries.filterMap Sum.getLeft?).map Medium.raw := by
    intro entries
    induction entries with
    | nil => rfl
    | cons entry entries ih =>
        rw [List.map_cons, List.filterMap_cons, List.filterMap_cons]
        cases entry with
        | inl medium =>
            simp only [Sum.elim_inl, mediaOf_entry, ih]
            rfl
        | inr e =>
            simp only [Sum.elim_inr, mediaOf_nameless e.property, ih]
            rfl
  unfold Registry.media Machine.registry
  rw [if_pos rfl]
  show Except.ok _ = _
  rw [hwalk]
  rfl

/-- The names of the whole media differ. -/
def Machine.Distinct (m : Machine) : Prop :=
  (((m.media.map Medium.raw).filter RawMedia.whole).map RawMedia.bsd).Nodup

/-- The disks of a machine: each whole medium with the others named after it. -/
def Machine.disks (m : Machine) : List PhysicalDisk :=
  ((m.media.map Medium.raw).filter RawMedia.whole).map (groupOf (m.media.map Medium.raw))

theorem wp_registry {m : Machine} (h : m.Distinct) {fuel : Nat}
    (hfuel : m.registry.entries.length < fuel) :
    (kernel m.registry).wp (Ffi.enumerate fuel)
      (fun r t => r = some (.ok (sortByKey (fun d => diskIndex d.name) m.disks)) ∧ t = []) [] := by
  refine wp_mono (wp_enumerate m.registry hfuel) ?_
  intro r t hr
  refine ⟨?_, hr.2⟩
  rw [hr.1, registry_media]
  show some (Except.ok (assemble _)) = _
  rw [assemble_eq_groups _ h]
  rfl

/-- **THE ROUND TRIP.**  Against the registry of any machine, in every run: the disks come back
    with their slices, in the order of their numbers, and no reference is kept. -/
theorem enumerate_meets_machine (m : Machine) (h : m.Distinct) (spare : Nat) :
    (kernel m.registry).Meets (Ffi.enumerate (m.registry.entries.length + 1 + spare)) []
      (fun r t => r = some (.ok (sortByKey (fun d => diskIndex d.name) m.disks)) ∧ t = []) :=
  .of_wp (kernel_responsive m.registry) (wp_registry h (by omega))

/-- A stick of 2 MiB with one slice, which the iterator yields first. -/
def stick : Machine :=
  let medium (bsd : String) (whole : Bool) (base size : Bytes) : Medium :=
    { bsd := bsd
      size := size
      block := 512
      base := base
      whole := whole
      removable := true
      writable := true
      content := none
      className := some "IOMedia"
      others := fun _ => none
      block_ne := by decide
      content_absent := fun _ => rfl }
  { entries :=
      [.inl (medium "disk4s1" false ⟨1048576, by decide⟩ ⟨524288, by decide⟩),
       .inl (medium "disk4" true ⟨0, by decide⟩ ⟨2097152, by decide⟩)] }

theorem stick_distinct : stick.Distinct := by
  show (_ : List String).Nodup
  decide

theorem enumerate_meets_machine_stick :
    stick.Distinct ∧ (kernel stick.registry).Meets (Ffi.enumerate 3) []
      (fun r t => r = some (.ok (sortByKey (fun d => diskIndex d.name) stick.disks)) ∧ t = []) :=
  ⟨stick_distinct, enumerate_meets_machine stick stick_distinct 0⟩

end LivediskForensic.Macos
