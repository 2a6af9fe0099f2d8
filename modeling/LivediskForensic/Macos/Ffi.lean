/-
  LivediskForensic.Macos.Ffi — `collect_media` and `read_media` of
  `core/src/macos.rs`, call by call: the walk over the `IOMedia` registry, run
  against `IOKit` and CoreFoundation.

  Every object the kernel hands out is a REFERENCE the process must give back:
  the iterator, each entry, each property dictionary, each class name.  The
  kernel here accepts a call only on references it has handed out and not yet
  taken back, only on an object of the right kind, and hands out a fifth one at
  no time.

      mediaOf         — what one registry entry is read as
      enumerate_meets_registry — with fuel for the registry's entries, every run
                        makes accepted calls only, gives every reference back,
                        and returns the assembled media
-/
import LivediskForensic.Lib.Interaction
import LivediskForensic.Macos.Assemble

namespace LivediskForensic.Macos.Ffi

open LivediskForensic.Lib

/-! ## §1. The calls. -/

/-- `io_object_t`: a Mach port name, 0 for none. -/
abbrev Port := UInt32

/-- A CoreFoundation reference, 0 for null. -/
abbrev CFRef := UInt64

/-- `kern_return_t` success sentinel. -/
def KERN_SUCCESS : Int32 := 0

/-- A property value, by the type `downcast` can give it. -/
inductive CFValue where
  /-- A `CFNumber` with its `to_i64`. -/
  | number (i64 : Option Int64)
  | boolean (b : Bool)
  | string (s : String)
  /-- Data, dates, arrays. -/
  | other
  deriving Repr, DecidableEq

/-- The foreign functions.  `cfRelease` is the `Drop` of an owned CoreFoundation value. -/
inductive Call where
  | ioServiceMatching (name : String)
  | ioServiceGetMatchingServices (matching : CFRef)
  | ioIteratorNext (iter : Port)
  | ioRegistryEntryCreateCFProperties (entry : Port)
  /-- `CFDictionary::find`. -/
  | find (dict : CFRef) (key : String)
  | ioObjectCopyClass (entry : Port)
  /-- `CFString::to_string`. -/
  | toString (string : CFRef)
  | cfRelease (ref : CFRef)
  | ioObjectRelease (object : Port)

/-- What each returns, out parameters included. -/
@[reducible] def Answer : Call → Type
  | .ioServiceMatching _ => CFRef
  | .ioServiceGetMatchingServices _ => Int32 × Port
  | .ioIteratorNext _ => Port
  | .ioRegistryEntryCreateCFProperties _ => Int32 × CFRef
  | .find _ _ => Option CFValue
  | .ioObjectCopyClass _ => CFRef
  | .toString _ => String
  | .cfRelease _ => Unit
  | .ioObjectRelease _ => Int32

/-! ## §2. The program. -/

/-- `downcast::<CFNumber>()`, then `to_i64`. -/
def CFValue.i64? : CFValue → Option Int64
  | .number i64 => i64
  | _ => none

def CFValue.bool? : CFValue → Option Bool
  | .boolean b => some b
  | _ => none

def CFValue.string? : CFValue → Option String
  | .string s => some s
  | _ => none

def dictI64 (dict : CFRef) (key : String) : Prog Call Answer (Option Int64) := do
  let v : Option CFValue ← request (Call.find dict key)
  return v.bind CFValue.i64?

def dictBool (dict : CFRef) (key : String) : Prog Call Answer (Option Bool) := do
  let v : Option CFValue ← request (Call.find dict key)
  return v.bind CFValue.bool?

def dictString (dict : CFRef) (key : String) : Prog Call Answer (Option String) := do
  let v : Option CFValue ← request (Call.find dict key)
  return v.bind CFValue.string?

/-- The class name of an entry, empty where there is none. -/
def readClass (entry : Port) : Prog Call Answer String := do
  let classRef : CFRef ← request (Call.ioObjectCopyClass entry)
  if classRef = 0 then return ""
  else
    let text : String ← request (Call.toString classRef)
    -- the wrapped string is a temporary of the statement
    let _ ← request (Call.cfRelease classRef)
    return text

/-- Read one registry entry's CF properties into a `RawMedia`. -/
def readMedia (entry : Port) : Prog Call Answer (Option RawMedia) := do
  let answer : Int32 × CFRef ← request (Call.ioRegistryEntryCreateCFProperties entry)
  if answer.1 ≠ KERN_SUCCESS ∨ answer.2 = 0 then return none
  else
    let dict := answer.2
    match ← dictString dict "BSD Name" with
    | none =>
      -- the `?` leaves the function, and the dictionary is dropped
      let _ ← request (Call.cfRelease dict)
      return none
    | some bsd =>
      let className ← readClass entry
      let size ← dictI64 dict "Size"
      let block ← dictI64 dict "Preferred Block Size"
      let base ← dictI64 dict "Base"
      let whole ← dictBool dict "Whole"
      let removable ← dictBool dict "Removable"
      let writable ← dictBool dict "Writable"
      let content ← dictString dict "Content"
      let _ ← request (Call.cfRelease dict)
      return some
        { bsd := bsd
          size := (max (size.getD 0) 0).toUInt64
          block := (max (block.getD 512) 1).toUInt64.toUInt32
          base := (max (base.getD 0) 0).toUInt64
          whole := whole.getD false
          removable := removable.getD false
          writable := writable.getD true
          content := content.getD ""
          className := className }

/-- One round of the walk: `.inr` when the iterator is exhausted. -/
def walkStep (iter : Port) (out : List RawMedia) :
    Prog Call Answer (List RawMedia ⊕ List RawMedia) := do
  let entry : Port ← request (Call.ioIteratorNext iter)
  if entry = 0 then return .inr out
  else
    let m ← readMedia entry
    let out := match m with
      | some m => out ++ [m]
      | none => out
    let _ ← request (Call.ioObjectRelease entry)
    return .inl out

/-- Walk the `IOMedia` registry, for at most `fuel` rounds. -/
def collectMedia (fuel : Nat) : Prog Call Answer (Option (Except Error (List RawMedia))) := do
  let matching : CFRef ← request (Call.ioServiceMatching "IOMedia")
  if matching = 0 then
    return some (.error (.os "IOServiceMatching(IOMedia) returned null"))
  else
    let answer : Int32 × Port ← request (Call.ioServiceGetMatchingServices matching)
    if answer.1 ≠ KERN_SUCCESS then
      return some (.error (.os ("IOServiceGetMatchingServices failed (kern_return "
        ++ Int.repr answer.1.toInt ++ ")")))
    else
      let iter := answer.2
      match ← iterate (walkStep iter) fuel [] with
      | none => return none
      | some out =>
        let _ ← request (Call.ioObjectRelease iter)
        return some (.ok out)

/-- **`enumerate`**, with its calls. -/
def enumerate (fuel : Nat) : Prog Call Answer (Option (Except Error (List PhysicalDisk))) := do
  let media ← collectMedia fuel
  return media.map (Except.map assemble)

/-! ## §3. The registry. -/

/-- A registry entry: its CF properties and class name, where they can be had. -/
structure Entry where
  properties : Option (String → Option CFValue)
  className : Option String

/-- What `IOKit` has to say about media. -/
structure Registry where
  /-- `IOServiceMatching` makes a dictionary. -/
  matching : Bool
  /-- The entries in the iterator's order, or why there is no iterator. -/
  services : Except {code : Int32 // code ≠ KERN_SUCCESS} (List Entry)

/-- The entries the walk will see. -/
def Registry.entries (reg : Registry) : List Entry := reg.services.toOption.getD []

/-- The medium of a dictionary, given the entry's class name. -/
def mediaOfProperties (props : String → Option CFValue) (className : Option String) :
    Option RawMedia :=
  ((props "BSD Name").bind CFValue.string?).map (fun bsd =>
    { bsd := bsd
      size := (max (((props "Size").bind CFValue.i64?).getD 0) 0).toUInt64
      block :=
        (max (((props "Preferred Block Size").bind CFValue.i64?).getD 512) 1).toUInt64.toUInt32
      base := (max (((props "Base").bind CFValue.i64?).getD 0) 0).toUInt64
      whole := ((props "Whole").bind CFValue.bool?).getD false
      removable := ((props "Removable").bind CFValue.bool?).getD false
      writable := ((props "Writable").bind CFValue.bool?).getD true
      content := ((props "Content").bind CFValue.string?).getD ""
      className := className.getD "" })

/-- **What one entry is read as.** -/
def mediaOf (e : Entry) : Option RawMedia :=
  e.properties.bind (fun props => mediaOfProperties props e.className)

/-- What the walk over a registry comes to. -/
def Registry.media (reg : Registry) : Except Error (List RawMedia) :=
  if reg.matching then
    match reg.services with
    | .ok entries => .ok (entries.filterMap mediaOf)
    | .error code =>
      .error (.os ("IOServiceGetMatchingServices failed (kern_return "
        ++ Int.repr code.val.toInt ++ ")"))
  else .error (.os "IOServiceMatching(IOMedia) returned null")

/-! ## §4. The kernel. -/

/-- The two name spaces of references. -/
inductive Ref where
  | cf (ref : CFRef)
  | port (port : Port)
  deriving DecidableEq

/-- What a reference stands for. -/
inductive Object where
  | matching
  /-- An iterator, with the entries still to come. -/
  | iterator (left : List Entry)
  | entry (e : Entry)
  | dictionary (props : String → Option CFValue)
  | string (text : String)

/-- The references the process holds. -/
abbrev Kernel := List (Ref × Object)

/-- The iterator has moved on. -/
def advance (k : Kernel) (iter : Port) (left : List Entry) : Kernel :=
  update k (.port iter) (.iterator left)

/-- **What each call requires**: live references to the right kind of object, and room for
    what it hands out. -/
def Accepts (k : Kernel) : Call → Prop
  | .ioServiceMatching name => name = "IOMedia" ∧ k = []
  | .ioServiceGetMatchingServices matching => k = [(.cf matching, .matching)]
  -- the entry of the round before has been given back
  | .ioIteratorNext iter => ∃ left, k = [(.port iter, .iterator left)]
  | .ioRegistryEntryCreateCFProperties entry =>
      (∃ e, (.port entry, .entry e) ∈ k) ∧ k.length < 4
  | .find dict _ => ∃ props, (.cf dict, .dictionary props) ∈ k
  | .ioObjectCopyClass entry => (∃ e, (.port entry, .entry e) ∈ k) ∧ k.length < 4
  | .toString string => ∃ text, (.cf string, .string text) ∈ k
  | .cfRelease ref => ∃ object, (.cf ref, object) ∈ k
  | .ioObjectRelease object => ∃ o, (.port object, o) ∈ k

/-- **How `IOKit` answers** on a machine with this registry. -/
inductive Answers (reg : Registry) : Kernel → (c : Call) → Answer c → Kernel → Prop where
  | matched {k : Kernel} {name : String} {ref : CFRef} (h : reg.matching = true)
      (hnull : ref ≠ 0) (hfresh : Fresh k (.cf ref)) :
      Answers reg k (.ioServiceMatching name) ref ((.cf ref, .matching) :: k)
  | unmatched {k : Kernel} {name : String} (h : reg.matching = false) :
      Answers reg k (.ioServiceMatching name) 0 k
  /-- The matching dictionary is consumed. -/
  | services {k : Kernel} {matching : CFRef} {iter : Port} {entries : List Entry}
      (h : reg.services = .ok entries) (hfresh : Fresh k (.port iter)) :
      Answers reg k (.ioServiceGetMatchingServices matching) (KERN_SUCCESS, iter)
        ((.port iter, .iterator entries) :: release k (.cf matching))
  /-- And it is consumed on a failure too. -/
  | noServices {k : Kernel} {matching : CFRef} {iter : Port}
      {code : {code : Int32 // code ≠ KERN_SUCCESS}} (h : reg.services = .error code) :
      Answers reg k (.ioServiceGetMatchingServices matching) (code.val, iter)
        (release k (.cf matching))
  | next {k : Kernel} {iter entry : Port} {e : Entry} {left : List Entry}
      (h : (.port iter, .iterator (e :: left)) ∈ k) (hnull : entry ≠ 0)
      (hfresh : Fresh k (.port entry)) :
      Answers reg k (.ioIteratorNext iter) entry
        ((.port entry, .entry e) :: advance k iter left)
  | exhausted {k : Kernel} {iter : Port} (h : (.port iter, .iterator []) ∈ k) :
      Answers reg k (.ioIteratorNext iter) 0 k
  | properties {k : Kernel} {entry : Port} {e : Entry} {props : String → Option CFValue}
      {ref : CFRef} (h : (.port entry, .entry e) ∈ k) (hprops : e.properties = some props)
      (hnull : ref ≠ 0) (hfresh : Fresh k (.cf ref)) :
      Answers reg k (.ioRegistryEntryCreateCFProperties entry) (KERN_SUCCESS, ref)
        ((.cf ref, .dictionary props) :: k)
  /-- A failure, or a success without a dictionary. -/
  | noProperties {k : Kernel} {entry : Port} {e : Entry} {code : Int32} {ref : CFRef}
      (h : (.port entry, .entry e) ∈ k) (hprops : e.properties = none)
      (hfail : code ≠ KERN_SUCCESS ∨ ref = 0) :
      Answers reg k (.ioRegistryEntryCreateCFProperties entry) (code, ref) k
  | found {k : Kernel} {dict : CFRef} {key : String} {props : String → Option CFValue}
      (h : (.cf dict, .dictionary props) ∈ k) : Answers reg k (.find dict key) (props key) k
  | copied {k : Kernel} {entry : Port} {e : Entry} {text : String} {ref : CFRef}
      (h : (.port entry, .entry e) ∈ k) (hclass : e.className = some text) (hnull : ref ≠ 0)
      (hfresh : Fresh k (.cf ref)) :
      Answers reg k (.ioObjectCopyClass entry) ref ((.cf ref, .string text) :: k)
  | unnamed {k : Kernel} {entry : Port} {e : Entry} (h : (.port entry, .entry e) ∈ k)
      (hclass : e.className = none) : Answers reg k (.ioObjectCopyClass entry) 0 k
  | text {k : Kernel} {string : CFRef} {text : String} (h : (.cf string, .string text) ∈ k) :
      Answers reg k (.toString string) text k
  | cfReleased {k : Kernel} {ref : CFRef} :
      Answers reg k (.cfRelease ref) () (release k (.cf ref))
  | released {k : Kernel} {object : Port} {kr : Int32} :
      Answers reg k (.ioObjectRelease object) kr (release k (.port object))

/-- `IOKit` on a machine with this registry. -/
@[reducible] def kernel (reg : Registry) : Environment Call Answer :=
  { State := Kernel, Accepts := Accepts, Answers := Answers reg }

/-! ## §5. One call at a time. -/

variable {reg : Registry}

section Calls

variable {k : Kernel} {dict : CFRef} {props : String → Option CFValue}

/-- A property is asked of a dictionary that is held; nothing changes hands. -/
theorem wp_find (h : Holds k (.cf dict) (.dictionary props)) (key : String)
    {Q : Option CFValue → Kernel → Prop} (hQ : Q (props key) k) :
    (kernel reg).wp (request (Call.find dict key)) Q k := by
  rw [wp_request]
  refine ⟨⟨props, h.mem⟩, ?_⟩
  intro v k' hans
  cases hans with
  | found hmem =>
      injection h.only _ hmem with hprops
      rw [hprops]
      exact hQ

theorem wp_dictI64 (h : Holds k (.cf dict) (.dictionary props)) (key : String)
    {Q : Option Int64 → Kernel → Prop} (hQ : Q ((props key).bind CFValue.i64?) k) :
    (kernel reg).wp (dictI64 dict key) Q k := by
  unfold dictI64
  rw [wp_bind]
  exact wp_find h key hQ

theorem wp_dictBool (h : Holds k (.cf dict) (.dictionary props)) (key : String)
    {Q : Option Bool → Kernel → Prop} (hQ : Q ((props key).bind CFValue.bool?) k) :
    (kernel reg).wp (dictBool dict key) Q k := by
  unfold dictBool
  rw [wp_bind]
  exact wp_find h key hQ

theorem wp_dictString (h : Holds k (.cf dict) (.dictionary props)) (key : String)
    {Q : Option String → Kernel → Prop} (hQ : Q ((props key).bind CFValue.string?) k) :
    (kernel reg).wp (dictString dict key) Q k := by
  unfold dictString
  rw [wp_bind]
  exact wp_find h key hQ

/-- A CoreFoundation reference handed out last is given back. -/
theorem wp_cfRelease {rest : Kernel} {object : Object} (hk : k = (.cf dict, object) :: rest)
    (hfresh : Fresh rest (.cf dict)) {Q : Unit → Kernel → Prop} (hQ : Q () rest) :
    (kernel reg).wp (request (Call.cfRelease dict)) Q k := by
  rw [wp_request]
  refine ⟨⟨object, by rw [hk]; exact List.mem_cons_self⟩, ?_⟩
  intro v k' hans
  cases hans with
  | cfReleased =>
      rw [hk, release_cons object hfresh]
      exact hQ

end Calls

/-- **The class name** is copied out, and the string given back. -/
theorem wp_readClass {k : Kernel} {entry : Port} {e : Entry}
    (h : Holds k (.port entry) (.entry e)) (hlen : k.length < 4) :
    (kernel reg).wp (readClass entry) (fun r t => r = e.className.getD "" ∧ t = k) k := by
  unfold readClass
  rw [wp_bind, wp_request]
  refine ⟨⟨⟨e, h.mem⟩, hlen⟩, ?_⟩
  intro ref k₁ hans
  cases hans with
  | @copied _ e' text _ hmem hclass hnull hfresh =>
      injection h.only _ hmem with he
      rw [if_neg hnull, wp_bind, wp_request]
      have hholds : Holds ((.cf ref, .string text) :: k) (.cf ref) (.string text) :=
        .head _ hfresh
      refine ⟨⟨text, hholds.mem⟩, ?_⟩
      intro text' k₂ hans₂
      cases hans₂ with
      | text hmem₂ =>
          injection hholds.only _ hmem₂ with htext
          rw [wp_bind]
          apply wp_cfRelease rfl hfresh
          rw [wp_pure, htext, ← he, hclass]
          exact ⟨rfl, rfl⟩
  | @unnamed _ e' hmem hclass =>
      injection h.only _ hmem with he
      rw [if_pos rfl, wp_pure, ← he, hclass]
      exact ⟨rfl, rfl⟩

/-- **One entry**: its medium, and every reference taken for it given back. -/
theorem wp_readMedia {k : Kernel} {entry : Port} {e : Entry}
    (h : Holds k (.port entry) (.entry e)) (hlen : k.length < 3) :
    (kernel reg).wp (readMedia entry) (fun r t => r = mediaOf e ∧ t = k) k := by
  unfold readMedia
  rw [wp_bind, wp_request]
  refine ⟨⟨⟨e, h.mem⟩, by omega⟩, ?_⟩
  intro answer k₁ hans
  cases hans with
  | @noProperties _ e' code ref hmem hprops hfail =>
      injection h.only _ hmem with he
      rw [if_pos hfail, wp_pure]
      refine ⟨?_, rfl⟩
      unfold mediaOf
      rw [← he, hprops]
      rfl
  | @properties _ e' props ref hmem hprops hnull hfresh =>
      injection h.only _ hmem with he
      have hok : ¬ (KERN_SUCCESS ≠ KERN_SUCCESS ∨ ref = 0) := by simp [hnull]
      have hdict : Holds ((.cf ref, .dictionary props) :: k) (.cf ref) (.dictionary props) :=
        .head _ hfresh
      have hmedia : mediaOf e = mediaOfProperties props e.className := by
        unfold mediaOf
        rw [← he, hprops]
        rfl
      rw [if_neg hok, wp_bind, hmedia]
      unfold mediaOfProperties
      apply wp_dictString hdict "BSD Name"
      cases hbsd : (props "BSD Name").bind CFValue.string? with
      | none =>
          -- the early return
          rw [wp_bind]
          exact wp_cfRelease rfl hfresh ⟨rfl, rfl⟩
      | some bsd =>
          have hentry : Holds ((.cf ref, .dictionary props) :: k) (.port entry) (.entry e) :=
            h.cons (by simp)
          rw [wp_bind]
          refine wp_mono (wp_readClass hentry (by simp only [List.length_cons]; omega)) ?_
          intro className k₂ hclass
          rw [hclass.1, hclass.2, wp_bind]
          apply wp_dictI64 hdict
          rw [wp_bind]
          apply wp_dictI64 hdict
          rw [wp_bind]
          apply wp_dictI64 hdict
          rw [wp_bind]
          apply wp_dictBool hdict
          rw [wp_bind]
          apply wp_dictBool hdict
          rw [wp_bind]
          apply wp_dictBool hdict
          rw [wp_bind]
          apply wp_dictString hdict
          rw [wp_bind]
          exact wp_cfRelease rfl hfresh ⟨rfl, rfl⟩

/-! ## §6. The walk. -/

/-- Before a round the iterator is all that is held, and what is read plus what is left is the
    registry. -/
def WalkInv (iter : Port) (entries : List Entry) (n : Nat) (out : List RawMedia) (k : Kernel) :
    Prop :=
  ∃ left, n = left.length ∧ k = [(.port iter, .iterator left)]
    ∧ out ++ left.filterMap mediaOf = entries.filterMap mediaOf

/-- **One round** takes one entry off the iterator, or finds it exhausted. -/
theorem wp_walkStep {iter : Port} {entries : List Entry} {n : Nat} {out : List RawMedia}
    {k : Kernel} (h : WalkInv iter entries n out k) :
    (kernel reg).wp (walkStep iter out) (fun r t => r.elim
      (fun out' => ∃ m < n, WalkInv iter entries m out' t)
      (fun out' => out' = entries.filterMap mediaOf ∧ t = [(.port iter, .iterator [])])) k := by
  obtain ⟨left, hn, hk, hout⟩ := h
  have hiter : Holds k (.port iter) (.iterator left) := by
    rw [hk]
    exact .head _ (fresh_nil _)
  unfold walkStep
  rw [wp_bind, wp_request]
  refine ⟨⟨left, hk⟩, ?_⟩
  intro entry k₁ hans
  cases hans with
  | exhausted hmem =>
      injection hiter.only _ hmem with hleft
      rw [if_pos rfl, wp_pure]
      refine ⟨?_, ?_⟩
      · rw [← hout, ← hleft, List.filterMap_nil, List.append_nil]
      · rw [hk, ← hleft]
  | @next _ _ e rest hmem hnull hfresh =>
      injection hiter.only _ hmem with hleft
      -- the iterator has moved on before the entry is read
      have hadvance : advance k iter rest = [(.port iter, .iterator rest)] := by
        rw [hk]
        exact update_cons _ _ (fresh_nil _)
      have hne : Ref.port iter ≠ .port entry := (hiter.ne_of_fresh hfresh).symm
      have hfresh' : Fresh [(Ref.port iter, Object.iterator rest)] (.port entry) :=
        fresh_cons.mpr ⟨hne, fresh_nil _⟩
      have hentry : Holds ((.port entry, .entry e) :: advance k iter rest)
          (.port entry) (.entry e) := by
        rw [hadvance]
        exact .head _ hfresh'
      rw [if_neg hnull, wp_bind]
      refine wp_mono (wp_readMedia hentry (by rw [hadvance]; exact Nat.lt_add_one 2)) ?_
      intro m k₂ hm
      rw [wp_bind, wp_request, hm.2]
      refine ⟨⟨_, hentry.mem⟩, ?_⟩
      intro kr k₃ hans₃
      cases hans₃ with
      | released =>
          rw [wp_pure, hadvance, release_cons _ hfresh']
          refine ⟨rest.length, ?_, rest, rfl, rfl, ?_⟩
          · rw [hn, ← hleft, List.length_cons]
            omega
          · rw [← hout, ← hleft, List.filterMap_cons, hm.1]
            cases mediaOf e with
            | none => rfl
            | some media => simp

/-- With fuel for every entry the loop runs the iterator dry. -/
theorem wp_walk (iter : Port) {entries : List Entry} {fuel : Nat} (h : entries.length < fuel) :
    (kernel reg).wp (iterate (walkStep iter) fuel [])
      (fun r t => r = some (entries.filterMap mediaOf) ∧ t = [(.port iter, .iterator [])])
      [(.port iter, .iterator entries)] := by
  have hinv : WalkInv iter entries entries.length [] [(.port iter, .iterator entries)] :=
    ⟨entries, rfl, rfl, rfl⟩
  refine wp_mono (wp_iterate (WalkInv iter entries) (fun _ _ _ => wp_walkStep) fuel _ _ _ h hinv) ?_
  intro r t hr
  obtain ⟨out, hr, hout, ht⟩ := hr
  rw [hr, hout]
  exact ⟨rfl, ht⟩

/-- **Collecting**: the registry's media or its failure, and nothing held at the end. -/
theorem wp_collectMedia (reg : Registry) {fuel : Nat} (hfuel : reg.entries.length < fuel) :
    (kernel reg).wp (collectMedia fuel) (fun r t => r = some reg.media ∧ t = []) [] := by
  unfold collectMedia Registry.media
  rw [wp_bind, wp_request]
  refine ⟨⟨rfl, rfl⟩, ?_⟩
  intro matching k₁ hans
  cases hans with
  | unmatched h =>
      rw [if_pos rfl, wp_pure, h]
      exact ⟨rfl, rfl⟩
  | matched h hnull hfresh =>
      rw [if_neg hnull, wp_bind, wp_request, h, if_pos rfl]
      refine ⟨rfl, ?_⟩
      intro answer k₂ hans₂
      cases hans₂ with
      | @noServices _ iter code hcode =>
          rw [if_pos code.property, wp_pure, hcode]
          exact ⟨rfl, release_cons _ hfresh⟩
      | @services _ iter entries hentries hiter =>
          rw [if_neg (by simp), wp_bind, release_cons _ hfresh, hentries]
          have hlen : entries.length < fuel := by
            unfold Registry.entries at hfuel
            rw [hentries] at hfuel
            exact hfuel
          refine wp_mono (wp_walk iter hlen) ?_
          intro r k₃ hr
          rw [hr.1, hr.2]
          rw [wp_bind, wp_request]
          refine ⟨⟨_, List.mem_cons_self⟩, ?_⟩
          intro kr k₄ hans₄
          cases hans₄ with
          | released => exact ⟨rfl, release_cons _ (fresh_nil _)⟩

/-! ## §7. Every run. -/

/-- With fewer than four references held, one of the first four is free. -/
theorem exists_fresh_cf {k : Kernel} (h : k.length < 4) :
    ∃ ref : CFRef, ref ≠ 0 ∧ Fresh k (.cf ref) := by
  have hnodup : ([1, 2, 3, 4].map Ref.cf).Nodup := by decide
  obtain ⟨ref, hmem, hfresh⟩ := exists_fresh hnodup h
  obtain ⟨r, hr, rfl⟩ := List.mem_map.mp hmem
  have hpos : ∀ r ∈ [(1 : CFRef), 2, 3, 4], r ≠ 0 := by simp
  exact ⟨r, hpos r hr, hfresh⟩

theorem exists_fresh_port {k : Kernel} (h : k.length < 4) :
    ∃ port : Port, port ≠ 0 ∧ Fresh k (.port port) := by
  have hnodup : ([1, 2, 3, 4].map Ref.port).Nodup := by decide
  obtain ⟨ref, hmem, hfresh⟩ := exists_fresh hnodup h
  obtain ⟨r, hr, rfl⟩ := List.mem_map.mp hmem
  have hpos : ∀ r ∈ [(1 : Port), 2, 3, 4], r ≠ 0 := by simp
  exact ⟨r, hpos r hr, hfresh⟩

/-- The kernel answers whatever it accepts. -/
theorem kernel_responsive (reg : Registry) : (kernel reg).Responsive := by
  intro k c hacc
  cases c with
  | ioServiceMatching name =>
      cases hm : reg.matching with
      | false => exact ⟨0, k, .unmatched hm⟩
      | true =>
          have hlen : k.length < 4 := by
            rw [hacc.2]
            show 0 < 4
            omega
          obtain ⟨ref, hnull, hfresh⟩ := exists_fresh_cf hlen
          exact ⟨ref, _, .matched hm hnull hfresh⟩
  | ioServiceGetMatchingServices matching =>
      cases hs : reg.services with
      | error code => exact ⟨(code.val, 0), _, .noServices hs⟩
      | ok entries =>
          have hlen : k.length < 4 := by
            rw [show k = _ from hacc]
            show 1 < 4
            omega
          obtain ⟨iter, _, hfresh⟩ := exists_fresh_port hlen
          exact ⟨(KERN_SUCCESS, iter), _, .services hs hfresh⟩
  | ioIteratorNext iter =>
      obtain ⟨left, hk⟩ := hacc
      cases left with
      | nil => exact ⟨0, k, .exhausted (by rw [hk]; exact List.mem_cons_self)⟩
      | cons e rest =>
          have hlen : k.length < 4 := by
            rw [hk]
            show 1 < 4
            omega
          obtain ⟨entry, hnull, hfresh⟩ := exists_fresh_port hlen
          exact ⟨entry, _, .next (by rw [hk]; exact List.mem_cons_self) hnull hfresh⟩
  | ioRegistryEntryCreateCFProperties entry =>
      obtain ⟨⟨e, hmem⟩, hlen⟩ := hacc
      cases hp : e.properties with
      | none => exact ⟨(KERN_SUCCESS, 0), k, .noProperties hmem hp (.inr rfl)⟩
      | some props =>
          obtain ⟨ref, hnull, hfresh⟩ := exists_fresh_cf hlen
          exact ⟨(KERN_SUCCESS, ref), _, .properties hmem hp hnull hfresh⟩
  | find dict key =>
      obtain ⟨props, hmem⟩ := hacc
      exact ⟨props key, k, .found hmem⟩
  | ioObjectCopyClass entry =>
      obtain ⟨⟨e, hmem⟩, hlen⟩ := hacc
      cases hc : e.className with
      | none => exact ⟨0, k, .unnamed hmem hc⟩
      | some text =>
          obtain ⟨ref, hnull, hfresh⟩ := exists_fresh_cf hlen
          exact ⟨ref, _, .copied hmem hc hnull hfresh⟩
  | toString string =>
      obtain ⟨text, hmem⟩ := hacc
      exact ⟨text, k, .text hmem⟩
  | cfRelease ref => exact ⟨(), _, .cfReleased⟩
  | ioObjectRelease object => exact ⟨0, _, .released⟩

theorem wp_enumerate (reg : Registry) {fuel : Nat} (hfuel : reg.entries.length < fuel) :
    (kernel reg).wp (enumerate fuel) (fun r t => r = some (reg.media.map assemble) ∧ t = [])
      [] := by
  unfold enumerate
  rw [wp_bind]
  refine wp_mono (wp_collectMedia reg hfuel) ?_
  intro r t hr
  refine ⟨?_, hr.2⟩
  rw [hr.1]
  rfl

/-- **The calls compute `assemble`.**  Against any registry, in every run with fuel for its
    entries: each call is accepted, every reference is given back, and the result is the
    assembled media or the failure of the registry. -/
theorem enumerate_meets_registry (reg : Registry) (spare : Nat) :
    (kernel reg).Meets (enumerate (reg.entries.length + 1 + spare)) []
      (fun r t => r = some (reg.media.map assemble) ∧ t = []) :=
  .of_wp (kernel_responsive reg) (wp_enumerate reg (by omega))

end LivediskForensic.Macos.Ffi
