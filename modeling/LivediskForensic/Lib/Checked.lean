/-
  LivediskForensic.Lib.Checked
  ─────────────────────────────
  CHECKED MACHINE ARITHMETIC: an operation of an unsigned type of `bits` bits,
  on natural numbers, with `none` where a checked build stops (an overflow, an
  underflow, a slice out of range).

  A computation written with these operations succeeds exactly when none of
  its steps goes wrong, and then it computed the exact values.  So "no
  arithmetic goes wrong here" is the statement that the checked computation is
  `some` of the exact result.
-/
import LivediskForensic.Lib.LittleEndian
import Mathlib.Algebra.BigOperators.Group.List.Basic

namespace LivediskForensic.Lib

/-! ## §1. Single operations. -/

/-- `a + b`, `none` on overflow. -/
def checkedAdd (bits a b : Nat) : Option Nat := if a + b < 2 ^ bits then some (a + b) else none

/-- `a * b`, `none` on overflow. -/
def checkedMul (bits a b : Nat) : Option Nat := if a * b < 2 ^ bits then some (a * b) else none

/-- `a - b`, `none` on underflow. -/
def checkedSub (a b : Nat) : Option Nat := if b ≤ a then some (a - b) else none

/-- A conversion into a narrower type, `none` when it loses bits. -/
def checkedCast (bits a : Nat) : Option Nat := if a < 2 ^ bits then some a else none

/-- `l[start..stop]`, `none` out of range. -/
def checkedSlice {α : Type*} (l : List α) (start stop : Nat) : Option (List α) :=
  if start ≤ stop ∧ stop ≤ l.length then some (slice l start (stop - start)) else none

theorem checkedAdd_eq_some {bits a b : Nat} (h : a + b < 2 ^ bits) :
    checkedAdd bits a b = some (a + b) := if_pos h

theorem checkedMul_eq_some {bits a b : Nat} (h : a * b < 2 ^ bits) :
    checkedMul bits a b = some (a * b) := if_pos h

theorem checkedSub_eq_some {a b : Nat} (h : b ≤ a) : checkedSub a b = some (a - b) := if_pos h

theorem checkedCast_eq_some {bits a : Nat} (h : a < 2 ^ bits) : checkedCast bits a = some a :=
  if_pos h

theorem checkedSlice_eq_some {α : Type*} {l : List α} {start stop : Nat} (h : start ≤ stop)
    (hl : stop ≤ l.length) : checkedSlice l start stop = some (slice l start (stop - start)) :=
  if_pos ⟨h, hl⟩

theorem checkedMul_eq_some_iff {bits a b c : Nat} :
    checkedMul bits a b = some c ↔ a * b < 2 ^ bits ∧ c = a * b := by
  unfold checkedMul
  by_cases h : a * b < 2 ^ bits
  · rw [if_pos h, Option.some.injEq]
    exact ⟨fun hc => ⟨h, hc.symm⟩, fun hc => hc.2.symm⟩
  · rw [if_neg h]
    exact ⟨fun hc => absurd hc (by simp), fun hc => absurd hc.1 h⟩

/-! ## §2. Sums. -/

/-- `acc` plus the numbers of the list, added one by one. -/
def checkedSum (bits : Nat) : Nat → List Nat → Option Nat
  | acc, [] => some acc
  | acc, a :: l => do
      let acc ← checkedAdd bits acc a
      checkedSum bits acc l

/-- **A sum goes through exactly when the exact sum fits.** -/
theorem checkedSum_eq_some_iff {bits : Nat} : ∀ {l : List Nat} {acc s : Nat}, acc < 2 ^ bits →
    (checkedSum bits acc l = some s ↔ acc + l.sum < 2 ^ bits ∧ s = acc + l.sum) := by
  intro l
  induction l with
  | nil =>
      intro acc s hacc
      show some acc = some s ↔ _
      rw [Option.some.injEq, List.sum_nil, Nat.add_zero]
      exact ⟨fun h => ⟨hacc, h.symm⟩, fun h => h.2.symm⟩
  | cons a l ih =>
      intro acc s hacc
      show (checkedAdd bits acc a).bind (fun acc => checkedSum bits acc l) = some s ↔ _
      rw [List.sum_cons, ← Nat.add_assoc]
      by_cases h : acc + a < 2 ^ bits
      · rw [checkedAdd_eq_some h, Option.bind_some, ih h]
      · -- the partial sum is already too large, and sums only grow
        have hnone : checkedAdd bits acc a = none := if_neg h
        rw [hnone, Option.bind_none]
        constructor
        · intro hs
          exact absurd hs (by simp)
        · intro hs
          omega

theorem checkedSum_eq_some {bits acc : Nat} {l : List Nat} (h : acc + l.sum < 2 ^ bits) :
    checkedSum bits acc l = some (acc + l.sum) :=
  (checkedSum_eq_some_iff (by omega)).mpr ⟨h, rfl⟩

/-- The sum that wraps is the exact sum up to multiples of `2^64`. -/
theorem toNat_foldl_add (l : List UInt64) : ∀ acc : UInt64,
    (l.foldl (· + ·) acc).toNat = (acc.toNat + (l.map UInt64.toNat).sum) % 2 ^ 64 := by
  induction l with
  | nil =>
      intro acc
      have hacc := acc.toNat_lt
      show acc.toNat = (acc.toNat + 0) % 2 ^ 64
      omega
  | cons a l ih =>
      intro acc
      rw [List.foldl_cons, ih, UInt64.toNat_add, List.map_cons, List.sum_cons]
      omega

/-! ## §3. Loops. -/

/-- **A checked loop goes through exactly when each round does**, when a round is `g` with the
check `P`. -/
theorem mapM_eq_some_iff {α β : Type*} {f : α → Option β} {g : α → β} {P : α → Prop}
    (hf : ∀ a b, f a = some b ↔ P a ∧ b = g a) (l : List α) : ∀ out : List β,
    l.mapM f = some out ↔ (∀ a ∈ l, P a) ∧ out = l.map g := by
  induction l with
  | nil =>
      intro out
      show some [] = some out ↔ _
      rw [Option.some.injEq, List.map_nil, eq_comm]
      exact (and_iff_right (fun a ha => absurd ha List.not_mem_nil)).symm
  | cons a l ih =>
      intro out
      rw [List.mapM_cons, Option.bind_eq_bind, Option.bind_eq_some_iff, List.forall_mem_cons,
        List.map_cons]
      constructor
      · rintro ⟨b, hb, hrest⟩
        obtain ⟨bs, hbs, hout⟩ := Option.bind_eq_some_iff.mp hrest
        obtain ⟨hP, rfl⟩ := (hf a b).mp hb
        obtain ⟨hall, rfl⟩ := (ih bs).mp hbs
        exact ⟨⟨hP, hall⟩, (Option.some.inj hout).symm⟩
      · rintro ⟨⟨hP, hall⟩, rfl⟩
        refine ⟨g a, (hf a (g a)).mpr ⟨hP, rfl⟩, ?_⟩
        rw [(ih (l.map g)).mpr ⟨hall, rfl⟩]
        rfl

end LivediskForensic.Lib
