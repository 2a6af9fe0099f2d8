/-
  LivediskForensic.Lib.RoundRobin — A COUNTER THAT PASSES ONE CLASS BY.

  Counting modulo `p` and stepping over the numbers of one class `a` visits
  the other `p - 1` classes in rising order, round after round.  The class of
  the `k`-th visit is `other p a k`; a counter is ALIGNED with the `k`-th visit
  when it stands on that class, or on `a` right in front of it.

      aligned_succ  — one visit moves the alignment by one, across the wrap too
      other_window  — fewer than `p - 1` visits apart, the classes differ
-/
import Mathlib.Data.Nat.Basic

namespace LivediskForensic.Lib

section RoundRobin

variable {p a : Nat}

/-- The class of the `k`-th number outside class `a` modulo `p`, from `k = 0` on. -/
def other (p a k : Nat) : Nat :=
  if k % (p - 1) < a then k % (p - 1) else k % (p - 1) + 1

theorem other_ne (k : Nat) : other p a k ≠ a := by
  unfold other
  by_cases h : k % (p - 1) < a
  · rw [if_pos h]
    omega
  · rw [if_neg h]
    omega

/-- Two numbers less than a period apart are in different classes. -/
theorem mod_ne_of_lt {q j k : Nat} (hjk : j < k) (hk : k < j + q) : j % q ≠ k % q := by
  intro h
  have hzero : (k - j) % q = 0 := Nat.sub_mod_eq_zero_of_mod_eq h.symm
  rw [Nat.mod_eq_of_lt (by omega)] at hzero
  omega

/-- **The window law.** -/
theorem other_window {j k : Nat} (hjk : j < k) (hk : k < j + (p - 1)) :
    other p a j ≠ other p a k := by
  have hr : j % (p - 1) ≠ k % (p - 1) := mod_ne_of_lt hjk hk
  unfold other
  by_cases hj : j % (p - 1) < a
  · by_cases hk' : k % (p - 1) < a
    · rw [if_pos hj, if_pos hk']
      exact hr
    · rw [if_pos hj, if_neg hk']
      omega
  · by_cases hk' : k % (p - 1) < a
    · rw [if_neg hj, if_pos hk']
      omega
    · rw [if_neg hj, if_neg hk']
      omega

theorem succ_mod (hp : 0 < p) (n : Nat) :
    (n + 1) % p = if n % p + 1 = p then 0 else n % p + 1 := by
  have hr : n % p < p := Nat.mod_lt n hp
  rw [Nat.add_mod_eq_ite]
  by_cases h1 : p = 1
  · subst h1
    simp [Nat.mod_one]
  · rw [Nat.mod_eq_of_lt (show 1 < p by omega)]
    by_cases h : n % p + 1 = p
    · rw [if_pos (by omega), if_pos h]
      omega
    · rw [if_neg (by omega), if_neg h]

/-- The counter stands on the `k`-th visit, or on the class passed by right in front of it. -/
def Aligned (p a next k : Nat) : Prop :=
  next % p = other p a k ∨ (next % p = a ∧ (next + 1) % p = other p a k)

theorem aligned_zero (hp : 2 ≤ p) : Aligned p a 0 0 := by
  unfold Aligned other
  rw [Nat.zero_mod, Nat.zero_mod, Nat.zero_add, Nat.mod_eq_of_lt (show 1 < p by omega)]
  by_cases h : 0 < a
  · rw [if_pos h]
    exact Or.inl rfl
  · rw [if_neg h]
    exact Or.inr ⟨by omega, rfl⟩

/-- **One visit.** -/
theorem aligned_succ (hp : 2 ≤ p) (ha : a < p) {next k : Nat} (h : next % p = other p a k) :
    Aligned p a (next + 1) (k + 1) := by
  have hr : k % (p - 1) < p - 1 := Nat.mod_lt k (by omega)
  have hk := succ_mod (show 0 < p - 1 by omega) k
  have hnext := succ_mod (show 0 < p by omega) next
  have hnext' := succ_mod (show 0 < p by omega) (next + 1)
  unfold other at h
  unfold Aligned other
  rw [hnext', hnext, hk, h]
  -- the visited class lies below the class passed by, or above it
  by_cases hlow : k % (p - 1) < a
  · rw [if_pos hlow]
    split_ifs <;> omega
  · rw [if_neg hlow]
    split_ifs <;> omega

end RoundRobin

end LivediskForensic.Lib
