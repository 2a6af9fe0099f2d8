/-
  LivediskForensic.Lib.Rounding
  ──────────────────────────────
  ROUNDING TO THE NEAREST INTEGER, a half to the even neighbour, as fixed-point
  output rounds.

  The main fact is which numbers are rounded to at most `n`
  (`roundHalfEven_le_iff`); the error is read off it.
-/
import Mathlib.Algebra.Order.Floor.Ring
import Mathlib.Algebra.Order.Ring.Int
import Mathlib.Data.Int.Order.Units
import Mathlib.Tactic.Linarith

namespace LivediskForensic.Lib

variable {α : Type*} [Field α] [LinearOrder α] [FloorRing α]

/-- The nearest integer, a half to the even neighbour. -/
def roundHalfEven (x : α) : ℤ :=
  if 2 * Int.fract x < 1 then ⌊x⌋
  else if 1 < 2 * Int.fract x then ⌊x⌋ + 1
  else if Even ⌊x⌋ then ⌊x⌋ else ⌊x⌋ + 1

theorem roundHalfEven_eq_floor_or (x : α) :
    roundHalfEven x = ⌊x⌋ ∨ roundHalfEven x = ⌊x⌋ + 1 := by
  unfold roundHalfEven
  split_ifs
  · exact Or.inl rfl
  · exact Or.inr rfl
  · exact Or.inl rfl
  · exact Or.inr rfl

/-- Rounding does not cross an integer. -/
theorem le_roundHalfEven {x : α} {n : ℤ} (h : (n : α) ≤ x) : n ≤ roundHalfEven x := by
  have hfloor : n ≤ ⌊x⌋ := Int.le_floor.mpr h
  have hor := roundHalfEven_eq_floor_or x
  omega

variable [IsStrictOrderedRing α]

/-- Down to the floor: below the half, or at the half over an even floor. -/
theorem roundHalfEven_eq_floor_iff (x : α) :
    roundHalfEven x = ⌊x⌋ ↔ 2 * x < 2 * ⌊x⌋ + 1 ∨ (2 * x = 2 * ⌊x⌋ + 1 ∧ Even ⌊x⌋) := by
  have hx := Int.floor_add_fract x
  unfold roundHalfEven
  split_ifs with hlt hgt heven
  · exact iff_of_true rfl (Or.inl (by linarith))
  · refine iff_of_false (by omega) ?_
    rintro (h | ⟨h, -⟩) <;> linarith
  · exact iff_of_true rfl (Or.inr ⟨by linarith, heven⟩)
  · refine iff_of_false (by omega) ?_
    rintro (h | ⟨-, h⟩)
    · linarith
    · exact heven h

/-- **What is rounded to at most `n`**: everything below the half over `n`, and the half itself
when `n` is even. -/
theorem roundHalfEven_le_iff {x : α} {n : ℤ} :
    roundHalfEven x ≤ n ↔ 2 * x < 2 * n + 1 ∨ (2 * x = 2 * n + 1 ∧ Even n) := by
  have hfloor := Int.floor_le x
  have hceil := Int.lt_floor_add_one x
  have hor := roundHalfEven_eq_floor_or x
  rcases lt_trichotomy n ⌊x⌋ with hlt | rfl | hgt
  · have hcast : (n : α) + 1 ≤ ⌊x⌋ := by exact_mod_cast hlt
    refine iff_of_false (by omega) ?_
    rintro (h | ⟨h, -⟩) <;> linarith
  · rw [← roundHalfEven_eq_floor_iff]
    omega
  · have hcast : (⌊x⌋ : α) + 1 ≤ n := by exact_mod_cast hgt
    exact iff_of_true (by omega) (Or.inl (by linarith))

/-- **The error** is at most a half. -/
theorem two_mul_abs_sub_roundHalfEven_le (x : α) : 2 * |x - roundHalfEven x| ≤ 1 := by
  have hupper := roundHalfEven_le_iff.mp (le_refl (roundHalfEven x))
  have hlower : ¬ roundHalfEven x ≤ roundHalfEven x - 1 := by omega
  rw [roundHalfEven_le_iff, not_or, not_lt] at hlower
  have hge := hlower.1
  push_cast at hge
  have hle : 2 * x ≤ 2 * roundHalfEven x + 1 := by
    rcases hupper with h | ⟨h, -⟩
    · exact le_of_lt h
    · exact le_of_eq h
  have habs : |x - roundHalfEven x| ≤ 1 / 2 := by
    rw [abs_le]
    constructor
    · linarith
    · linarith
  linarith

end LivediskForensic.Lib
