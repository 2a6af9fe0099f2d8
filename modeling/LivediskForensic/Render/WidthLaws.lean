/-
  LivediskForensic.Render.WidthLaws — HOW FAR THE WIDTHS CAN MISLEAD.

  A larger segment can be drawn narrower than a smaller one, but by one column
  at most, and only when it stands behind it.  And a bar shows proportions and
  nothing else: weights in one proportion give one bar, in whatever unit they
  are measured.

      widths_near          — for every pair of positions
      widths_proportional  — for every two proportional lists
-/
import LivediskForensic.Render.WidthOrder

namespace LivediskForensic.Render

open LivediskForensic.Lib
open Finset

/-! ## §1. One column at most. -/

section Positions

variable {n : Nat} {weight : Fin n → Nat}

/-- Without columns or without weights every width is zero. -/
theorem widthOf_zero {total : Nat} (h : total = 0 ∨ ∑ i, weight i = 0) :
    widthOf weight total = fun _ => 0 := by
  unfold widthOf
  rw [if_pos (Or.inr h)]

/-- Of two positions the one with the smaller weight is at most a column ahead, and not behind the
other. -/
theorem widthOf_near (total : Nat) {a b : Fin n} (h : weight b ≤ weight a) :
    widthOf weight total b ≤ widthOf weight total a + 1
      ∧ (a < b → widthOf weight total b ≤ widthOf weight total a) := by
  by_cases hzero : total = 0 ∨ ∑ i, weight i = 0
  · rw [widthOf_zero hzero]
    exact ⟨Nat.zero_le _, fun _ => le_refl 0⟩
  · have hpos : 0 < ∑ i, weight i := by omega
    have hsettled : Settled weight (hareShare weight total) (widthOf weight total) :=
      widthOf_settled hpos (show 0 < total by omega)
    have hw : 0 < weight b → 0 < weight a := fun hb => lt_of_lt_of_le hb h
    rcases lt_or_eq_of_le h with hlt | heq
    · have hshare : hareShare weight total b ≤ hareShare weight total a := hareShare_mono hlt
      exact ⟨hsettled.near (by omega), fun hab => hsettled.later_le hab hshare hw⟩
    -- of equal weights the one in front has the larger share
    · have hnear : hareShare weight total b ≤ hareShare weight total a + 1 := by
        rcases le_total a b with hab | hba
        · exact (hareShare_of_eq heq.symm hab).1.trans (Nat.le_succ _)
        · exact (hareShare_of_eq heq hba).2
      refine ⟨hsettled.near hnear, fun hab => ?_⟩
      exact hsettled.later_le hab (hareShare_of_eq heq.symm hab.le).1 hw

/-! ## §2. Proportions. -/

/-- Only which weights are zero counts for the slivers. -/
theorem sliver_mul {k : Nat} (hk : 0 < k) : sliver (fun i => k * weight i) = sliver weight := by
  funext widths i
  unfold sliver
  simp only [Nat.mul_pos_iff_of_pos_left hk]

theorem widthOf_mul {k : Nat} (hk : 0 < k) (total : Nat) :
    widthOf (fun i => k * weight i) total = widthOf weight total := by
  have hsum : ∑ i, k * weight i = k * ∑ i, weight i := (mul_sum _ _ _).symm
  by_cases hzero : total = 0 ∨ ∑ i, weight i = 0
  · have hzero' : total = 0 ∨ ∑ i, k * weight i = 0 := by
      rw [hsum]
      exact hzero.imp_right (fun hs => by rw [hs, Nat.mul_zero])
    rw [widthOf_zero hzero, widthOf_zero hzero']
  · have hpos : 0 < ∑ i, weight i := by omega
    have htotal : 0 < total := by omega
    have hpos' : 0 < ∑ i, k * weight i := by
      rw [hsum]
      exact Nat.mul_pos hk hpos
    rw [widthOf_eq hpos htotal, widthOf_eq hpos' htotal, sliver_mul hk,
      largestRemainder_eq_hareShare, largestRemainder_eq_hareShare, hareShare_mul hk]

end Positions

/-- The positions of two lists of one length are the same. -/
theorem widthOf_cast {n m : Nat} (h : n = m) (weight : Fin n → Nat) (weight' : Fin m → Nat)
    (heq : ∀ i, weight i = weight' (i.cast h)) (total : Nat) :
    List.ofFn (widthOf weight total) = List.ofFn (widthOf weight' total) := by
  subst h
  have hfun : weight = weight' := funext heq
  rw [hfun]

/-! ## §3. The laws for lists of weights. -/

/-- **HOW FAR THE ORDER CAN BE BROKEN.**  A segment that is not smaller is at most one column
narrower, and only when it stands behind the other. -/
theorem widths_near (weights : List UInt64) (total : Nat) (a b : Fin weights.length)
    (h : weights.get b ≤ weights.get a) :
    widthAt weights total b ≤ widthAt weights total a + 1
      ∧ (a < b → widthAt weights total b ≤ widthAt weights total a) := by
  rw [widthAt_eq, widthAt_eq]
  exact widthOf_near total (UInt64.le_iff_toNat_le.mp h)

/-- The three segments of which the larger is drawn narrower. -/
theorem widths_near_inverted :
    ([3150, 3151, 1] : List UInt64).get 0 ≤ ([3150, 3151, 1] : List UInt64).get 1
      ∧ widthAt [3150, 3151, 1] 64 0 ≤ widthAt [3150, 3151, 1] 64 1 + 1 :=
  ⟨by decide, (widths_near [3150, 3151, 1] 64 1 0 (by decide)).1⟩

/-- **A BAR SHOWS PROPORTIONS.**  Weights in one proportion, in two units, give the same widths. -/
theorem widths_proportional (weights weights' : List UInt64) (k k' : Nat) (hk : 0 < k)
    (hk' : 0 < k')
    (h : weights.map (fun w => k * w.toNat) = weights'.map (fun w => k' * w.toNat))
    (total : Nat) : allocateWidths weights total = allocateWidths weights' total := by
  have hlen : weights.length = weights'.length := by
    have hmap := congrArg List.length h
    rwa [List.length_map, List.length_map] at hmap
  have hat : ∀ i : Fin weights.length,
      k * (weights.get i).toNat = k' * (weights'.get (i.cast hlen)).toNat := by
    intro i
    have hi := congrArg (fun l => l[i.val]?) h
    simp only [List.getElem?_map, List.getElem?_eq_getElem i.isLt,
      List.getElem?_eq_getElem (show i.val < weights'.length from hlen ▸ i.isLt)] at hi
    exact Option.some.inj hi
  have hscaled := widthOf_cast hlen (fun i => k * (weights.get i).toNat)
    (fun i => k' * (weights'.get i).toNat) hat total
  rw [widthOf_mul hk, widthOf_mul hk'] at hscaled
  exact hscaled

/-- Sizes in bytes, and in sectors of 512. -/
theorem widths_proportional_sectors :
    allocateWidths [1024, 512, 2560] 20 = allocateWidths [2, 1, 5] 20 :=
  widths_proportional [1024, 512, 2560] [2, 1, 5] 1 512 (by decide) (by decide) (by decide) 20

end LivediskForensic.Render
