/-
  LivediskForensic.Render.Quota — THE WIDTHS STAY WITHIN QUOTA.

  The exact share of a position is `weight * total / sum`.  The leftover pass
  goes one above the rounded-down share only where a remainder is left
  (`largestRemainder_below`), a sliver lifts a position from nothing to one
  column, and the lender only loses.  So no width exceeds its exact share
  rounded up.  Below the rounded-down share only lenders fall, one column for
  each sliver, and slivers go to shares below one column (`shortfall_foldl`).

      allocateWidths_withinQuota  — both bounds, and what follows without slivers
-/
import LivediskForensic.Render.Visible

namespace LivediskForensic.Render

open LivediskForensic.Lib
open Finset

section Positions

variable {n : Nat} {weight : Fin n → Nat} {total : Nat}

/-! ## §1. The upper bound. -/

/-- No position has its exact share and one column more. -/
def BelowUpper (weight : Fin n → Nat) (total : Nat) (f : Fin n → Nat) : Prop :=
  ∀ i, f i * (∑ j, weight j) < weight i * total + ∑ j, weight j

theorem largestRemainder_below (hpos : 0 < ∑ i, weight i) :
    BelowUpper weight total (largestRemainder weight total) := by
  intro i
  have hdiv := Nat.div_add_mod' (weight i * total) (∑ j, weight j)
  change lowerQuota weight total i * (∑ j, weight j) + quotaRemainder weight total i = _ at hdiv
  rw [largestRemainder_eq]
  by_cases hi : i ∈ (order weight total).take (total - ∑ i, lowerQuota weight total i)
  -- the leftover column completes a share that was cut
  · have hrem := remainder_ne_zero_of_mem_take hpos hi
    rw [if_pos hi, Nat.add_mul, Nat.one_mul]
    omega
  · rw [if_neg hi, Nat.add_zero]
    omega

theorem moveUnit_below (htotal : 0 < total) {f : Fin n → Nat} (h : BelowUpper weight total f)
    {i j : Fin n} (hw : 0 < weight i) (hi : f i = 0) (hij : i ≠ j) :
    BelowUpper weight total (moveUnit f j i) := by
  intro k
  by_cases hki : k = i
  -- a sliver is one column
  · have hone : 0 < weight i * total := Nat.mul_pos hw htotal
    rw [hki, moveUnit_taker f hij, hi, Nat.zero_add, Nat.one_mul]
    omega
  · have hle := Nat.mul_le_mul_right (∑ j, weight j) (moveUnit_le f hki (j := j))
    exact lt_of_le_of_lt hle (h k)

/-! ## §2. What lending takes. -/

/-- The columns missing below the rounded-down shares. -/
def shortfall (weight : Fin n → Nat) (total : Nat) (f : Fin n → Nat) : Nat :=
  ∑ i, (lowerQuota weight total i - f i)

theorem shortfall_largestRemainder :
    shortfall weight total (largestRemainder weight total) = 0 := by
  unfold shortfall
  apply sum_eq_zero
  intro i _
  rw [largestRemainder_eq]
  omega

/-- A position with a whole column in its share has one in the loop. -/
def QuotaServed (weight : Fin n → Nat) (total : Nat) (f : Fin n → Nat) : Prop :=
  ∀ i, 0 < lowerQuota weight total i → 0 < f i

theorem sliver_served {widths : Fin n → Nat} (h : QuotaServed weight total widths) (i : Fin n) :
    QuotaServed weight total (sliver weight widths i) :=
  fun k hk => sliver_pos i (h k hk)

/-- **The run of the slivers**: each borrowed column pays for one share below a column. -/
theorem shortfall_foldl (l : List (Fin n)) : ∀ {widths : Fin n → Nat},
    QuotaServed weight total widths →
    shortfall weight total (l.foldl (sliver weight) widths)
      ≤ shortfall weight total widths
        + l.countP (fun i => 0 < weight i ∧ lowerQuota weight total i = 0) := by
  induction l with
  | nil =>
      intro widths _
      exact Nat.le_add_right _ _
  | cons i l ih =>
      intro widths h
      have hrest := ih (sliver_served h i)
      rw [List.foldl_cons, List.countP_cons]
      rcases sliver_cases weight widths i with ⟨heq, -⟩ | ⟨heq, -⟩ | ⟨j, ⟨hw, hi⟩, hj, heq⟩
      · rw [heq] at hrest ⊢
        omega
      · rw [heq] at hrest ⊢
        omega
      · have hquota : lowerQuota weight total i = 0 := by
          by_contra hq
          have hserved := h i (Nat.pos_of_ne_zero hq)
          omega
        have hmove : shortfall weight total (moveUnit widths j i)
            ≤ shortfall weight total widths + 1 := sum_shortfall_moveUnit _ widths (hj.ne hi)
        rw [if_pos (by rw [decide_eq_true_eq]; exact ⟨hw, hquota⟩)]
        rw [heq] at hrest ⊢
        omega

variable (hpos : 0 < ∑ i, weight i) (htotal : 0 < total)
include hpos htotal

theorem widthOf_below : BelowUpper weight total (widthOf weight total) := by
  rw [widthOf_eq hpos htotal]
  refine foldl_sliver_keeps (largestRemainder_below hpos) _ ?_
  intro f i j hf hw hi hj
  exact moveUnit_below htotal hf hw hi (hj.ne hi)

theorem shortfall_widthOf : shortfall weight total (widthOf weight total)
    ≤ (univ.filter (fun i => 0 < weight i ∧ lowerQuota weight total i = 0)).card := by
  have hserved : QuotaServed weight total (largestRemainder weight total) := by
    intro i hi
    rw [largestRemainder_eq]
    omega
  have hrun := shortfall_foldl (List.finRange n) hserved
  rw [shortfall_largestRemainder, Nat.zero_add, List.countP_eq_length_filter] at hrun
  rw [widthOf_eq hpos htotal]
  exact hrun

end Positions

/-! ## §3. The widths of a list of weights. -/

/-- The widths against the exact shares `w * total / S`, where `S` is the sum of the weights. -/
structure WithinQuota (weights : List UInt64) (total : Nat) (widths : List Nat) : Prop where
  length_eq : widths.length = weights.length
  /-- No width exceeds its exact share rounded up. -/
  upper : ∀ p ∈ weights.zip widths,
    p.2 * (weights.map UInt64.toNat).sum < p.1.toNat * total + (weights.map UInt64.toNat).sum
  /-- The columns below the rounded-down shares are no more than the shares below a column. -/
  lower : ((weights.zip widths).map
      (fun p => p.1.toNat * total / (weights.map UInt64.toNat).sum - p.2)).sum
    ≤ weights.countP (fun w => w ≠ 0 ∧ w.toNat * total < (weights.map UInt64.toNat).sum)
  /-- When no share is below a column, every width is its share rounded down or up. -/
  rounded : (∀ w ∈ weights, w ≠ 0 → (weights.map UInt64.toNat).sum ≤ w.toNat * total) →
    ∀ p ∈ weights.zip widths,
      p.2 = p.1.toNat * total / (weights.map UInt64.toNat).sum
        ∨ p.2 = (p.1.toNat * total + (weights.map UInt64.toNat).sum - 1)
            / (weights.map UInt64.toNat).sum

/-- Between the share rounded down and one column above it there is only the share rounded up. -/
theorem eq_floor_or_ceil {k m s : Nat} (hs : 0 < s) (hlow : m / s ≤ k) (hup : k * s < m + s) :
    k = m / s ∨ k = (m + s - 1) / s := by
  have hceil : k ≤ (m + s - 1) / s := by
    rw [Nat.le_div_iff_mul_le hs]
    omega
  have hgap : (m + s - 1) / s ≤ m / s + 1 := by
    rw [← Nat.add_div_right m hs]
    exact Nat.div_le_div_right (by omega)
  omega

section List

variable (weights : List UInt64) (total : Nat)

theorem lowerQuota_get (i : Fin weights.length) :
    lowerQuota (fun i => (weights.get i).toNat) total i
      = (weights.get i).toNat * total / (weights.map UInt64.toNat).sum := by
  rw [← sum_weight_eq weights]
  rfl

/-- The shares below a column, counted in the list. -/
theorem card_belowColumn (hsum : 0 < (weights.map UInt64.toNat).sum) :
    (univ.filter (fun i : Fin weights.length => 0 < (weights.get i).toNat
        ∧ lowerQuota (fun i => (weights.get i).toNat) total i = 0)).card
      = weights.countP (fun w => w ≠ 0 ∧ w.toNat * total < (weights.map UInt64.toNat).sum) := by
  conv_rhs => rw [← List.ofFn_get weights]
  rw [countP_ofFn]
  congr 1
  ext i
  rw [mem_filter, mem_filter, decide_eq_true_eq, lowerQuota_get, Nat.div_eq_zero_iff_lt hsum,
    Nat.pos_iff_ne_zero]
  simp [← UInt64.toNat_inj]

/-- The missing columns, added up in the list. -/
theorem sum_zip_shortfall : ((weights.zip (allocateWidths weights total)).map
      (fun p => p.1.toNat * total / (weights.map UInt64.toNat).sum - p.2)).sum
    = shortfall (fun i => (weights.get i).toNat) total
        (widthOf (fun i => (weights.get i).toNat) total) := by
  rw [zip_allocateWidths, List.map_ofFn, List.sum_ofFn]
  apply sum_congr rfl
  intro i _
  rw [lowerQuota_get]
  rfl

end List

/-- **`allocate_widths` STAYS WITHIN QUOTA.** -/
theorem allocateWidths_withinQuota (weights : List UInt64) (total : Nat)
    (hsum : 0 < (weights.map UInt64.toNat).sum) (htotal : 0 < total) :
    WithinQuota weights total (allocateWidths weights total) := by
  set weight := fun i : Fin weights.length => (weights.get i).toNat
  have hS : ∑ i, weight i = (weights.map UInt64.toNat).sum := sum_weight_eq weights
  have hpos : 0 < ∑ i, weight i := hS ▸ hsum
  have hbelow := widthOf_below hpos htotal
  have hshort : shortfall weight total (widthOf weight total)
      ≤ weights.countP (fun w => w ≠ 0 ∧ w.toNat * total < (weights.map UInt64.toNat).sum) := by
    rw [← card_belowColumn weights total hsum]
    exact shortfall_widthOf hpos htotal
  have hupper : ∀ p ∈ weights.zip (allocateWidths weights total),
      p.2 * (weights.map UInt64.toNat).sum
        < p.1.toNat * total + (weights.map UInt64.toNat).sum := by
    intro p hp
    obtain ⟨i, rfl⟩ := mem_zip_allocateWidths hp
    rw [← hS]
    exact hbelow i
  refine
    { length_eq := length_allocateWidths weights total
      upper := hupper
      lower := ?_
      rounded := ?_ }
  · rw [sum_zip_shortfall]
    exact hshort
  · intro hfull p hp
    have hnone : shortfall weight total (widthOf weight total) = 0 := by
      have hzero : weights.countP
          (fun w => w ≠ 0 ∧ w.toNat * total < (weights.map UInt64.toNat).sum) = 0 := by
        rw [List.countP_eq_zero]
        intro w hw
        rw [decide_eq_true_eq]
        rintro ⟨hne, hlt⟩
        have hle := hfull w hw hne
        omega
      omega
    refine eq_floor_or_ceil hsum ?_ (hupper p hp)
    obtain ⟨i, rfl⟩ := mem_zip_allocateWidths hp
    have hi := sum_eq_zero_iff.mp hnone i (mem_univ i)
    rw [lowerQuota_get] at hi
    exact Nat.sub_eq_zero_iff_le.mp hi

/-- Two shares below a column, paid for by the widest. -/
theorem allocateWidths_withinQuota_slivers :
    0 < (([900, 98, 1, 1] : List UInt64).map UInt64.toNat).sum ∧ 0 < 10
      ∧ WithinQuota [900, 98, 1, 1] 10 (allocateWidths [900, 98, 1, 1] 10) :=
  ⟨by decide, by decide, allocateWidths_withinQuota [900, 98, 1, 1] 10 (by decide) (by decide)⟩

end LivediskForensic.Render
