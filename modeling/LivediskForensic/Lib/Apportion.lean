/-
  LivediskForensic.Lib.Apportion
  ───────────────────────────────
  APPORTIONMENT of a whole number of units to weighted claimants: the lower
  quotas with their remainders, handing single units out along a list, and
  moving a unit from one claimant to another.

      deficit_lt           — the lower quotas miss the total by fewer units
                             than there are claimants
      deficit_le_card      — and by no more than there are claimants with a
                             remainder
      hareShare_mono       — the share by largest remainder keeps the order of
                             the weights
      hareShare_mul        — and depends on their proportions only
      sum_handOut          — handing out adds up
      handOut_of_nodup     — only the front of the list is served, and once
      sum_moveUnit         — moving keeps the sum
-/
import Mathlib.Algebra.BigOperators.Fin
import Mathlib.Algebra.Order.BigOperators.Group.Finset

namespace LivediskForensic.Lib

open Finset

variable {ι : Type*} [DecidableEq ι]

/-! ## §1. Quotas. -/

section Quota

variable [Fintype ι] (weight : ι → Nat) (total : Nat)

/-- The exact share of `i`, rounded down. -/
def lowerQuota (i : ι) : Nat := weight i * total / ∑ j, weight j

/-- What rounding down cuts off, in units of one over the sum of the weights. -/
def quotaRemainder (i : ι) : Nat := weight i * total % ∑ j, weight j

omit [DecidableEq ι] in
/-- The quotas and their remainders make up the total. -/
theorem sum_lowerQuota_mul :
    (∑ i, lowerQuota weight total i) * (∑ j, weight j) + ∑ i, quotaRemainder weight total i
      = total * ∑ j, weight j := by
  rw [sum_mul, ← sum_add_distrib, mul_sum]
  apply sum_congr rfl
  intro i _
  show weight i * total / _ * _ + weight i * total % _ = total * weight i
  rw [Nat.div_add_mod', Nat.mul_comm]

variable (hsum : 0 < ∑ j, weight j)
include hsum

omit [DecidableEq ι] in
theorem sum_lowerQuota_le : ∑ i, lowerQuota weight total i ≤ total := by
  have hmul := sum_lowerQuota_mul weight total
  refine Nat.le_of_mul_le_mul_right ?_ hsum
  omega

omit [DecidableEq ι] in
/-- **The deficit is smaller than the number of claimants.** -/
theorem deficit_lt : total - ∑ i, lowerQuota weight total i < Fintype.card ι := by
  have hmul := sum_lowerQuota_mul weight total
  have hne : (univ : Finset ι).Nonempty := by
    by_contra hempty
    rw [not_nonempty_iff_eq_empty] at hempty
    rw [hempty, sum_empty] at hsum
    omega
  -- every remainder is below the sum of the weights
  have hrem : ∑ i, quotaRemainder weight total i < Fintype.card ι * ∑ j, weight j := by
    rw [← smul_eq_mul, ← card_univ, ← sum_const]
    exact sum_lt_sum_of_nonempty hne (fun i _ => Nat.mod_lt _ hsum)
  apply Nat.lt_of_mul_lt_mul_right (a := ∑ j, weight j)
  rw [Nat.sub_mul]
  omega

omit [DecidableEq ι] in
/-- **Enough claimants have a remainder** for the deficit to be served among them. -/
theorem deficit_le_card :
    total - ∑ i, lowerQuota weight total i
      ≤ (univ.filter (fun i => quotaRemainder weight total i ≠ 0)).card := by
  have hmul := sum_lowerQuota_mul weight total
  have hrem : ∑ i, quotaRemainder weight total i
      ≤ (univ.filter (fun i => quotaRemainder weight total i ≠ 0)).card * ∑ j, weight j := by
    rw [← sum_filter_ne_zero, ← smul_eq_mul]
    exact sum_le_card_nsmul _ _ _ (fun i _ => (Nat.mod_lt _ hsum).le)
  refine Nat.le_of_mul_le_mul_right ?_ hsum
  rw [Nat.sub_mul]
  omega

end Quota

section Hare

variable {κ : Type*} [Fintype κ] [LinearOrder κ] (weight : κ → Nat) (total : Nat)

/-- How many claimants the leftover is offered to before `i`: those with a larger remainder, and
those in front of `i` with the same. -/
def offeredBefore (i : κ) : Nat :=
  (univ.filter (fun j => quotaRemainder weight total i < quotaRemainder weight total j
    ∨ (quotaRemainder weight total j = quotaRemainder weight total i ∧ j < i))).card

/-- **The share of `i` by largest remainder**: the lower quota, and one of the leftover units. -/
def hareShare (i : κ) : Nat :=
  lowerQuota weight total i
    + if offeredBefore weight total i < total - ∑ j, lowerQuota weight total j then 1 else 0

variable {weight total}

/-- A larger remainder is offered the leftover earlier. -/
theorem offeredBefore_le {a b : κ}
    (h : quotaRemainder weight total b < quotaRemainder weight total a) :
    offeredBefore weight total a ≤ offeredBefore weight total b := by
  unfold offeredBefore
  apply card_le_card
  intro j hj
  rw [mem_filter] at hj ⊢
  refine ⟨hj.1, Or.inl ?_⟩
  rcases hj.2 with hlt | ⟨heq, -⟩ <;> omega

/-- **A larger weight has no smaller share.** -/
theorem hareShare_mono {a b : κ} (h : weight b < weight a) :
    hareShare weight total b ≤ hareShare weight total a := by
  have hquota : lowerQuota weight total b ≤ lowerQuota weight total a :=
    Nat.div_le_div_right (Nat.mul_le_mul_right total h.le)
  unfold hareShare
  by_cases heq : lowerQuota weight total b = lowerQuota weight total a
  · by_cases htotal : total = 0
    · subst htotal
      simp [lowerQuota]
    -- equal quotas: the larger weight leaves the larger remainder
    · have hmul : weight b * total < weight a * total :=
        Nat.mul_lt_mul_of_pos_right h (Nat.pos_of_ne_zero htotal)
      have ha := Nat.div_add_mod (weight a * total) (∑ j, weight j)
      have hb := Nat.div_add_mod (weight b * total) (∑ j, weight j)
      change (∑ j, weight j) * lowerQuota weight total a + quotaRemainder weight total a = _ at ha
      change (∑ j, weight j) * lowerQuota weight total b + quotaRemainder weight total b = _ at hb
      rw [heq] at hb
      have hle : offeredBefore weight total a ≤ offeredBefore weight total b :=
        offeredBefore_le (by omega)
      split_ifs <;> omega
  · split_ifs <;> omega

/-- Equal weights are offered the leftover in order. -/
theorem hareShare_of_eq {a b : κ} (h : weight a = weight b) (hab : a ≤ b) :
    hareShare weight total b ≤ hareShare weight total a
      ∧ hareShare weight total a ≤ hareShare weight total b + 1 := by
  have hquota : lowerQuota weight total a = lowerQuota weight total b := by
    unfold lowerQuota
    rw [h]
  have hrem : quotaRemainder weight total a = quotaRemainder weight total b := by
    unfold quotaRemainder
    rw [h]
  have hle : offeredBefore weight total a ≤ offeredBefore weight total b := by
    unfold offeredBefore
    apply card_le_card
    intro j hj
    rw [mem_filter] at hj ⊢
    refine ⟨hj.1, ?_⟩
    rw [← hrem]
    rcases hj.2 with hlt | ⟨heq, hja⟩
    · exact Or.inl hlt
    · exact Or.inr ⟨heq, lt_of_lt_of_le hja hab⟩
  unfold hareShare
  rw [hquota]
  split_ifs <;> omega

/-- **Only the proportions of the weights count.** -/
theorem hareShare_mul {k : Nat} (hk : 0 < k) :
    hareShare (fun i => k * weight i) total = hareShare weight total := by
  have hsum : ∑ j, k * weight j = k * ∑ j, weight j := (mul_sum _ _ _).symm
  have hquota : ∀ i, lowerQuota (fun i => k * weight i) total i = lowerQuota weight total i := by
    intro i
    unfold lowerQuota
    rw [hsum, Nat.mul_assoc, Nat.mul_div_mul_left _ _ hk]
  have hrem : ∀ i, quotaRemainder (fun i => k * weight i) total i
      = k * quotaRemainder weight total i := by
    intro i
    unfold quotaRemainder
    rw [hsum, Nat.mul_assoc, Nat.mul_mod_mul_left]
  have hoffered : ∀ i, offeredBefore (fun i => k * weight i) total i
      = offeredBefore weight total i := by
    intro i
    unfold offeredBefore
    simp only [hrem, Nat.mul_lt_mul_left hk, Nat.mul_right_inj (Nat.ne_of_gt hk)]
  funext i
  unfold hareShare
  simp only [hquota, hoffered]

end Hare

/-! ## §2. Single units. -/

/-- One more unit for `i`. -/
def addUnit (f : ι → Nat) (i : ι) : ι → Nat := Function.update f i (f i + 1)

/-- One unit each to the claimants of the list, until the units are used up. -/
def handOut : List ι → Nat → (ι → Nat) → (ι → Nat)
  | [], _, f => f
  | _ :: _, 0, f => f
  | i :: order, units + 1, f => handOut order units (addUnit f i)

omit [DecidableEq ι] in
/-- In a list with the entries of `p` in front, the first ones have `p`. -/
theorem mem_take_of_pairwise {p : ι → Prop} [DecidablePred p] {l : List ι} :
    l.Pairwise (fun a b => p b → p a) →
    ∀ {units : Nat}, units ≤ l.countP p → ∀ a ∈ l.take units, p a := by
  induction l with
  | nil =>
      intro _ units _ a ha
      rw [List.take_nil] at ha
      exact absurd ha List.not_mem_nil
  | cons b l ih =>
      intro hpw units hle a ha
      cases units with
      | zero => exact absurd ha List.not_mem_nil
      | succ units =>
          have hb : p b := by
            by_contra hb
            -- then `p` holds nowhere behind `b`
            have hzero : l.countP p = 0 := by
              rw [List.countP_eq_zero]
              intro c hc
              rw [decide_eq_true_eq]
              exact fun hpc => hb (List.rel_of_pairwise_cons hpw hc hpc)
            rw [List.countP_cons_of_neg (by rwa [decide_eq_true_eq]), hzero] at hle
            omega
          rw [List.countP_cons_of_pos (by rwa [decide_eq_true_eq])] at hle
          rw [List.take_succ_cons, List.mem_cons] at ha
          rcases ha with rfl | ha
          · exact hb
          · exact ih (List.Pairwise.of_cons hpw) (Nat.le_of_succ_le_succ hle) a ha

/-- **Over a list without repetitions nobody is served twice.** -/
theorem handOut_of_nodup (order : List ι) : ∀ (units : Nat) (f : ι → Nat) (i : ι), order.Nodup →
    handOut order units f i = f i + if i ∈ order.take units then 1 else 0 := by
  induction order with
  | nil =>
      intro units f i _
      rw [List.take_nil, if_neg List.not_mem_nil]
      rfl
  | cons k order ih =>
      intro units f i hnodup
      rw [List.nodup_cons] at hnodup
      cases units with
      | zero =>
          rw [List.take_zero, if_neg List.not_mem_nil]
          rfl
      | succ units =>
          show handOut order units (addUnit f k) i = _
          rw [ih units _ i hnodup.2, List.take_succ_cons]
          by_cases hik : i = k
          -- served here, and not again further down
          · have hlater : i ∉ order.take units :=
              fun hmem => hnodup.1 (hik ▸ List.mem_of_mem_take hmem)
            have hunit : addUnit f k i = f i + 1 := by
              unfold addUnit
              rw [hik, Function.update_self]
            rw [if_neg hlater, if_pos (List.mem_cons.mpr (Or.inl hik)), hunit, Nat.add_zero]
          · have hunit : addUnit f k i = f i := Function.update_of_ne hik _ _
            have hmem : (i ∈ k :: order.take units) = (i ∈ order.take units) := by
              rw [List.mem_cons, eq_iff_iff]
              exact or_iff_right hik
            rw [hunit]
            simp only [hmem]

omit [DecidableEq ι] in
/-- In a strictly ordered list an entry is among the first `k` when fewer than `k` precede it. -/
theorem mem_take_iff_countP_lt {r : ι → ι → Prop} [DecidableRel r]
    (hasymm : ∀ a b, r a b → ¬ r b a) {l : List ι} : l.Pairwise r →
    ∀ {a : ι} {k : Nat}, a ∈ l → (a ∈ l.take k ↔ l.countP (fun b => r b a) < k) := by
  induction l with
  | nil =>
      intro _ a k ha
      exact absurd ha List.not_mem_nil
  | cons b l ih =>
      intro hpw a k ha
      have hirrefl : ∀ x, ¬ r x x := fun x hx => hasymm x x hx hx
      rw [List.pairwise_cons] at hpw
      cases k with
      | zero =>
          rw [List.take_zero]
          exact ⟨fun h => absurd h List.not_mem_nil, fun h => absurd h (Nat.not_lt_zero _)⟩
      | succ k =>
          rw [List.take_succ_cons, List.mem_cons]
          rcases List.mem_cons.mp ha with hab | hal
          -- nothing precedes the head
          · have hzero : (b :: l).countP (fun x => r x a) = 0 := by
              rw [List.countP_eq_zero]
              intro x hx
              rw [decide_eq_true_eq, hab]
              rcases List.mem_cons.mp hx with hxb | hxl
              · rw [hxb]
                exact hirrefl b
              · exact hasymm b x (hpw.1 x hxl)
            rw [hzero]
            exact ⟨fun _ => Nat.succ_pos k, fun _ => Or.inl hab⟩
          · have hba : r b a := hpw.1 a hal
            have hne : a ≠ b := fun h => hirrefl a (by rw [← h] at hba; exact hba)
            rw [List.countP_cons_of_pos (by rwa [decide_eq_true_eq]), Nat.succ_lt_succ_iff,
              ← ih hpw.2 hal]
            exact or_iff_right hne

/-- A unit of `j` goes to `i`. -/
def moveUnit (f : ι → Nat) (j i : ι) : ι → Nat :=
  addUnit (Function.update f j (f j - 1)) i

section Moves

variable (f : ι → Nat) {i j k : ι}

theorem moveUnit_taker (h : i ≠ j) : moveUnit f j i i = f i + 1 := by
  unfold moveUnit addUnit
  rw [Function.update_self, Function.update_of_ne h]

theorem moveUnit_giver (h : j ≠ i) : moveUnit f j i j = f j - 1 := by
  unfold moveUnit addUnit
  rw [Function.update_of_ne h, Function.update_self]

theorem moveUnit_other (hki : k ≠ i) (hkj : k ≠ j) : moveUnit f j i k = f k := by
  unfold moveUnit addUnit
  rw [Function.update_of_ne hki, Function.update_of_ne hkj]

/-- Only the taker gains. -/
theorem moveUnit_le (hki : k ≠ i) : moveUnit f j i k ≤ f k := by
  by_cases hkj : k = j
  · subst hkj
    rw [moveUnit_giver f hki]
    omega
  · rw [moveUnit_other f hki hkj]

/-- The giver loses one unit, and nobody else any. -/
theorem le_moveUnit (hij : i ≠ j) : f k ≤ moveUnit f j i k + if k = j then 1 else 0 := by
  by_cases hkj : k = j
  · subst hkj
    rw [moveUnit_giver f (Ne.symm hij), if_pos rfl]
    omega
  · rw [if_neg hkj]
    by_cases hki : k = i
    · subst hki
      rw [moveUnit_taker f hkj]
      omega
    · rw [moveUnit_other f hki hkj]
      omega

end Moves

section Sums

variable [Fintype ι]

theorem sum_addUnit (f : ι → Nat) (i : ι) : ∑ k, addUnit f i k = ∑ k, f k + 1 := by
  have hadd := add_sum_erase univ f (mem_univ i)
  unfold addUnit
  rw [sum_update_of_mem (mem_univ i)]
  rw [← sdiff_singleton_eq_erase] at hadd
  omega

/-- **Handing out adds up**: every unit is placed, as far as the list goes. -/
theorem sum_handOut (order : List ι) : ∀ (units : Nat) (f : ι → Nat),
    ∑ k, handOut order units f k = ∑ k, f k + min units order.length := by
  induction order with
  | nil =>
      intro units f
      show ∑ k, f k = _
      rw [List.length_nil, Nat.min_zero, Nat.add_zero]
  | cons i order ih =>
      intro units f
      cases units with
      | zero =>
          show ∑ k, f k = _
          rw [Nat.zero_min, Nat.add_zero]
      | succ units =>
          show ∑ k, handOut order units (addUnit f i) k = _
          rw [ih, sum_addUnit, List.length_cons]
          omega

/-- **Moving a unit keeps the sum.** -/
theorem sum_moveUnit {f : ι → Nat} {j : ι} (h : 0 < f j) (i : ι) :
    ∑ k, moveUnit f j i k = ∑ k, f k := by
  unfold moveUnit
  rw [sum_addUnit, sum_update_of_mem (mem_univ j)]
  have hadd := add_sum_erase univ f (mem_univ j)
  rw [← sdiff_singleton_eq_erase] at hadd
  omega

/-- What is missing below `q` grows by one unit at most when one is moved. -/
theorem sum_shortfall_moveUnit (q f : ι → Nat) {i j : ι} (hij : i ≠ j) :
    ∑ k, (q k - moveUnit f j i k) ≤ ∑ k, (q k - f k) + 1 := by
  have hone : ∑ k, (if k = j then 1 else 0) = 1 := by
    rw [sum_ite_eq' univ j, if_pos (mem_univ j)]
  calc ∑ k, (q k - moveUnit f j i k)
      ≤ ∑ k, ((q k - f k) + if k = j then 1 else 0) := by
        apply sum_le_sum
        intro k _
        have hk := le_moveUnit f hij (k := k)
        omega
    _ = ∑ k, (q k - f k) + 1 := by rw [sum_add_distrib, hone]

end Sums

end LivediskForensic.Lib
