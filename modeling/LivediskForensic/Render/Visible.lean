/-
  LivediskForensic.Render.Visible — WHICH SEGMENTS GET A COLUMN.

  The shares by largest remainder give nothing to a zero weight
  (`weight_pos_of_largestRemainder`): the leftover is served among the
  positions with a remainder, and those have a weight.  The slivers then run
  until every weight is served or until no width can lend
  (`foldl_sliver_cases`), and either way the count is the smaller of the two
  bounds.
-/
import LivediskForensic.Render.Widths

namespace LivediskForensic.Render

open LivediskForensic.Lib
open Finset

section Positions

variable {n : Nat} {weight : Fin n → Nat} {total : Nat}

/-! ## §1. Before the slivers. -/

/-- The front of the order, as long as the leftover reaches, has remainders. -/
theorem remainder_ne_zero_of_mem_take (hpos : 0 < ∑ i, weight i) {i : Fin n}
    (h : i ∈ (order weight total).take (total - ∑ i, lowerQuota weight total i)) :
    quotaRemainder weight total i ≠ 0 := by
  have hsorted : (order weight total).Pairwise
      (fun a b => quotaRemainder weight total b ≠ 0 → quotaRemainder weight total a ≠ 0) := by
    refine (sortByKey_pairwise _ _).imp ?_
    intro a b hab hb
    rw [OrderDual.toDual_le_toDual] at hab
    omega
  have hcount : (order weight total).countP (fun i => quotaRemainder weight total i ≠ 0)
      = (univ.filter (fun i => quotaRemainder weight total i ≠ 0)).card := by
    rw [countP_order]
    simp only [decide_eq_true_eq]
  exact mem_take_of_pairwise hsorted (hcount ▸ deficit_le_card weight total hpos) i h

/-- The leftover pass, position by position. -/
theorem largestRemainder_eq (weight : Fin n → Nat) (total : Nat) (i : Fin n) :
    largestRemainder weight total i = lowerQuota weight total i
      + if i ∈ (order weight total).take (total - ∑ i, lowerQuota weight total i) then 1 else 0 :=
  handOut_of_nodup _ _ _ i (nodup_order weight total)

/-- **A leftover column never lands on a zero weight.** -/
theorem weight_pos_of_largestRemainder (hpos : 0 < ∑ i, weight i) {i : Fin n}
    (h : 0 < largestRemainder weight total i) : 0 < weight i := by
  by_contra hw
  have hzero : weight i = 0 := by omega
  have hquota : lowerQuota weight total i = 0 := by
    unfold lowerQuota
    rw [hzero, Nat.zero_mul, Nat.zero_div]
  have hrem : quotaRemainder weight total i = 0 := by
    unfold quotaRemainder
    rw [hzero, Nat.zero_mul, Nat.zero_mod]
  have hnot : i ∉ (order weight total).take (total - ∑ i, lowerQuota weight total i) :=
    fun hmem => remainder_ne_zero_of_mem_take hpos hmem hrem
  rw [largestRemainder_eq, if_neg hnot, hquota] at h
  omega

/-! ## §2. The slivers. -/

/-- The lender keeps a column and nobody else loses any. -/
theorem moveUnit_pos {f : Fin n → Nat} {j i k : Fin n} (hj : 1 < f j) (hij : i ≠ j)
    (hk : 0 < f k) : 0 < moveUnit f j i k := by
  have hle := le_moveUnit f hij (k := k)
  by_cases hkj : k = j
  · rw [hkj, moveUnit_giver f (Ne.symm hij)]
    omega
  · rw [if_neg hkj] at hle
    omega

/-- **No column is starved** by a sliver. -/
theorem sliver_pos {widths : Fin n → Nat} (i : Fin n) {k : Fin n} (h : 0 < widths k) :
    0 < sliver weight widths i k := by
  refine sliver_keeps (P := fun f => 0 < f k) h i ?_
  intro j _ hi hj
  exact moveUnit_pos hj.one_lt (hj.ne hi) h

theorem foldl_sliver_pos {k : Fin n} (l : List (Fin n)) {widths : Fin n → Nat}
    (h : 0 < widths k) : 0 < l.foldl (sliver weight) widths k := by
  refine foldl_sliver_keeps (P := fun f => 0 < f k) h l ?_
  intro f i j hf _ hi hj
  exact moveUnit_pos hj.one_lt (hj.ne hi) hf

/-- Slivers go to positions with a weight only. -/
theorem weight_pos_of_foldl_sliver {k : Fin n} (l : List (Fin n)) {widths : Fin n → Nat}
    (h : 0 < widths k → 0 < weight k) : 0 < l.foldl (sliver weight) widths k → 0 < weight k := by
  refine foldl_sliver_keeps (P := fun f => 0 < f k → 0 < weight k) h l ?_
  intro f i j hf hw _ _ hk
  by_cases hki : k = i
  · rwa [hki]
  · have hle := moveUnit_le f hki (j := j)
    exact hf (by omega)

/-- Without a lender nothing moves. -/
theorem foldl_sliver_of_le_one (l : List (Fin n)) {widths : Fin n → Nat}
    (h : ∀ j, widths j ≤ 1) : l.foldl (sliver weight) widths = widths := by
  refine foldl_sliver_keeps (P := fun f => f = widths) rfl l ?_
  rintro f i j rfl _ _ hj
  exact absurd (h j) (Nat.not_le_of_lt hj.one_lt)

/-- **The loop serves every weight, or runs until nothing can lend.** -/
theorem foldl_sliver_cases (l : List (Fin n)) : ∀ widths : Fin n → Nat,
    (∀ i ∈ l, 0 < weight i → 0 < l.foldl (sliver weight) widths i)
      ∨ ∀ j, l.foldl (sliver weight) widths j ≤ 1 := by
  induction l with
  | nil =>
      intro widths
      exact Or.inl (fun i hi => absurd hi List.not_mem_nil)
  | cons i l ih =>
      intro widths
      rw [List.foldl_cons]
      have hserved : 0 < sliver weight widths i i ∨ ¬ 0 < weight i →
          (∀ k ∈ i :: l, 0 < weight k → 0 < l.foldl (sliver weight) (sliver weight widths i) k)
            ∨ ∀ j, l.foldl (sliver weight) (sliver weight widths i) j ≤ 1 := by
        intro hi
        refine (ih (sliver weight widths i)).imp_left ?_
        intro hl k hk hwk
        rcases List.mem_cons.mp hk with rfl | hk
        · exact foldl_sliver_pos l (hi.resolve_right (fun hn => hn hwk))
        · exact hl k hk hwk
      rcases sliver_cases weight widths i with ⟨heq, hi⟩ | ⟨heq, hone⟩ | ⟨j, ⟨-, hi⟩, hj, heq⟩
      · by_cases hwi : 0 < weight i
        · refine hserved (Or.inl ?_)
          rw [heq]
          exact hi hwi
        · exact hserved (Or.inr hwi)
      · refine Or.inr (fun j => ?_)
        rw [heq, foldl_sliver_of_le_one l hone]
        exact hone j
      · refine hserved (Or.inl ?_)
        rw [heq, moveUnit_taker widths (hj.ne hi)]
        exact Nat.succ_pos _

/-! ## §3. The positions with a column. -/

/-- The positions of `f` that are not zero. -/
def support (f : Fin n → Nat) : Finset (Fin n) := univ.filter (fun i => 0 < f i)

theorem mem_support {f : Fin n → Nat} {i : Fin n} : i ∈ support f ↔ 0 < f i := by
  unfold support
  rw [mem_filter]
  exact and_iff_right (mem_univ i)

theorem sum_eq_sum_support (f : Fin n → Nat) : ∑ i, f i = ∑ i ∈ support f, f i := by
  refine (sum_subset (subset_univ _) ?_).symm
  intro i _ hi
  rw [mem_support] at hi
  omega

theorem card_support_le_sum (f : Fin n → Nat) : (support f).card ≤ ∑ i, f i := by
  rw [sum_eq_sum_support, card_eq_sum_ones]
  exact sum_le_sum (fun i hi => mem_support.mp hi)

theorem sum_eq_card_support {f : Fin n → Nat} (h : ∀ i, f i ≤ 1) :
    ∑ i, f i = (support f).card := by
  rw [sum_eq_sum_support, card_eq_sum_ones]
  apply sum_congr rfl
  intro i hi
  have := mem_support.mp hi
  have := h i
  omega

variable (hpos : 0 < ∑ i, weight i) (htotal : 0 < total)
include hpos htotal

theorem widthOf_eq : widthOf weight total
    = (List.finRange n).foldl (sliver weight) (largestRemainder weight total) := by
  have hn : n ≠ 0 := by
    intro hn
    subst hn
    simp at hpos
  have hnot : ¬ (n = 0 ∨ total = 0 ∨ ∑ i, weight i = 0) := by omega
  unfold widthOf
  rw [if_neg hnot]

theorem support_widthOf_subset : support (widthOf weight total) ⊆ support weight := by
  intro i hi
  rw [mem_support, widthOf_eq hpos htotal] at hi
  rw [mem_support]
  exact weight_pos_of_foldl_sliver _ (weight_pos_of_largestRemainder hpos) hi

/-- The two ways the loop can end. -/
theorem widthOf_cases : support weight = support (widthOf weight total)
    ∨ ∀ j, widthOf weight total j ≤ 1 := by
  rw [widthOf_eq hpos htotal]
  refine (foldl_sliver_cases (List.finRange n) _).imp_left ?_
  intro hall
  refine Subset.antisymm ?_ ?_
  · intro i hi
    rw [mem_support] at hi ⊢
    exact hall i (List.mem_finRange i) hi
  · rw [← widthOf_eq hpos htotal]
    exact support_widthOf_subset hpos htotal

/-- **As many positions have a column as weights and columns allow.** -/
theorem card_support_widthOf :
    (support (widthOf weight total)).card = min (support weight).card total := by
  have hsum := sum_widthOf weight total hpos
  rcases widthOf_cases hpos htotal with hall | hone
  · have hle := card_support_le_sum (widthOf weight total)
    rw [hall]
    omega
  · have hcard := sum_eq_card_support hone
    have hsub := card_le_card (support_widthOf_subset hpos htotal)
    omega

theorem support_widthOf_eq (h : (support weight).card ≤ total) :
    support (widthOf weight total) = support weight := by
  apply eq_of_subset_of_card_le (support_widthOf_subset hpos htotal)
  rw [card_support_widthOf hpos htotal]
  omega

/-- With fewer columns than weights no position gets two. -/
theorem widthOf_le_one (h : total < (support weight).card) (i : Fin n) :
    widthOf weight total i ≤ 1 := by
  rcases widthOf_cases hpos htotal with hall | hone
  · have hcard := card_support_widthOf hpos htotal
    rw [← hall] at hcard
    omega
  · exact hone i

end Positions

/-! ## §4. The widths of a list of weights. -/

/-- Position by position, the weight and the width. -/
theorem zip_allocateWidths (weights : List UInt64) (total : Nat) :
    weights.zip (allocateWidths weights total) = List.ofFn (fun i : Fin weights.length =>
      (weights.get i, widthOf (fun i => (weights.get i).toNat) total i)) := by
  apply List.ext_getElem
  · rw [List.length_zip, length_allocateWidths, List.length_ofFn, Nat.min_self]
  · intro i h1 h2
    rw [List.getElem_zip, List.getElem_ofFn]
    unfold allocateWidths
    rw [List.getElem_ofFn]
    rfl

theorem mem_zip_allocateWidths {weights : List UInt64} {total : Nat} {p : UInt64 × Nat}
    (h : p ∈ weights.zip (allocateWidths weights total)) :
    ∃ i : Fin weights.length,
      p = (weights.get i, widthOf (fun i => (weights.get i).toNat) total i) := by
  rw [zip_allocateWidths, List.mem_ofFn] at h
  obtain ⟨i, hi⟩ := h
  exact ⟨i, hi.symm⟩

theorem countP_ofFn {α : Type} {n : Nat} (f : Fin n → α) (p : α → Bool) :
    (List.ofFn f).countP p = (univ.filter (fun i => p (f i))).card := by
  rw [List.ofFn_eq_map, List.countP_map, List.countP_eq_length_filter]
  show _ = ((List.finRange n).filter (fun i => decide (p (f i) = true))).length
  simp only [Bool.decide_eq_true]
  rfl

theorem card_support_weight (weights : List UInt64) :
    (support (fun i : Fin weights.length => (weights.get i).toNat)).card
      = weights.countP (fun w => w ≠ 0) := by
  conv_rhs => rw [← List.ofFn_get weights]
  rw [countP_ofFn]
  congr 1
  ext i
  rw [mem_support, mem_filter, decide_eq_true_eq, Nat.pos_iff_ne_zero]
  simp [← UInt64.toNat_inj]

/-- The widths show as many segments as the columns allow. -/
structure MostVisible (weights : List UInt64) (total : Nat) (widths : List Nat) : Prop where
  length_eq : widths.length = weights.length
  count : widths.countP (fun w => 1 ≤ w) = min (weights.countP (fun w => w ≠ 0)) total
  nonempty : ∀ p ∈ weights.zip widths, 1 ≤ p.2 → p.1 ≠ 0
  /-- With enough columns nothing is hidden. -/
  all_shown : weights.countP (fun w => w ≠ 0) ≤ total →
    ∀ p ∈ weights.zip widths, p.1 ≠ 0 → 1 ≤ p.2
  /-- Without, nobody takes two. -/
  one_each : total < weights.countP (fun w => w ≠ 0) →
    ∀ p ∈ weights.zip widths, 1 ≤ p.2 → p.2 = 1
  zero : ∀ p ∈ weights.zip widths, p.1 = 0 → p.2 = 0

/-- **`allocate_widths` makes as many segments visible as the bar can hold.** -/
theorem allocateWidths_mostVisible {weights : List UInt64} {total : Nat}
    (hk : 1 ≤ weights.countP (fun w => w ≠ 0)) (htotal : 1 ≤ total) :
    MostVisible weights total (allocateWidths weights total) := by
  set weight := fun i : Fin weights.length => (weights.get i).toNat with hweight
  have hcard : (support weight).card = weights.countP (fun w => w ≠ 0) :=
    card_support_weight weights
  have hpos : 0 < ∑ i, weight i := by
    have hle := card_support_le_sum weight
    omega
  have hne : ∀ i, weights.get i ≠ 0 ↔ i ∈ support weight := by
    intro i
    rw [mem_support, Nat.pos_iff_ne_zero, not_iff_not, hweight]
    simp [← UInt64.toNat_inj]
  have hnonempty : ∀ i, 1 ≤ widthOf weight total i → weights.get i ≠ 0 := by
    intro i hi
    exact (hne i).mpr (support_widthOf_subset hpos htotal (mem_support.mpr hi))
  refine
    { length_eq := length_allocateWidths weights total
      count := ?_
      nonempty := ?_
      all_shown := ?_
      one_each := ?_
      zero := ?_ }
  · have hcount : (allocateWidths weights total).countP (fun w => 1 ≤ w)
        = (support (widthOf weight total)).card := by
      unfold allocateWidths support
      rw [countP_ofFn]
      simp only [decide_eq_true_eq]
      rfl
    rw [hcount, card_support_widthOf hpos htotal, hcard]
  · intro p hp
    obtain ⟨i, rfl⟩ := mem_zip_allocateWidths hp
    exact hnonempty i
  · intro hle p hp hp1
    obtain ⟨i, rfl⟩ := mem_zip_allocateWidths hp
    rw [← hcard] at hle
    rw [hne, ← support_widthOf_eq hpos htotal hle, mem_support] at hp1
    exact hp1
  · intro hlt p hp hp2
    obtain ⟨i, rfl⟩ := mem_zip_allocateWidths hp
    rw [← hcard] at hlt
    exact Nat.le_antisymm (widthOf_le_one hpos htotal hlt i) hp2
  · intro p hp hp1
    obtain ⟨i, rfl⟩ := mem_zip_allocateWidths hp
    by_contra hz
    exact hnonempty i (Nat.pos_of_ne_zero hz) hp1

/-- Two columns for three slivers and nothing. -/
theorem allocateWidths_mostVisible_narrow :
    MostVisible [5, 0, 1, 1] 2 (allocateWidths [5, 0, 1, 1] 2) :=
  allocateWidths_mostVisible (by decide) (by decide)

end LivediskForensic.Render
