/-
  LivediskForensic.Render.WidthOrder — WHEN A BAR SHOWS A LARGER SEGMENT
  NARROWER THAN A SMALLER ONE.

  The leftover pass keeps the order of the weights: its shares are the shares
  by largest remainder (`largestRemainder_eq_hareShare`), and these are
  monotone.  The slivers do not.  They level the shares from the top, the last
  of the widest first (`foldl_sliver_levelled`), so of two segments of one
  width the later one loses its column first, also when it is the larger.

      widths_le_iff  — for every pair, exactly when the order is kept
-/
import LivediskForensic.Render.Visible

namespace LivediskForensic.Render

open LivediskForensic.Lib
open Finset

section Positions

variable {n : Nat} {weight : Fin n → Nat} {total : Nat}

/-! ## §1. The leftover pass. -/

/-- What comes earlier in the order has a larger remainder, or the same and a smaller index. -/
theorem order_pairwise : (order weight total).Pairwise (fun a b =>
    quotaRemainder weight total b < quotaRemainder weight total a
      ∨ (quotaRemainder weight total a = quotaRemainder weight total b ∧ a < b)) := by
  have hstable := sortByKey_pairwise_stable
    (fun i => OrderDual.toDual (quotaRemainder weight total i)) (List.pairwise_lt_finRange n)
  refine hstable.imp ?_
  rintro a b (hlt | ⟨heq, hab⟩)
  · exact Or.inl (OrderDual.toDual_lt_toDual.mp hlt)
  · exact Or.inr ⟨OrderDual.toDual_inj.mp heq, hab⟩

/-- **The leftover pass gives the shares by largest remainder.** -/
theorem largestRemainder_eq_hareShare :
    largestRemainder weight total = hareShare weight total := by
  funext i
  have hasymm : ∀ a b : Fin n,
      (quotaRemainder weight total b < quotaRemainder weight total a
        ∨ (quotaRemainder weight total a = quotaRemainder weight total b ∧ a < b)) →
      ¬ (quotaRemainder weight total a < quotaRemainder weight total b
        ∨ (quotaRemainder weight total b = quotaRemainder weight total a ∧ b < a)) := by
    rintro a b (hlt | ⟨heq, hab⟩) (hlt' | ⟨heq', hba⟩)
    · omega
    · omega
    · omega
    · exact absurd hab (lt_asymm hba)
  have hmem : i ∈ order weight total := by
    unfold order
    rw [mem_sortByKey]
    exact List.mem_finRange i
  rw [largestRemainder_eq]
  unfold hareShare offeredBefore
  simp only [mem_take_iff_countP_lt hasymm order_pairwise hmem, countP_order, decide_eq_true_eq]

/-! ## §2. The slivers. -/

/-- A column from a lender is one move. -/
theorem moved_moveUnit {f : Fin n → Nat} {i j : Fin n} (hi : f i = 0) (hj : Lender f j) :
    Moved f (moveUnit f j i) i j := by
  have hone := hj.one_lt
  refine ⟨⟨hi, ?_⟩, ?_, ?_⟩
  · rw [moveUnit_taker f (hj.ne hi), hi]
  · rw [moveUnit_giver f (Ne.symm (hj.ne hi))]
    omega
  · intro k hki hkj
    exact moveUnit_other f hki hkj

/-- **The run of the slivers** levels the shares. -/
theorem foldl_sliver_levelled {share widths : Fin n → Nat} (l : List (Fin n))
    (h : Levelled weight share widths) :
    Levelled weight share (l.foldl (sliver weight) widths) := by
  refine foldl_sliver_keeps h l ?_
  intro f i j hf hw hi hj
  exact hf.move hw hj (moved_moveUnit hi hj)

/-- A sliver takes nothing from a position without a column. -/
theorem sliver_eq_zero {widths : Fin n → Nat} {i k : Fin n} (hki : k ≠ i) (hk : widths k = 0) :
    sliver weight widths i k = 0 := by
  refine sliver_keeps (P := fun f => f k = 0) hk i ?_
  intro j _ _ _
  have hle := moveUnit_le widths hki (j := j)
  show moveUnit widths j i k = 0
  omega

/-- The slivers are served in order: behind a position that is left without a column nobody is
given one. -/
theorem foldl_sliver_front (l : List (Fin n)) : ∀ {widths : Fin n → Nat}, l.Pairwise (· < ·) →
    ∀ a ∈ l, ∀ b ∈ l, a < b → 0 < weight a → widths b = 0 →
      0 < l.foldl (sliver weight) widths b → 0 < l.foldl (sliver weight) widths a := by
  induction l with
  | nil =>
      intro widths _ a ha
      exact absurd ha List.not_mem_nil
  | cons i l ih =>
      intro widths hrising a ha b hb hab hw hzero hpos
      rw [List.pairwise_cons] at hrising
      have hbl : b ∈ l := by
        rcases List.mem_cons.mp hb with hbi | hbl
        · rcases List.mem_cons.mp ha with hai | hal
          · rw [hai, hbi] at hab
            exact absurd hab (lt_irrefl _)
          · have hia := hrising.1 a hal
            rw [hbi] at hab
            exact absurd hab (lt_asymm hia)
        · exact hbl
      have hbi : b ≠ i := fun he => absurd (hrising.1 b hbl) (he ▸ lt_irrefl _)
      rw [List.foldl_cons] at hpos ⊢
      rcases List.mem_cons.mp ha with hai | hal
      -- either the head is served now, or no width can lend any more
      · rw [hai] at hw ⊢
        rcases sliver_cases weight widths i with ⟨heq, hi⟩ | ⟨heq, hone⟩ | ⟨j, ⟨-, hi⟩, hj, heq⟩
        · refine foldl_sliver_pos l ?_
          rw [heq]
          exact hi hw
        · rw [heq, foldl_sliver_of_le_one l hone] at hpos
          omega
        · refine foldl_sliver_pos l ?_
          rw [heq, moveUnit_taker widths (hj.ne hi)]
          exact Nat.succ_pos _
      · exact ih hrising.2 a hal b hbl hab hw (sliver_eq_zero hbi hzero) hpos

/-! ## §3. The widths of the positions. -/

variable (hpos : 0 < ∑ i, weight i) (htotal : 0 < total)
include hpos htotal

/-- **The widths are the shares by largest remainder, levelled.** -/
theorem widthOf_settled :
    Settled weight (hareShare weight total) (widthOf weight total) := by
  have hzero : ∀ p, weight p = 0 → hareShare weight total p = 0 := by
    intro p hp
    by_contra hs
    rw [← largestRemainder_eq_hareShare] at hs
    have hw := weight_pos_of_largestRemainder hpos (Nat.pos_of_ne_zero hs)
    omega
  rw [widthOf_eq hpos htotal, largestRemainder_eq_hareShare]
  refine
    { toLevelled := foldl_sliver_levelled _ (levelled_start hzero)
      front := ?_
      short := ?_ }
  · intro a b hab hw hb
    exact foldl_sliver_front _ (List.pairwise_lt_finRange n) a (List.mem_finRange a) b
      (List.mem_finRange b) hab hw hb
  · intro a hw ha
    rcases foldl_sliver_cases (List.finRange n) (hareShare weight total) with hall | hone
    · have hserved := hall a (List.mem_finRange a) hw
      omega
    · exact hone

end Positions

/-! ## §4. The widths of a list of weights. -/

/-- A bar without columns overtakes nobody. -/
theorem not_overtaken_zero {n : Nat} (weight : Fin n → Nat) (a b : Fin n) :
    ¬ Overtaken weight (hareShare weight 0) 0 a b := by
  have hshare : ∀ p, hareShare weight 0 p = 0 := by
    intro p
    unfold hareShare lowerQuota
    rw [Nat.mul_zero, Nat.zero_div, Nat.zero_sub, if_neg (Nat.not_lt_zero _)]
  rintro (⟨k, hk, -⟩ | ⟨hw, -, hle, -⟩)
  · rw [hshare] at hk
    omega
  · have hb : b ∈ univ.filter (fun j => j ≤ b ∧ 0 < weight j ∧ hareShare weight 0 j = 0) := by
      rw [mem_filter]
      exact ⟨mem_univ b, le_refl b, hw, hshare b⟩
    have hcard := card_pos.mpr ⟨b, hb⟩
    unfold newcomerTo at hle
    omega

/-- The width of position `i`. -/
def widthAt (weights : List UInt64) (total : Nat) (i : Fin weights.length) : Nat :=
  (allocateWidths weights total).get (i.cast (length_allocateWidths weights total).symm)

theorem widthAt_eq (weights : List UInt64) (total : Nat) (i : Fin weights.length) :
    widthAt weights total i = widthOf (fun i => (weights.get i).toNat) total i := by
  unfold widthAt allocateWidths
  rw [List.get_ofFn]
  rfl

/-- **WHEN THE WIDTHS KEEP THE ORDER OF THE WEIGHTS**, for every list, total and pair.  The shares
are cut down in layers, each layer from its last position on, so the larger weight is drawn
narrower exactly when the last column of the bar falls, in one layer or among the slivers,
between the smaller weight in front and the larger one behind it. -/
theorem widths_le_iff (weights : List UInt64) (total : Nat) (a b : Fin weights.length)
    (h : weights.get b < weights.get a) :
    widthAt weights total b ≤ widthAt weights total a
      ↔ ¬ Overtaken (fun i => (weights.get i).toNat)
          (hareShare (fun i => (weights.get i).toNat) total) total a b := by
  set weight := fun i : Fin weights.length => (weights.get i).toNat with hweight
  have hab : weight b < weight a := UInt64.lt_iff_toNat_lt.mp h
  have hpos : 0 < ∑ i, weight i := by
    have hle := single_le_sum (fun i _ => Nat.zero_le (weight i)) (mem_univ a)
    omega
  rw [widthAt_eq, widthAt_eq, ← hweight, ← Nat.not_lt, not_iff_not]
  by_cases htotal : total = 0
  · subst htotal
    have hzero : widthOf weight 0 = fun _ => 0 := by
      unfold widthOf
      rw [if_pos (Or.inr (Or.inl rfl))]
    rw [hzero]
    exact iff_of_false (Nat.lt_irrefl 0) (not_overtaken_zero weight a b)
  · have hsettled := widthOf_settled hpos (Nat.pos_of_ne_zero htotal)
    have hiff := hsettled.overtaken_iff (show 0 < weight a by omega) (hareShare_mono hab)
    rw [sum_widthOf weight total hpos] at hiff
    exact hiff

theorem widths_le_iff_even :
    ([900, 98, 1, 1] : List UInt64).get 1 < ([900, 98, 1, 1] : List UInt64).get 0
      ∧ (widthAt [900, 98, 1, 1] 10 1 ≤ widthAt [900, 98, 1, 1] 10 0
        ↔ ¬ Overtaken (fun i => (([900, 98, 1, 1] : List UInt64).get i).toNat)
            (hareShare (fun i => (([900, 98, 1, 1] : List UInt64).get i).toNat) 10) 10 0 1) :=
  ⟨by decide, widths_le_iff [900, 98, 1, 1] 10 0 1 (by decide)⟩

/-- **A larger segment drawn narrower**: two segments of nearly one size both round to half of
the bar, and the column of the third is taken from the later one, which is the larger. -/
theorem widths_inverted :
    ([3150, 3151, 1] : List UInt64).get 0 < ([3150, 3151, 1] : List UInt64).get 1
      ∧ widthAt [3150, 3151, 1] 64 0 = 32 ∧ widthAt [3150, 3151, 1] 64 1 = 31 := by
  decide

/-- The two shares are 32 each, and with one sliver the 32nd layer ends behind the first. -/
example : Overtaken (fun i => (([3150, 3151, 1] : List UInt64).get i).toNat)
    (hareShare (fun i => (([3150, 3151, 1] : List UInt64).get i).toNat) 64) 64 1 0 := by
  decide

end LivediskForensic.Render
