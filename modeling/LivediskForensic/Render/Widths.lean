/-
  LivediskForensic.Render.Widths — WHAT `allocate_widths` HANDS OUT.

  Three passes, each with what it does to the sum: the lower quotas fall short
  by less than one column per segment (`deficit_lt`), the pass over the sorted
  remainders places exactly the missing columns, and every borrowed sliver is
  given back somewhere.  Hence `sum_allocateWidths`.
-/
import LivediskForensic.Lib.Levelling
import LivediskForensic.Render.Bar

namespace LivediskForensic.Render

open LivediskForensic.Lib

/-! ## §1. `max_by_key`. -/

theorem maxByKey_eq_none {α : Type} {key : α → Nat} {l : List α} :
    maxByKey key l = none ↔ l = [] := by
  cases l with
  | nil => exact ⟨fun _ => rfl, fun _ => rfl⟩
  | cons a l =>
      unfold maxByKey
      cases maxByKey key l with
      | none => simp
      | some b => by_cases h : key a ≤ key b <;> simp [h]

/-- A first entry above all others is the last of the largest. -/
theorem largest_head {α : Type} {key : α → Nat} {c : α} {l : List α}
    (h : ∀ b ∈ l, key b < key c) (j : Nat) (b : α) (hj : (c :: l)[j]? = some b) :
    key b ≤ key c ∧ (0 < j → key b < key c) := by
  cases j with
  | zero =>
      injection hj with hj
      exact ⟨by rw [hj], fun h0 => absurd h0 (Nat.lt_irrefl 0)⟩
  | succ j =>
      have hlt := h b (List.mem_of_getElem? hj)
      exact ⟨hlt.le, fun _ => hlt⟩

/-- **`max_by_key` takes the last of the largest.** -/
theorem maxByKey_spec {α : Type} {key : α → Nat} {l : List α} : ∀ {a : α},
    maxByKey key l = some a → ∃ i : Nat, l[i]? = some a
      ∧ ∀ (j : Nat) (b : α), l[j]? = some b → key b ≤ key a ∧ (i < j → key b < key a) := by
  induction l with
  | nil =>
      intro a h
      exact absurd h (by simp [maxByKey])
  | cons c l ih =>
      intro a h
      unfold maxByKey at h
      cases hm : maxByKey key l with
      | none =>
          rw [hm] at h
          injection h with h
          rw [maxByKey_eq_none] at hm
          subst h hm
          exact ⟨0, rfl, largest_head (fun b hb => absurd hb List.not_mem_nil)⟩
      | some d =>
          rw [hm] at h
          obtain ⟨i, hi, hmax⟩ := ih hm
          by_cases hle : key c ≤ key d
          -- the largest of the tail is at least as large, and it comes later
          · simp only [if_pos hle] at h
            injection h with h
            subst h
            refine ⟨i + 1, hi, ?_⟩
            intro j b hj
            cases j with
            | zero =>
                injection hj with hj
                exact ⟨hj ▸ hle, fun h0 => absurd h0 (Nat.not_lt_zero _)⟩
            | succ j =>
                obtain ⟨hb, hlt⟩ := hmax j b hj
                exact ⟨hb, fun hij => hlt (Nat.lt_of_succ_lt_succ hij)⟩
          · simp only [if_neg hle] at h
            injection h with h
            subst h
            refine ⟨0, rfl, largest_head ?_⟩
            intro b hb
            obtain ⟨j, hj⟩ := List.getElem?_of_mem hb
            have hbd := (hmax j b hj).1
            omega

/-! ## §2. The passes. -/

section Passes

variable {n : Nat} (weight : Fin n → Nat) (total : Nat)

theorem length_order : (order weight total).length = n := by
  unfold order
  rw [length_sortByKey, List.length_finRange]

theorem nodup_order : (order weight total).Nodup := by
  unfold order
  rw [(sortByKey_perm _ _).nodup_iff]
  exact List.nodup_finRange n

theorem countP_order (p : Fin n → Bool) :
    (order weight total).countP p = (Finset.univ.filter (fun i => p i = true)).card := by
  unfold order
  rw [(sortByKey_perm _ _).countP_eq, List.countP_eq_length_filter]
  show _ = ((List.finRange n).filter (fun i => decide (p i = true))).length
  simp only [Bool.decide_eq_true]

/-- **The leftover pass places every missing column.** -/
theorem sum_largestRemainder (h : 0 < ∑ i, weight i) :
    ∑ i, largestRemainder weight total i = total := by
  -- fewer columns are missing than there are positions to give them to
  have hle := sum_lowerQuota_le weight total h
  have hlt := deficit_lt weight total h
  rw [Fintype.card_fin] at hlt
  show ∑ i, handOut (order weight total) (total - ∑ i, lowerQuota weight total i)
    (lowerQuota weight total) i = total
  rw [sum_handOut, length_order]
  omega

section Slivers

variable {weight}
variable {widths : Fin n → Nat}

/-- In a rising list the larger entry comes later. -/
theorem lt_of_rising {l : List (Fin n)} (h : l.Pairwise (· < ·)) {i k : Nat} {a b : Fin n}
    (hi : l[i]? = some a) (hk : l[k]? = some b) (hab : a < b) : i < k := by
  obtain ⟨hil, rfl⟩ := List.getElem?_eq_some_iff.mp hi
  obtain ⟨hkl, rfl⟩ := List.getElem?_eq_some_iff.mp hk
  rw [List.pairwise_iff_getElem] at h
  by_contra hki
  rcases Nat.lt_or_ge k i with hlt | hge
  · exact absurd (h k i hkl hil hlt) (not_lt_of_gt hab)
  · have heq : i = k := by omega
    subst heq
    exact absurd hab (lt_irrefl _)

theorem lender_of_maxByKey {j : Fin n}
    (hm : maxByKey widths ((List.finRange n).filter (fun j => 1 < widths j)) = some j) :
    Lender widths j := by
  obtain ⟨i, hi, hmax⟩ := maxByKey_spec hm
  have hj := List.mem_of_getElem? hi
  rw [List.mem_filter, decide_eq_true_eq] at hj
  have hrising : ((List.finRange n).filter (fun j => 1 < widths j)).Pairwise (· < ·) :=
    (List.pairwise_lt_finRange n).filter _
  -- a position outside the list has one column at most
  have hcase : ∀ k, widths k ≤ 1 ∨ ∃ p : Nat,
      ((List.finRange n).filter (fun j => 1 < widths j))[p]? = some k := by
    intro k
    by_cases hk : 1 < widths k
    · refine Or.inr (List.getElem?_of_mem ?_)
      rw [List.mem_filter, decide_eq_true_eq]
      exact ⟨List.mem_finRange k, hk⟩
    · exact Or.inl (by omega)
  refine ⟨hj.2, ?_, ?_⟩
  · intro k
    rcases hcase k with hone | ⟨p, hp⟩
    · omega
    · exact (hmax p k hp).1
  · intro k hjk
    rcases hcase k with hone | ⟨p, hp⟩
    · omega
    · exact (hmax p k hp).2 (lt_of_rising hrising hi hp hjk)

theorem le_one_of_no_lender
    (hm : maxByKey widths ((List.finRange n).filter (fun j => 1 < widths j)) = none) (j : Fin n) :
    widths j ≤ 1 := by
  rw [maxByKey_eq_none, List.filter_eq_nil_iff] at hm
  have hj := hm j (List.mem_finRange j)
  rw [decide_eq_true_eq] at hj
  omega

theorem sliver_of_served {i : Fin n} (h : ¬ (0 < weight i ∧ widths i = 0)) :
    sliver weight widths i = widths := if_neg h

theorem sliver_of_lender {i j : Fin n} (h : 0 < weight i ∧ widths i = 0)
    (hm : maxByKey widths ((List.finRange n).filter (fun j => 1 < widths j)) = some j) :
    sliver weight widths i = moveUnit widths j i := by
  unfold sliver
  rw [if_pos h, hm]

theorem sliver_of_no_lender {i : Fin n}
    (hm : maxByKey widths ((List.finRange n).filter (fun j => 1 < widths j)) = none) :
    sliver weight widths i = widths := by
  unfold sliver
  rw [hm]
  exact ite_self widths

end Slivers

/-- What one sliver does: nothing, when its position is served or nothing can lend; else a
column moves over from the lender. -/
theorem sliver_cases (widths : Fin n → Nat) (i : Fin n) :
    (sliver weight widths i = widths ∧ (0 < weight i → 0 < widths i))
      ∨ (sliver weight widths i = widths ∧ ∀ j, widths j ≤ 1)
      ∨ ∃ j, (0 < weight i ∧ widths i = 0) ∧ Lender widths j
          ∧ sliver weight widths i = moveUnit widths j i := by
  by_cases h : 0 < weight i ∧ widths i = 0
  · cases hm : maxByKey widths ((List.finRange n).filter (fun j => 1 < widths j)) with
    | none => exact Or.inr (Or.inl ⟨sliver_of_no_lender hm, le_one_of_no_lender hm⟩)
    | some j => exact Or.inr (Or.inr ⟨j, h, lender_of_maxByKey hm, sliver_of_lender h hm⟩)
  · exact Or.inl ⟨sliver_of_served h, fun hw => by omega⟩

variable {weight} in
/-- What a column moved over from the lender keeps, a sliver keeps. -/
theorem sliver_keeps {P : (Fin n → Nat) → Prop} {widths : Fin n → Nat} (h : P widths)
    (i : Fin n) (hmove : ∀ j, 0 < weight i → widths i = 0 → Lender widths j →
      P (moveUnit widths j i)) : P (sliver weight widths i) := by
  rcases sliver_cases weight widths i with ⟨heq, -⟩ | ⟨heq, -⟩ | ⟨j, ⟨hw, hi⟩, hj, heq⟩
  · rwa [heq]
  · rwa [heq]
  · rw [heq]
    exact hmove j hw hi hj

variable {weight} in
/-- **The run of the slivers** keeps it too. -/
theorem foldl_sliver_keeps {P : (Fin n → Nat) → Prop} {widths : Fin n → Nat} (h : P widths)
    (indices : List (Fin n)) (hmove : ∀ f i j, P f → 0 < weight i → f i = 0 → Lender f j →
      P (moveUnit f j i)) : P (indices.foldl (sliver weight) widths) :=
  List.foldlRecOn (motive := P) indices _ h
    (fun f hf i _ => sliver_keeps hf i (fun j => hmove f i j hf))

/-- A sliver is borrowed, not made. -/
theorem sum_sliver (widths : Fin n → Nat) (i : Fin n) :
    ∑ k, sliver weight widths i k = ∑ k, widths k := by
  refine sliver_keeps (P := fun f => ∑ k, f k = ∑ k, widths k) rfl i ?_
  intro j _ _ hj
  have hone := hj.one_lt
  exact sum_moveUnit (by omega) i

theorem sum_foldl_sliver (indices : List (Fin n)) (widths : Fin n → Nat) :
    ∑ k, indices.foldl (sliver weight) widths k = ∑ k, widths k := by
  refine foldl_sliver_keeps (P := fun f => ∑ k, f k = ∑ k, widths k) rfl indices ?_
  intro f i j hf _ _ hj
  have hone := hj.one_lt
  rw [sum_moveUnit (by omega) i]
  exact hf

theorem sum_widthOf (h : 0 < ∑ i, weight i) : ∑ i, widthOf weight total i = total := by
  unfold widthOf
  by_cases hz : n = 0 ∨ total = 0 ∨ ∑ i, weight i = 0
  -- of the early returns only `total = 0` is possible here, and then 0 is the total
  · rw [if_pos hz, Finset.sum_const_zero]
    rcases hz with hn | ht | hs
    · subst hn
      simp at h
    · exact ht.symm
    · omega
  · rw [if_neg hz, sum_foldl_sliver, sum_largestRemainder weight total h]

end Passes

/-! ## §3. The widths of a list of weights. -/

@[simp] theorem length_allocateWidths (weights : List UInt64) (total : Nat) :
    (allocateWidths weights total).length = weights.length := by
  unfold allocateWidths
  rw [List.length_ofFn]

theorem sum_weight_eq (weights : List UInt64) :
    ∑ i : Fin weights.length, (weights.get i).toNat = (weights.map UInt64.toNat).sum :=
  Fin.sum_univ_fun_getElem weights UInt64.toNat

theorem sum_weight_pos_iff {weights : List UInt64} :
    0 < (weights.map UInt64.toNat).sum ↔ ∃ w ∈ weights, w ≠ 0 := by
  rw [Nat.pos_iff_ne_zero, Ne, List.sum_eq_zero_iff]
  constructor
  · intro h
    by_contra hall
    apply h
    intro x hx
    obtain ⟨w, hw, rfl⟩ := List.mem_map.mp hx
    by_contra hne
    exact hall ⟨w, hw, fun hz => hne (by rw [hz]; rfl)⟩
  · rintro ⟨w, hw, hne⟩ hall
    exact hne (UInt64.toNat_inj.mp (hall _ (List.mem_map_of_mem hw)))

/-- **The widths make up the bar**, when some weight is not zero. -/
theorem sum_allocateWidths {weights : List UInt64} (total : Nat) (h : ∃ w ∈ weights, w ≠ 0) :
    (allocateWidths weights total).sum = total := by
  have hpos : 0 < ∑ i : Fin weights.length, (weights.get i).toNat := by
    rw [sum_weight_eq, sum_weight_pos_iff]
    exact h
  unfold allocateWidths
  rw [List.sum_ofFn]
  exact sum_widthOf _ total hpos

end LivediskForensic.Render
