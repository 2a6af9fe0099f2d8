/-
  LivediskForensic.Render.WidthsChecked — `allocate_widths` IN MACHINE INTEGERS.

  The same passes as `allocateWidths`, written with the `u128` and `usize`
  operations of the source: each is checked, and the conversion `as usize` is
  checked too, since it would lose bits in silence.  What the passes leave
  behind on the way is recorded in a `WidthsRun`.

  A `usize` has `bits` bits, at most 64; the number of weights and the total
  are values of that type.
-/
import LivediskForensic.Lib.Checked
import LivediskForensic.Render.Widths

namespace LivediskForensic.Render

open LivediskForensic.Lib

/-! ## §1. The passes, checked. -/

/-- The state of the loop over the weights. -/
structure Floors (n : Nat) where
  widths : Fin n → Nat
  remainders : Fin n → Nat
  allocated : Nat

/-- What a run of `allocate_widths` did. -/
structure WidthsRun where
  widths : List Nat
  /-- The columns the floors left over. -/
  leftover : Nat
  /-- What the pass over `order` has not placed of them. -/
  unplaced : Nat
  /-- What each lender of the last loop kept, in turn. -/
  kept : List Nat
  deriving Repr, DecidableEq

section Checked

variable (bits : Nat) {n : Nat} (weight : Fin n → Nat) (total : Nat)

/-- The floors, the remainders and the running count of allocated columns. -/
def floorLoop (sum : Nat) : List (Fin n) → Floors n → Option (Floors n)
  | [], st => some st
  | i :: l, st => do
      let exact ← checkedMul 128 (weight i) total
      let width ← checkedCast bits (exact / sum)
      let allocated ← checkedAdd bits st.allocated width
      floorLoop sum l
        { widths := Function.update st.widths i width
          remainders := Function.update st.remainders i (exact % sum)
          allocated := allocated }

/-- One pass over the sorted positions, with what is left over at its end. -/
def leftoverLoop : List (Fin n) → Nat → (Fin n → Nat) → Option ((Fin n → Nat) × Nat)
  | [], leftover, widths => some (widths, leftover)
  | i :: order, leftover, widths =>
      if leftover = 0 then some (widths, leftover)
      else do
        let width ← checkedAdd bits (widths i) 1
        let leftover ← checkedSub leftover 1
        leftoverLoop order leftover (Function.update widths i width)

/-- The slivers, with what each lender keeps. -/
def sliverLoop : List (Fin n) → (Fin n → Nat) → Option ((Fin n → Nat) × List Nat)
  | [], widths => some (widths, [])
  | i :: l, widths =>
      if 0 < weight i ∧ widths i = 0 then
        match maxByKey widths ((List.finRange n).filter (fun j => 1 < widths j)) with
        | some j => do
            let lent ← checkedSub (widths j) 1
            let widths := Function.update widths j lent
            let width ← checkedAdd bits (widths i) 1
            let (widths, kept) ← sliverLoop l (Function.update widths i width)
            some (widths, lent :: kept)
        | none => sliverLoop l widths
      else sliverLoop l widths

/-- Everything behind the early return. -/
def passes (sum : Nat) : Option WidthsRun := do
  let floors ← floorLoop bits weight total sum (List.finRange n)
    { widths := fun _ => 0, remainders := fun _ => 0, allocated := 0 }
  let order := sortByKey (fun i => OrderDual.toDual (floors.remainders i)) (List.finRange n)
  let leftover ← checkedSub total floors.allocated
  let (widths, unplaced) ← leftoverLoop bits order leftover floors.widths
  let (widths, kept) ← sliverLoop bits weight (List.finRange n) widths
  some { widths := List.ofFn widths, leftover := leftover, unplaced := unplaced, kept := kept }

end Checked

/-- **`allocate_widths`, step by step in machine integers.** -/
def allocateWidthsChecked (bits : Nat) (weights : List UInt64) (total : Nat) :
    Option WidthsRun := do
  let n := weights.length
  let sum ← checkedSum 128 0 (weights.map UInt64.toNat)
  if n = 0 ∨ total = 0 ∨ sum = 0 then
    some { widths := List.replicate n 0, leftover := 0, unplaced := 0, kept := [] }
  else passes bits (fun i : Fin n => (weights.get i).toNat) total sum

/-! ## §2. What each pass computes. -/

section Passes

variable (bits : Nat) {n : Nat} {weight : Fin n → Nat} {total : Nat}

/-- The floors of the positions gone through, everything else as it was. -/
theorem floorLoop_eq (hw : ∀ i, weight i < 2 ^ 64) (ht : total < 2 ^ 64) (l : List (Fin n)) :
    ∀ st : Floors n, st.allocated + (l.map (lowerQuota weight total)).sum < 2 ^ bits →
      floorLoop bits weight total (∑ j, weight j) l st = some
        { widths := fun i => if i ∈ l then lowerQuota weight total i else st.widths i
          remainders := fun i => if i ∈ l then quotaRemainder weight total i else st.remainders i
          allocated := st.allocated + (l.map (lowerQuota weight total)).sum } := by
  induction l with
  | nil =>
      intro st _
      simp [floorLoop]
  | cons i l ih =>
      intro st hsum
      rw [List.map_cons, List.sum_cons] at hsum
      have hmul : weight i * total < 2 ^ 128 := by
        calc weight i * total < 2 ^ 64 * 2 ^ 64 := Nat.mul_lt_mul'' (hw i) ht
          _ = 2 ^ 128 := (Nat.pow_add 2 64 64).symm
      have hquot : lowerQuota weight total i < 2 ^ bits := by omega
      have hadd : st.allocated + lowerQuota weight total i < 2 ^ bits := by omega
      have hrest : st.allocated + lowerQuota weight total i
          + (l.map (lowerQuota weight total)).sum < 2 ^ bits := by omega
      unfold floorLoop
      rw [checkedMul_eq_some hmul]
      show (checkedCast bits (lowerQuota weight total i)).bind _ = _
      rw [checkedCast_eq_some hquot, Option.bind_some]
      show (checkedAdd bits st.allocated (lowerQuota weight total i)).bind _ = _
      rw [checkedAdd_eq_some hadd, Option.bind_some, ih _ hrest]
      congr 2
      · funext k
        by_cases hk : k = i
        · subst hk
          simp [Function.update_self]
        · simp [hk]
      · funext k
        by_cases hk : k = i
        · subst hk
          simp [quotaRemainder]
        · simp [hk]
      · show st.allocated + _ + _ = _
        rw [List.map_cons, List.sum_cons, Nat.add_assoc]

/-- The pass over the sorted positions is the handing out of the leftover. -/
theorem leftoverLoop_eq (order : List (Fin n)) : ∀ (leftover : Nat) (widths : Fin n → Nat),
    ∑ k, widths k + leftover < 2 ^ bits →
    leftoverLoop bits order leftover widths
      = some (handOut order leftover widths, leftover - order.length) := by
  induction order with
  | nil =>
      intro leftover widths _
      rfl
  | cons i order ih =>
      intro leftover widths hsum
      cases leftover with
      | zero =>
          show some (widths, 0) = some (widths, 0 - _)
          rw [Nat.zero_sub]
      | succ leftover =>
          -- one width is at most all of them
          have hle : widths i ≤ ∑ k, widths k :=
            Finset.single_le_sum (fun _ _ => Nat.zero_le _) (Finset.mem_univ i)
          have hadd : widths i + 1 < 2 ^ bits := by omega
          show (checkedAdd bits (widths i) 1).bind _ = _
          rw [checkedAdd_eq_some hadd, Option.bind_some]
          show leftoverLoop bits order leftover (addUnit widths i) = _
          have hrest : ∑ k, addUnit widths i k + leftover < 2 ^ bits := by
            rw [sum_addUnit]
            omega
          rw [ih leftover _ hrest, List.length_cons, Nat.add_sub_add_right]
          rfl

/-- One round that lends: nothing underflows, and the lender keeps what it has left. -/
theorem sliverLoop_of_lender {i j : Fin n} {l : List (Fin n)} {widths : Fin n → Nat}
    (hsum : ∑ k, widths k < 2 ^ bits) (h : 0 < weight i ∧ widths i = 0)
    (hm : maxByKey widths ((List.finRange n).filter (fun j => 1 < widths j)) = some j) :
    sliverLoop bits weight (i :: l) widths
      = (sliverLoop bits weight l (moveUnit widths j i)).bind
          (fun r => some (r.1, (widths j - 1) :: r.2)) := by
  have hj := (lender_of_maxByKey hm).one_lt
  have hne : i ≠ j := by
    intro hij
    rw [hij] at h
    omega
  have hle : widths j ≤ ∑ k, widths k :=
    Finset.single_le_sum (fun _ _ => Nat.zero_le _) (Finset.mem_univ j)
  have hadd : Function.update widths j (widths j - 1) i + 1 < 2 ^ bits := by
    rw [Function.update_of_ne hne, h.2]
    omega
  conv_lhs =>
    unfold sliverLoop
    rw [if_pos h, hm]
  show (checkedSub (widths j) 1).bind _ = _
  rw [checkedSub_eq_some (by omega), Option.bind_some]
  show (checkedAdd bits (Function.update widths j (widths j - 1) i) 1).bind _ = _
  rw [checkedAdd_eq_some hadd, Option.bind_some]
  rfl

/-- The last loop is the borrowing of slivers, and **no lender is left without a column**. -/
theorem sliverLoop_eq (l : List (Fin n)) : ∀ widths : Fin n → Nat, ∑ k, widths k < 2 ^ bits →
    ∃ kept, sliverLoop bits weight l widths = some (l.foldl (sliver weight) widths, kept)
      ∧ ∀ k ∈ kept, 1 ≤ k := by
  induction l with
  | nil =>
      intro widths _
      exact ⟨[], rfl, by simp⟩
  | cons i l ih =>
      intro widths hsum
      rw [List.foldl_cons]
      -- a sliver does not change the sum, so the rest runs in the same bounds
      obtain ⟨kept, hrun, hkept⟩ := ih (sliver weight widths i) (by rwa [sum_sliver])
      by_cases h : 0 < weight i ∧ widths i = 0
      · cases hm : maxByKey widths ((List.finRange n).filter (fun j => 1 < widths j)) with
        | none =>
            refine ⟨kept, ?_, hkept⟩
            rw [sliver_of_no_lender hm] at hrun ⊢
            unfold sliverLoop
            rw [if_pos h, hm]
            exact hrun
        | some j =>
            refine ⟨(widths j - 1) :: kept, ?_, ?_⟩
            · rw [sliver_of_lender h hm] at hrun ⊢
              rw [sliverLoop_of_lender bits hsum h hm, hrun]
              rfl
            · intro k hk
              have hj := (lender_of_maxByKey hm).one_lt
              rcases List.mem_cons.mp hk with hk | hk
              · omega
              · exact hkept k hk
      · refine ⟨kept, ?_, hkept⟩
        rw [sliver_of_served h] at hrun ⊢
        unfold sliverLoop
        rw [if_neg h]
        exact hrun

/-- The passes together, none of which goes wrong. -/
theorem passes_eq (hbits : bits ≤ 64) (hw : ∀ i, weight i < 2 ^ 64) (ht : total < 2 ^ bits)
    (hpos : 0 < ∑ i, weight i) :
    ∃ kept, passes bits weight total (∑ i, weight i) = some
        { widths := List.ofFn ((List.finRange n).foldl (sliver weight)
            (largestRemainder weight total))
          leftover := total - ∑ i, lowerQuota weight total i
          unplaced := 0
          kept := kept }
      ∧ ∀ k ∈ kept, 1 ≤ k := by
  have h64 : (2 : Nat) ^ bits ≤ 2 ^ 64 := Nat.pow_le_pow_right (by omega) hbits
  have hle := sum_lowerQuota_le weight total hpos
  have hlt := deficit_lt weight total hpos
  rw [Fintype.card_fin] at hlt
  have hlarge := sum_largestRemainder weight total hpos
  have htotal : total < 2 ^ 64 := by omega
  have hstart : 0 + ((List.finRange n).map (lowerQuota weight total)).sum < 2 ^ bits := by
    rw [← Fin.sum_univ_def]
    omega
  have hfloors := floorLoop_eq bits hw htotal (List.finRange n) ⟨fun _ => 0, fun _ => 0, 0⟩ hstart
  simp only [List.mem_finRange, if_true, ← Fin.sum_univ_def, Nat.zero_add] at hfloors
  have hhand : ∑ i, lowerQuota weight total i + (total - ∑ i, lowerQuota weight total i)
      < 2 ^ bits := by omega
  have hbound : ∑ i, largestRemainder weight total i < 2 ^ bits := by omega
  obtain ⟨kept, hslivers, hkept⟩ := sliverLoop_eq bits (List.finRange n) _ hbound
  refine ⟨kept, ?_, hkept⟩
  unfold passes
  rw [hfloors, Option.bind_eq_bind, Option.bind_some]
  show (checkedSub total _).bind _ = _
  rw [checkedSub_eq_some hle, Option.bind_some]
  show (leftoverLoop bits (order weight total) _ _).bind _ = _
  rw [leftoverLoop_eq bits _ _ _ hhand, Option.bind_some]
  show (sliverLoop bits weight _ (largestRemainder weight total)).bind _ = _
  rw [hslivers, length_order]
  show some (WidthsRun.mk _ _ (total - _ - n) _) = _
  congr 2
  omega

end Passes

/-! ## §3. The whole function. -/

/-- `run` hands out exactly `total` columns, and nothing went wrong on the way. -/
structure WidthsRun.Exact (weights : List UInt64) (total : Nat) (run : WidthsRun) : Prop where
  length_widths : run.widths.length = weights.length
  sum_widths : 0 < total → (∃ w ∈ weights, w ≠ 0) → run.widths.sum = total
  all_zero : ¬ (0 < total ∧ ∃ w ∈ weights, w ≠ 0) → ∀ w ∈ run.widths, w = 0
  /-- One pass over the positions is enough. -/
  leftover_lt : 0 < total → (∃ w ∈ weights, w ≠ 0) → run.leftover < weights.length
  unplaced_eq : run.unplaced = 0
  one_le_kept : ∀ k ∈ run.kept, 1 ≤ k

/-- A sum of fewer than `2^64` weights fits `u128`. -/
theorem sum_weight_lt (weights : List UInt64) (h : weights.length < 2 ^ 64) :
    (weights.map UInt64.toNat).sum < 2 ^ 128 := by
  have hle : ∀ x ∈ weights.map UInt64.toNat, x ≤ 2 ^ 64 - 1 := by
    intro x hx
    obtain ⟨w, -, rfl⟩ := List.mem_map.mp hx
    have := w.toNat_lt
    omega
  have hsum := List.sum_le_card_nsmul _ _ hle
  rw [List.length_map, smul_eq_mul] at hsum
  calc (weights.map UInt64.toNat).sum ≤ weights.length * (2 ^ 64 - 1) := hsum
    _ ≤ 2 ^ 64 * (2 ^ 64 - 1) := Nat.mul_le_mul_right _ h.le
    _ < 2 ^ 128 := by omega

/-- The early return: nothing to hand out, or nobody to take it. -/
theorem allocateWidths_of_zero {weights : List UInt64} {total : Nat}
    (h : weights.length = 0 ∨ total = 0 ∨ (weights.map UInt64.toNat).sum = 0) :
    allocateWidths weights total = List.replicate weights.length 0 := by
  rw [← sum_weight_eq] at h
  unfold allocateWidths widthOf
  rw [if_pos h, List.ofFn_const]

theorem allocateWidths_of_pos {weights : List UInt64} {total : Nat}
    (h : ¬ (weights.length = 0 ∨ total = 0 ∨ (weights.map UInt64.toNat).sum = 0)) :
    List.ofFn ((List.finRange weights.length).foldl
        (sliver (fun i : Fin weights.length => (weights.get i).toNat))
        (largestRemainder (fun i : Fin weights.length => (weights.get i).toNat) total))
      = allocateWidths weights total := by
  rw [← sum_weight_eq] at h
  unfold allocateWidths widthOf
  rw [if_neg h]

/-- The run of the early return. -/
theorem exact_of_zero {weights : List UInt64} {total : Nat}
    (h : weights.length = 0 ∨ total = 0 ∨ (weights.map UInt64.toNat).sum = 0) :
    WidthsRun.Exact weights total
      { widths := List.replicate weights.length 0, leftover := 0, unplaced := 0, kept := [] } := by
  have hnot : ¬ (0 < total ∧ ∃ w ∈ weights, w ≠ 0) := by
    rw [← sum_weight_pos_iff]
    rcases h with h | h | h
    · rw [List.length_eq_zero_iff] at h
      subst h
      simp
    · omega
    · omega
  exact
    { length_widths := List.length_replicate
      sum_widths := fun ht hw => absurd ⟨ht, hw⟩ hnot
      all_zero := fun _ _ hw => List.eq_of_mem_replicate hw
      leftover_lt := fun ht hw => absurd ⟨ht, hw⟩ hnot
      unplaced_eq := rfl
      one_le_kept := by simp }

/-- A run through all the passes. -/
theorem exact_of_pos {weights : List UInt64} {total : Nat} {kept : List Nat} (ht : 0 < total)
    (hpos : 0 < ∑ i : Fin weights.length, (weights.get i).toNat) (hkept : ∀ k ∈ kept, 1 ≤ k) :
    WidthsRun.Exact weights total
      { widths := allocateWidths weights total
        leftover := total
          - ∑ i, lowerQuota (fun i : Fin weights.length => (weights.get i).toNat) total i
        unplaced := 0
        kept := kept } := by
  have hsome : 0 < total ∧ ∃ w ∈ weights, w ≠ 0 := by
    rw [← sum_weight_pos_iff, ← sum_weight_eq]
    exact ⟨ht, hpos⟩
  have hlt := deficit_lt _ total hpos
  rw [Fintype.card_fin] at hlt
  exact
    { length_widths := length_allocateWidths weights total
      sum_widths := fun _ hw => sum_allocateWidths total hw
      all_zero := fun hnot => absurd hsome hnot
      leftover_lt := fun _ _ => hlt
      unplaced_eq := rfl
      one_le_kept := hkept }

/-- **`allocate_widths` distributes exactly the bar width**, for any weights and any total, and
in machine integers: every step of the checked run goes through. -/
theorem allocateWidths_exact {bits : Nat} (hbits : bits ≤ 64) {weights : List UInt64}
    (hlen : weights.length < 2 ^ bits) {total : Nat} (htotal : total < 2 ^ bits) :
    ∃ run, allocateWidthsChecked bits weights total = some run
      ∧ run.widths = allocateWidths weights total ∧ run.Exact weights total := by
  have h64 : (2 : Nat) ^ bits ≤ 2 ^ 64 := Nat.pow_le_pow_right (by omega) hbits
  have hsum := sum_weight_lt weights (by omega)
  have hrun : allocateWidthsChecked bits weights total
      = (checkedSum 128 0 (weights.map UInt64.toNat)).bind (fun sum =>
          if weights.length = 0 ∨ total = 0 ∨ sum = 0 then
            some ⟨List.replicate weights.length 0, 0, 0, []⟩
          else passes bits (fun i : Fin weights.length => (weights.get i).toNat) total sum) := rfl
  rw [hrun, checkedSum_eq_some (by omega), Nat.zero_add, Option.bind_some]
  by_cases h : weights.length = 0 ∨ total = 0 ∨ (weights.map UInt64.toNat).sum = 0
  · rw [if_pos h]
    exact ⟨_, rfl, (allocateWidths_of_zero h).symm, exact_of_zero h⟩
  · rw [if_neg h]
    have hpos : 0 < ∑ i : Fin weights.length, (weights.get i).toNat := by
      rw [sum_weight_eq]
      omega
    obtain ⟨kept, hpasses, hkept⟩ :=
      passes_eq bits hbits (fun i => (weights.get i).toNat_lt) htotal hpos
    rw [sum_weight_eq, allocateWidths_of_pos h] at hpasses
    exact ⟨_, hpasses, rfl, exact_of_pos (by omega) hpos hkept⟩

/-- A volume of the largest size there is, nothing, and two slivers, in twelve columns. -/
theorem allocateWidths_exact_slivers :
    ∃ run, allocateWidthsChecked 64 [UInt64.ofNat (2 ^ 64 - 1), 0, 1, 1] 12 = some run
      ∧ run.widths = allocateWidths [UInt64.ofNat (2 ^ 64 - 1), 0, 1, 1] 12
      ∧ run.Exact [UInt64.ofNat (2 ^ 64 - 1), 0, 1, 1] 12 :=
  allocateWidths_exact (by omega) (by decide) (by decide)

end LivediskForensic.Render
