/-
  LivediskForensic.Lib.Levelling
  ───────────────────────────────
  LEVELLING: shares are cut down one unit at a time, always at the last of the
  largest, and every unit goes to a newcomer, a claimant without a share.

  Nothing is said about the number or the order of the moves.  What they keep
  is that a cut share is at most one below any other and not below a later one
  (`Levelled`).  Together with the number of units in all this fixes who holds
  what: the units fill layer after layer, each in the order of the claimants,
  the newcomers behind the first (`Settled.lt_iff`, `Settled.pos_iff`).  So one
  claimant overtakes another only when the last unit falls between the two
  (`Settled.overtaken_iff`).
-/
import Mathlib.Algebra.BigOperators.Group.Finset.Piecewise
import Mathlib.Algebra.Order.BigOperators.Group.Finset
import Mathlib.Data.Nat.Basic

namespace LivediskForensic.Lib

open Finset

variable {ι : Type*} [LinearOrder ι]

/-! ## §1. The invariant. -/

/-- Who gives: the last of the largest, with a unit to spare. -/
structure Lender (f : ι → Nat) (j : ι) : Prop where
  one_lt : 1 < f j
  widest : ∀ k, f k ≤ f j
  last : ∀ k, j < k → f k < f j

theorem Lender.ne {f : ι → Nat} {i j : ι} (hj : Lender f j) (hi : f i = 0) : i ≠ j := by
  intro h
  have hone := hj.one_lt
  rw [← h, hi] at hone
  omega

/-- `f` is what moves from the last of the largest to newcomers leave of the shares. -/
structure Levelled (weight share f : ι → Nat) : Prop where
  zero : ∀ p, weight p = 0 → f p = 0
  newcomer : ∀ p, share p = 0 → f p ≤ 1
  pos : ∀ p, 0 < share p → 0 < f p
  le : ∀ p, 0 < share p → f p ≤ share p
  /-- A cut share is at most one below any other, and not below a later one. -/
  level : ∀ p, f p < share p → ∀ q, f q ≤ f p + 1 ∧ (p < q → f q ≤ f p)

theorem levelled_start {weight share : ι → Nat} (h : ∀ p, weight p = 0 → share p = 0) :
    Levelled weight share share where
  zero := h
  newcomer p hp := by rw [hp]; exact Nat.zero_le 1
  pos _ hp := hp
  le p _ := Nat.le_refl (share p)
  level p hp := absurd hp (Nat.lt_irrefl _)

/-- Who holds nothing has no share, and who holds two or more has one. -/
theorem Levelled.share_eq_zero {weight share f : ι → Nat} (h : Levelled weight share f) {i : ι}
    (hi : f i = 0) : share i = 0 := by
  by_contra hs
  have hpos := h.pos i (Nat.pos_of_ne_zero hs)
  omega

theorem Levelled.share_pos {weight share f : ι → Nat} (h : Levelled weight share f) {j : ι}
    (hj : 1 < f j) : 0 < share j := by
  by_contra hs
  have hle := h.newcomer j (by omega)
  omega

/-- Shares at most one unit apart stay so on one side: nobody comes out two units ahead. -/
theorem Levelled.near {weight share f : ι → Nat} (h : Levelled weight share f) {a b : ι}
    (hab : share b ≤ share a + 1) : f b ≤ f a + 1 := by
  by_cases hsa : share a = 0
  · by_cases hsb : share b = 0
    · have hone := h.newcomer b hsb
      omega
    · have hle := h.le b (Nat.pos_of_ne_zero hsb)
      omega
  · by_cases hcut : f a < share a
    · exact (h.level a hcut b).1
    · by_cases hsb : share b = 0
      · have hone := h.newcomer b hsb
        omega
      · have hle := h.le b (Nat.pos_of_ne_zero hsb)
        omega

/-- One unit goes from `j` to `i`, who has none. -/
structure Moved (f f' : ι → Nat) (i j : ι) : Prop where
  taker : f i = 0 ∧ f' i = 1
  giver : f' j + 1 = f j
  rest : ∀ k, k ≠ i → k ≠ j → f' k = f k

/-- Everybody but the taker, from the giver's view and from anybody else's. -/
theorem Moved.cases {f f' : ι → Nat} {i j : ι} (h : Moved f f' i j) {k : ι} (hki : k ≠ i) :
    (k = j ∧ f' k + 1 = f k) ∨ (k ≠ j ∧ f' k = f k) := by
  by_cases hkj : k = j
  · exact Or.inl ⟨hkj, hkj ▸ h.giver⟩
  · exact Or.inr ⟨hkj, h.rest k hki hkj⟩

/-- The giver was the last of the largest, and is at most one below the others now. -/
theorem Moved.giver_level {f f' : ι → Nat} {i j : ι} (h : Moved f f' i j) (hj : Lender f j)
    (q : ι) : f' q ≤ f' j + 1 ∧ (j < q → f' q ≤ f' j) := by
  have hone := hj.one_lt
  have hgiver := h.giver
  by_cases hqi : q = i
  · rw [hqi, h.taker.2]
    omega
  · have hqle := hj.widest q
    rcases h.cases hqi with ⟨hqj, hfq⟩ | ⟨-, hfq⟩
    · rw [hqj]
      exact ⟨Nat.le_succ _, fun hlt => absurd hlt (lt_irrefl _)⟩
    · refine ⟨by omega, ?_⟩
      intro hlt
      have hqlt := hj.last q hlt
      omega

/-- Anybody else whose share was cut stays as level with the others as before. -/
theorem Moved.rest_level {f f' : ι → Nat} {i j p : ι} (h : Moved f f' i j) (hp : 0 < f' p)
    (hfp : f' p = f p) {q : ι} (hlevel : f q ≤ f p + 1 ∧ (p < q → f q ≤ f p)) :
    f' q ≤ f' p + 1 ∧ (p < q → f' q ≤ f' p) := by
  by_cases hqi : q = i
  · rw [hqi, h.taker.2]
    omega
  · have hqle : f' q ≤ f q := by
      rcases h.cases hqi with ⟨-, hfq⟩ | ⟨-, hfq⟩
      · omega
      · omega
    refine ⟨by omega, ?_⟩
    intro hlt
    have hlater := hlevel.2 hlt
    omega

/-- **One move.** -/
theorem Levelled.move {weight share f f' : ι → Nat} (h : Levelled weight share f) {i j : ι}
    (hw : 0 < weight i) (hj : Lender f j) (hmove : Moved f f' i j) :
    Levelled weight share f' := by
  have hone := hj.one_lt
  have hsi := h.share_eq_zero hmove.taker.1
  have hsj := h.share_pos hone
  refine
    { zero := ?_
      newcomer := ?_
      pos := ?_
      le := ?_
      level := ?_ }
  · intro p hp
    have hpi : p ≠ i := fun he => by rw [he] at hp; omega
    have hp0 := h.zero p hp
    rcases hmove.cases hpi with ⟨-, hf⟩ | ⟨-, hf⟩ <;> omega
  · intro p hp
    by_cases hpi : p = i
    · rw [hpi, hmove.taker.2]
    · have hp1 := h.newcomer p hp
      rcases hmove.cases hpi with ⟨-, hf⟩ | ⟨-, hf⟩ <;> omega
  · intro p hp
    have hpi : p ≠ i := fun he => by rw [he] at hp; omega
    have hp0 := h.pos p hp
    rcases hmove.cases hpi with ⟨hpj, hf⟩ | ⟨-, hf⟩
    · rw [hpj] at hf ⊢
      omega
    · omega
  · intro p hp
    have hpi : p ≠ i := fun he => by rw [he] at hp; omega
    have hple := h.le p hp
    rcases hmove.cases hpi with ⟨-, hf⟩ | ⟨-, hf⟩ <;> omega
  · intro p hp q
    have hpi : p ≠ i := fun he => by rw [he] at hp; omega
    rcases hmove.cases hpi with ⟨hpj, -⟩ | ⟨-, hf⟩
    · rw [hpj]
      exact hmove.giver_level hj q
    · have hp0 := h.pos p (by omega)
      exact hmove.rest_level (by omega) hf (h.level p (by omega) q)

/-! ## §2. Layers. -/

section Layers

variable [Fintype ι] (weight share : ι → Nat)

/-- The units that are placed up to the one of `p` in layer `k + 1`: the layers below, the
newcomers, and layer `k + 1` up to `p`. -/
def unitsTo (k : Nat) (p : ι) : Nat :=
  ∑ j, min (share j) k + (univ.filter (fun j => 0 < weight j ∧ share j = 0)).card
    + (univ.filter (fun j => j ≤ p ∧ k < share j)).card

/-- The units that are placed up to the one of newcomer `p`: the first layer, and the newcomers
up to `p`. -/
def newcomerTo (p : ι) : Nat :=
  (univ.filter (fun j => 0 < share j)).card
    + (univ.filter (fun j => j ≤ p ∧ 0 < weight j ∧ share j = 0)).card

theorem unitsTo_eq_sum (k : Nat) (p : ι) : unitsTo weight share k p
    = ∑ j, (min (share j) k + (if 0 < weight j ∧ share j = 0 then 1 else 0)
        + if j ≤ p ∧ k < share j then 1 else 0) := by
  unfold unitsTo
  rw [card_filter, card_filter, sum_add_distrib, sum_add_distrib]

theorem newcomerTo_eq_sum (p : ι) : newcomerTo weight share p
    = ∑ j, ((if 0 < share j then 1 else 0)
        + if j ≤ p ∧ 0 < weight j ∧ share j = 0 then 1 else 0) := by
  unfold newcomerTo
  rw [card_filter, card_filter, sum_add_distrib]

/-- In layer `k + 1` or among the newcomers, the last of `total` units falls between `b` and
`a`. -/
def Overtaken (total : Nat) (a b : ι) : Prop :=
  (∃ k < share b, 0 < k ∧ unitsTo weight share k b ≤ total ∧ total < unitsTo weight share k a)
    ∨ (0 < weight b ∧ share a = 0 ∧ newcomerTo weight share b ≤ total
        ∧ total < newcomerTo weight share a)

instance (total : Nat) (a b : ι) : Decidable (Overtaken weight share total a b) := by
  unfold Overtaken
  infer_instance

end Layers

/-! ## §3. Who holds what. -/

/-- The moves are over: the newcomers were served in order, and when one was not, nobody has two. -/
structure Settled (weight share f : ι → Nat) : Prop extends Levelled weight share f where
  front : ∀ a b, a < b → 0 < weight a → share b = 0 → 0 < f b → 0 < f a
  short : ∀ a, 0 < weight a → f a = 0 → ∀ q, f q ≤ 1

/-- When somebody holds two, every newcomer was served. -/
theorem Settled.served {weight share f : ι → Nat} (h : Settled weight share f) {p q : ι}
    (hp : 1 < f p) (hw : 0 < weight q) : 0 < f q := by
  by_contra hz
  have hone := h.short q hw (by omega) p
  omega

/-- **Behind a claimant with as large a share nobody comes out ahead.** -/
theorem Settled.later_le {weight share f : ι → Nat} (h : Settled weight share f) {a b : ι}
    (hab : a < b) (hshare : share b ≤ share a) (hw : 0 < weight b → 0 < weight a) :
    f b ≤ f a := by
  by_cases hsa : share a = 0
  · have hsb : share b = 0 := by omega
    have hone := h.newcomer b hsb
    by_cases hfb : f b = 0
    · omega
    -- newcomers are served in order
    · have hwb : 0 < weight b := by
        by_contra hzero
        exact hfb (h.zero b (by omega))
      have hfa := h.front a b hab (hw hwb) hsb (Nat.pos_of_ne_zero hfb)
      omega
  · by_cases hcut : f a < share a
    · exact (h.level a hcut b).2 hab
    · by_cases hsb : share b = 0
      · have hone := h.newcomer b hsb
        omega
      · have hle := h.le b (Nat.pos_of_ne_zero hsb)
        omega

section Settled

variable [Fintype ι] {weight share f : ι → Nat} (h : Settled weight share f)
include h

/-- A share of more than `k` units that the total reaches is cut to no less. -/
theorem Settled.lt_of_units {k : Nat} {p : ι} (hk : k < share p)
    (hunits : unitsTo weight share k p ≤ ∑ j, f j) : k < f p := by
  by_contra hle
  -- then everybody holds no more than the layers up to `p`, and `p` one less
  have hsum : ∑ j, f j < unitsTo weight share k p := by
    rw [unitsTo_eq_sum]
    refine sum_lt_sum (fun q _ => ?_) ⟨p, mem_univ p, ?_⟩
    · by_cases hs : share q = 0
      · by_cases hw : weight q = 0
        · have hzero := h.zero q hw
          omega
        · have hone := h.newcomer q hs
          rw [if_pos (show 0 < weight q ∧ share q = 0 from ⟨Nat.pos_of_ne_zero hw, hs⟩)]
          omega
      · have hqle := h.le q (Nat.pos_of_ne_zero hs)
        obtain ⟨hlevel, hlater⟩ := h.level p (by omega) q
        rcases le_or_gt q p with hqp | hpq
        · by_cases hkq : k < share q
          · rw [if_pos (show q ≤ p ∧ k < share q from ⟨hqp, hkq⟩)]
            omega
          · omega
        · have hqlow := hlater hpq
          omega
    · rw [if_pos (show p ≤ p ∧ k < share p from ⟨le_refl p, hk⟩)]
      omega
  omega

/-- Who holds more than `k ≥ 1` units has his unit in layer `k + 1` placed. -/
theorem Settled.unitsTo_le {k : Nat} (hk : 0 < k) {p : ι} (hlt : k < f p) :
    unitsTo weight share k p ≤ ∑ j, f j := by
  rw [unitsTo_eq_sum]
  apply sum_le_sum
  intro q _
  by_cases hs : share q = 0
  · rw [hs, Nat.zero_min, if_neg (show ¬ (q ≤ p ∧ k < 0) by omega)]
    by_cases hw : 0 < weight q
    · have hq := h.served (show 1 < f p by omega) hw
      rw [if_pos ⟨hw, rfl⟩]
      omega
    · rw [if_neg (fun hn => hw hn.1)]
      exact Nat.zero_le _
  · rw [if_neg (fun hn => hs hn.2)]
    have hqle := h.le q (Nat.pos_of_ne_zero hs)
    by_cases hqp : q ≤ p ∧ k < share q
    · rw [if_pos hqp]
      by_cases hcut : f q < share q
      -- a cut share is not below a later one
      · rcases eq_or_lt_of_le hqp.1 with heq | hlt'
        · rw [heq] at *
          omega
        · have hle' := (h.level q hcut p).2 hlt'
          omega
      · omega
    · rw [if_neg hqp]
      by_cases hcut : f q < share q
      · have hlevel := (h.level q hcut p).1
        omega
      · omega

/-- **Who holds more than `k ≥ 1` units**: the total reaches his unit in layer `k + 1`. -/
theorem Settled.lt_iff {k : Nat} (hk : 0 < k) (p : ι) :
    k < f p ↔ k < share p ∧ unitsTo weight share k p ≤ ∑ j, f j := by
  constructor
  · intro hlt
    have hsp : share p ≠ 0 := by
      intro hs
      have hone := h.newcomer p hs
      omega
    have hle := h.le p (Nat.pos_of_ne_zero hsp)
    exact ⟨by omega, h.unitsTo_le hk hlt⟩
  · rintro ⟨hs, hunits⟩
    exact h.lt_of_units hs hunits

/-- A newcomer that the total reaches is served. -/
theorem Settled.pos_of_units {p : ι} (hw : 0 < weight p) (hs : share p = 0)
    (hunits : newcomerTo weight share p ≤ ∑ j, f j) : 0 < f p := by
  by_contra hz
  have hshort := h.short p hw (by omega)
  -- then nobody has two, and no newcomer from `p` on has one
  have hsum : ∑ j, f j < newcomerTo weight share p := by
    rw [newcomerTo_eq_sum]
    refine sum_lt_sum (fun q _ => ?_) ⟨p, mem_univ p, ?_⟩
    · have hone := hshort q
      by_cases hsq : share q = 0
      · by_cases hwq : weight q = 0
        · have hzero := h.zero q hwq
          omega
        · rcases le_or_gt q p with hqp | hpq
          · rw [if_pos (show q ≤ p ∧ 0 < weight q ∧ share q = 0 from
              ⟨hqp, Nat.pos_of_ne_zero hwq, hsq⟩)]
            omega
          · have hfq : f q = 0 := by
              by_contra hne
              exact hz (h.front p q hpq hw hsq (Nat.pos_of_ne_zero hne))
            omega
      · rw [if_pos (Nat.pos_of_ne_zero hsq)]
        omega
    · rw [if_pos (show p ≤ p ∧ 0 < weight p ∧ share p = 0 from ⟨le_refl p, hw, hs⟩)]
      omega
  omega

/-- A newcomer that is served has his unit placed. -/
theorem Settled.newcomerTo_le {p : ι} (hs : share p = 0) (hp : 0 < f p) :
    newcomerTo weight share p ≤ ∑ j, f j := by
  rw [newcomerTo_eq_sum]
  apply sum_le_sum
  intro q _
  by_cases hsq : share q = 0
  · rw [if_neg (show ¬ 0 < share q by omega), Nat.zero_add]
    by_cases hq : q ≤ p ∧ 0 < weight q ∧ share q = 0
    · have hfq : 0 < f q := by
        rcases eq_or_lt_of_le hq.1 with heq | hlt
        · rw [heq]
          exact hp
        · exact h.front q p hlt hq.2.1 hs hp
      rw [if_pos hq]
      omega
    · rw [if_neg hq]
      exact Nat.zero_le _
  · have hfq := h.pos q (Nat.pos_of_ne_zero hsq)
    rw [if_pos (Nat.pos_of_ne_zero hsq), if_neg (fun hn => hsq hn.2.2)]
    omega

/-- **Which newcomer is served**: the total reaches his unit. -/
theorem Settled.pos_iff {p : ι} (hw : 0 < weight p) (hs : share p = 0) :
    0 < f p ↔ newcomerTo weight share p ≤ ∑ j, f j :=
  ⟨h.newcomerTo_le hs, h.pos_of_units hw hs⟩

/-- **WHO OVERTAKES WHOM**: a claimant with no larger share comes out ahead exactly when the last
unit falls between the two. -/
theorem Settled.overtaken_iff {a b : ι} (ha : 0 < weight a) (hab : share b ≤ share a) :
    f a < f b ↔ Overtaken weight share (∑ j, f j) a b := by
  unfold Overtaken
  constructor
  · intro hlt
    by_cases hfa : f a = 0
    · have hsa : share a = 0 := by
        by_contra hs
        have hpos := h.pos a (Nat.pos_of_ne_zero hs)
        omega
      have hwb : 0 < weight b := by
        by_contra hw
        have hzero := h.zero b (by omega)
        omega
      have hb := (h.pos_iff hwb (by omega)).mp (by omega)
      have hna : ¬ newcomerTo weight share a ≤ ∑ j, f j := by
        rw [← h.pos_iff ha hsa]
        omega
      exact Or.inr ⟨hwb, hsa, hb, by omega⟩
    · have hk : 0 < f a := Nat.pos_of_ne_zero hfa
      obtain ⟨hs, hb⟩ := (h.lt_iff hk b).mp hlt
      have hna : ¬ unitsTo weight share (f a) a ≤ ∑ j, f j := by
        intro hunits
        exact absurd (h.lt_of_units (by omega) hunits) (Nat.lt_irrefl _)
      exact Or.inl ⟨f a, hs, hk, hb, by omega⟩
  · rintro (⟨k, hk, hk0, hb, ha'⟩ | ⟨hwb, hsa, hb, ha'⟩)
    · have hfb := h.lt_of_units hk hb
      have hfa : ¬ k < f a := by
        rw [h.lt_iff hk0 a]
        omega
      omega
    · have hfb := (h.pos_iff hwb (by omega)).mpr hb
      have hfa : ¬ 0 < f a := by
        rw [h.pos_iff ha hsa]
        omega
      omega

end Settled

end LivediskForensic.Lib
