/-
  LivediskForensic.Lib.Sweep
  ───────────────────────────
  THE GAPS BETWEEN INTERVALS, found by a sweep: half-open spans in order of
  their starts, one running cursor at the largest stop so far, and a gap where
  the next span starts behind the cursor.  Spans may overlap, nest, repeat and
  be empty.

      covers_gaps_iff  — the gaps cover exactly what no span covers, when the
                         spans lie inside
      gaps_within_iff  — for arbitrary spans, when the gaps stay inside
      sum_gaps_eq_card — the lengths of the gaps count the uncovered points
-/
import Mathlib.Algebra.BigOperators.Group.List.Basic
import Mathlib.Algebra.Ring.Nat
import Mathlib.Order.Interval.Finset.Nat
import Mathlib.Order.MinMax

namespace LivediskForensic.Lib

/-! ## §1. Spans and gaps. -/

/-- A half-open interval. -/
structure Span (α : Type*) where
  start : α
  stop : α
  deriving Repr, DecidableEq

section Order

variable {α : Type*} [LinearOrder α]

/-- The point lies in the span. -/
def Span.Covers (s : Span α) (x : α) : Prop := s.start ≤ x ∧ x < s.stop

instance (s : Span α) (x : α) : Decidable (s.Covers x) :=
  inferInstanceAs (Decidable (s.start ≤ x ∧ x < s.stop))

/-- The point lies between `cursor` and `top`, and in none of the spans. -/
def Uncovered (top cursor : α) (spans : List (Span α)) (x : α) : Prop :=
  cursor ≤ x ∧ x < top ∧ ∀ s ∈ spans, ¬ s.Covers x

instance (top cursor : α) (spans : List (Span α)) : DecidablePred (Uncovered top cursor spans) :=
  fun x => inferInstanceAs (Decidable (cursor ≤ x ∧ x < top ∧ ∀ s ∈ spans, ¬ s.Covers x))

/-- The gap from the cursor to the next start, if there is one. -/
def gapBefore (cursor next : α) : List (Span α) :=
  if cursor < next then [{ start := cursor, stop := next }] else []

/-- The sweep: the gaps from `cursor` on, between the spans and up to `top`. -/
def gaps (top : α) : α → List (Span α) → List (Span α)
  | cursor, [] => gapBefore cursor top
  | cursor, s :: spans => gapBefore cursor s.start ++ gaps top (max cursor s.stop) spans

/-- The spans start one after the other. -/
def InOrder (spans : List (Span α)) : Prop := spans.Pairwise (fun s t => s.start ≤ t.start)

theorem mem_gapBefore {cursor next : α} {g : Span α} :
    g ∈ gapBefore cursor next ↔ cursor < next ∧ g = { start := cursor, stop := next } := by
  unfold gapBefore
  by_cases h : cursor < next
  · rw [if_pos h, List.mem_singleton]
    exact ⟨fun hg => ⟨h, hg⟩, fun hg => hg.2⟩
  · rw [if_neg h]
    exact ⟨fun hg => absurd hg (List.not_mem_nil), fun hg => absurd hg.1 h⟩

theorem mem_gaps_cons {top cursor : α} {s g : Span α} {spans : List (Span α)} :
    g ∈ gaps top cursor (s :: spans)
      ↔ g ∈ gapBefore cursor s.start ∨ g ∈ gaps top (max cursor s.stop) spans :=
  List.mem_append

/-- A gap covers what lies between its ends. -/
theorem covers_gapBefore_iff {cursor next x : α} :
    (∃ g ∈ gapBefore cursor next, g.Covers x) ↔ cursor ≤ x ∧ x < next := by
  constructor
  · intro h
    obtain ⟨g, hg, hx⟩ := h
    rw [(mem_gapBefore.mp hg).2] at hx
    exact hx
  · intro h
    exact ⟨_, mem_gapBefore.mpr ⟨h.1.trans_lt h.2, rfl⟩, h⟩

/-! ## §2. The shape of the gaps. -/

theorem start_lt_stop_of_mem_gaps {top : α} {g : Span α} {spans : List (Span α)} :
    ∀ {cursor : α}, g ∈ gaps top cursor spans → g.start < g.stop := by
  induction spans with
  | nil =>
      intro cursor hg
      obtain ⟨h, hg⟩ := mem_gapBefore.mp hg
      rw [hg]
      exact h
  | cons s spans ih =>
      intro cursor hg
      rcases mem_gaps_cons.mp hg with hg | hg
      · obtain ⟨h, hg⟩ := mem_gapBefore.mp hg
        rw [hg]
        exact h
      · exact ih hg

/-- Every gap starts at the cursor or behind it. -/
theorem cursor_le_of_mem_gaps {top : α} {g : Span α} {spans : List (Span α)} :
    ∀ {cursor : α}, g ∈ gaps top cursor spans → cursor ≤ g.start := by
  induction spans with
  | nil =>
      intro cursor hg
      rw [(mem_gapBefore.mp hg).2]
  | cons s spans ih =>
      intro cursor hg
      rcases mem_gaps_cons.mp hg with hg | hg
      · rw [(mem_gapBefore.mp hg).2]
      · exact (le_max_left _ _).trans (ih hg)

/-- **The gaps come one after the other.** -/
theorem gaps_pairwise (top : α) {spans : List (Span α)} (hproper : ∀ s ∈ spans, s.start ≤ s.stop) :
    ∀ cursor : α, (gaps top cursor spans).Pairwise (fun g h => g.stop ≤ h.start) := by
  have hone : ∀ cursor next : α,
      (gapBefore cursor next).Pairwise (fun g h => g.stop ≤ h.start) := by
    intro cursor next
    unfold gapBefore
    split
    · exact List.pairwise_singleton _ _
    · exact List.Pairwise.nil
  induction spans with
  | nil =>
      intro cursor
      exact hone cursor top
  | cons s spans ih =>
      intro cursor
      have htail := ih (fun t ht => hproper t (List.mem_cons_of_mem _ ht)) (max cursor s.stop)
      refine List.pairwise_append.mpr ⟨hone cursor s.start, htail, ?_⟩
      intro g hg h hh
      -- the gap ends where the span starts, and the later ones start behind the span
      rw [(mem_gapBefore.mp hg).2]
      exact (hproper s List.mem_cons_self).trans
        ((le_max_right _ _).trans (cursor_le_of_mem_gaps hh))

/-! ## §3. What the gaps cover. -/

/-- One step of the sweep, for the points: in front of the first span, or behind it. -/
theorem uncovered_cons_iff {top cursor x : α} {s : Span α} {spans : List (Span α)}
    (horder : InOrder (s :: spans)) (hs : s.start ≤ s.stop ∧ s.stop ≤ top) :
    Uncovered top cursor (s :: spans) x
      ↔ (cursor ≤ x ∧ x < s.start) ∨ Uncovered top (max cursor s.stop) spans x := by
  unfold Uncovered Span.Covers
  rw [List.forall_mem_cons, max_le_iff]
  constructor
  · intro h
    obtain ⟨hc, hx, hout, hspans⟩ := h
    by_cases hlt : x < s.start
    · exact Or.inl ⟨hc, hlt⟩
    · have hstop : s.stop ≤ x := not_lt.mp (fun hx' => hout ⟨not_lt.mp hlt, hx'⟩)
      exact Or.inr ⟨⟨hc, hstop⟩, hx, hspans⟩
  · intro h
    rcases h with ⟨hc, hlt⟩ | ⟨⟨hc, hstop⟩, hx, hspans⟩
    · refine ⟨hc, hlt.trans_le (hs.1.trans hs.2), fun h => absurd hlt (not_lt.mpr h.1), ?_⟩
      intro t ht hcov
      have hfirst : s.start ≤ t.start := List.rel_of_pairwise_cons horder ht
      exact absurd hlt (not_lt.mpr (hfirst.trans hcov.1))
    · exact ⟨hc, hx, fun h => absurd h.2 (not_lt.mpr hstop), hspans⟩

/-- **The gaps cover what no span covers**, when the spans lie inside. -/
theorem covers_gaps_iff {top x : α} {spans : List (Span α)} (horder : InOrder spans)
    (hinside : ∀ s ∈ spans, s.start ≤ s.stop ∧ s.stop ≤ top) :
    ∀ {cursor : α}, (∃ g ∈ gaps top cursor spans, g.Covers x) ↔ Uncovered top cursor spans x := by
  induction spans with
  | nil =>
      intro cursor
      show (∃ g ∈ gapBefore cursor top, g.Covers x) ↔ _
      rw [covers_gapBefore_iff]
      unfold Uncovered
      simp
  | cons s spans ih =>
      intro cursor
      have htail := @ih (List.Pairwise.of_cons horder)
        (fun t ht => hinside t (List.mem_cons_of_mem _ ht)) (max cursor s.stop)
      rw [uncovered_cons_iff horder (hinside s List.mem_cons_self), ← htail,
        ← covers_gapBefore_iff]
      simp only [mem_gaps_cons, or_and_right, exists_or]

/-! ## §4. Arbitrary spans. -/

/-- The sweep gets to the span without a gap that ends beyond `top`: it starts inside, or the
cursor reaches it, or a span that starts in front of it does. -/
def Reached (top cursor : α) (spans : List (Span α)) (s : Span α) : Prop :=
  s.start ≤ top ∨ s.start ≤ cursor ∨ ∃ t ∈ spans, t.start < s.start ∧ s.start ≤ t.stop

theorem gapBefore_within_iff {top cursor next : α} :
    (∀ g ∈ gapBefore cursor next, g.stop ≤ top) ↔ next ≤ top ∨ next ≤ cursor := by
  unfold gapBefore
  by_cases h : cursor < next
  · rw [if_pos h]
    simp [not_le.mpr h]
  · rw [if_neg h]
    simp [not_lt.mp h]

/-- Nothing starts in front of the first span. -/
theorem reached_first_iff {top cursor : α} {s : Span α} {spans : List (Span α)}
    (horder : InOrder (s :: spans)) :
    Reached top cursor (s :: spans) s ↔ s.start ≤ top ∨ s.start ≤ cursor := by
  unfold Reached
  constructor
  · intro h
    rcases h with h | h | ⟨t, ht, hlt, _⟩
    · exact Or.inl h
    · exact Or.inr h
    · rcases List.mem_cons.mp ht with ht | ht
      · rw [ht] at hlt
        exact absurd hlt (lt_irrefl _)
      · exact absurd hlt (not_lt.mpr (List.rel_of_pairwise_cons horder ht))
  · intro h
    exact h.imp_right Or.inl

/-- One step of the sweep, for the spans: the first one moves into the cursor. -/
theorem reached_cons_iff {top cursor : α} {s r : Span α} {spans : List (Span α)}
    (horder : InOrder (s :: spans)) (hs : s.start ≤ top ∨ s.start ≤ cursor) (hr : r ∈ spans) :
    Reached top cursor (s :: spans) r ↔ Reached top (max cursor s.stop) spans r := by
  unfold Reached
  constructor
  · intro h
    rcases h with h | h | ⟨t, ht, hlt, hle⟩
    · exact Or.inl h
    · exact Or.inr (Or.inl (h.trans (le_max_left _ _)))
    · rcases List.mem_cons.mp ht with ht | ht
      · rw [ht] at hle
        exact Or.inr (Or.inl (hle.trans (le_max_right _ _)))
      · exact Or.inr (Or.inr ⟨t, ht, hlt, hle⟩)
  · intro h
    rcases h with h | h | ⟨t, ht, hlt, hle⟩
    · exact Or.inl h
    · rcases le_max_iff.mp h with h | h
      · exact Or.inr (Or.inl h)
      · -- the first span reaches `r`; where both start together, `r` is as `s`
        rcases lt_or_eq_of_le (List.rel_of_pairwise_cons horder hr) with hlt | heq
        · exact Or.inr (Or.inr ⟨s, List.mem_cons_self, hlt, h⟩)
        · rw [← heq]
          exact hs.imp_right Or.inl
    · exact Or.inr (Or.inr ⟨t, List.mem_cons_of_mem _ ht, hlt, hle⟩)

/-- **When the gaps stay inside**: exactly when every span that starts beyond `top` is reached. -/
theorem gaps_within_iff {top : α} {spans : List (Span α)} (horder : InOrder spans) :
    ∀ {cursor : α},
      (∀ g ∈ gaps top cursor spans, g.stop ≤ top) ↔ ∀ s ∈ spans, Reached top cursor spans s := by
  induction spans with
  | nil =>
      intro cursor
      constructor
      · intro _ s hs
        exact absurd hs (List.not_mem_nil)
      · intro _ g hg
        rw [(mem_gapBefore.mp hg).2]
  | cons s spans ih =>
      intro cursor
      have htail := @ih (List.Pairwise.of_cons horder) (max cursor s.stop)
      show (∀ g ∈ gapBefore cursor s.start ++ gaps top (max cursor s.stop) spans, g.stop ≤ top) ↔ _
      rw [List.forall_mem_append, htail, gapBefore_within_iff, List.forall_mem_cons,
        reached_first_iff horder]
      apply and_congr_right
      intro hs
      apply forall₂_congr
      intro r hr
      exact (reached_cons_iff horder hs hr).symm

end Order

/-! ## §5. Lengths. -/

/-- The number of points of a span of numbers. -/
def Span.length (s : Span Nat) : Nat := s.stop - s.start

/-- Spans that come one after the other between two bounds are no longer than the room there is. -/
theorem sum_length_le {top : Nat} {gs : List (Span Nat)}
    (hpw : gs.Pairwise (fun g h => g.stop ≤ h.start)) : ∀ {cursor : Nat},
    (∀ g ∈ gs, cursor ≤ g.start ∧ g.start ≤ g.stop ∧ g.stop ≤ top) →
    (gs.map Span.length).sum ≤ top - cursor := by
  induction gs with
  | nil =>
      intro cursor _
      exact Nat.zero_le _
  | cons g gs ih =>
      intro cursor hbounds
      obtain ⟨hstart, hproper, hstop⟩ := hbounds g List.mem_cons_self
      have htail : (gs.map Span.length).sum ≤ top - g.stop := by
        apply ih (List.Pairwise.of_cons hpw)
        intro h hh
        exact ⟨List.rel_of_pairwise_cons hpw hh, (hbounds h (List.mem_cons_of_mem _ hh)).2⟩
      rw [List.map_cons, List.sum_cons]
      unfold Span.length at *
      omega

theorem sum_length_gapBefore (cursor next : Nat) :
    ((gapBefore cursor next).map Span.length).sum = next - cursor := by
  unfold gapBefore
  by_cases h : cursor < next
  · rw [if_pos h]
    rfl
  · rw [if_neg h]
    show 0 = next - cursor
    omega

/-- The uncovered points in front of the first span, and those behind it. -/
theorem card_uncovered_cons {top cursor : Nat} {s : Span Nat} {spans : List (Span Nat)}
    (horder : InOrder (s :: spans)) (hs : s.start ≤ s.stop ∧ s.stop ≤ top) :
    ((Finset.range top).filter (Uncovered top cursor (s :: spans))).card
      = (s.start - cursor)
        + ((Finset.range top).filter (Uncovered top (max cursor s.stop) spans)).card := by
  have hset : (Finset.range top).filter (Uncovered top cursor (s :: spans))
      = Finset.Ico cursor s.start
        ∪ (Finset.range top).filter (Uncovered top (max cursor s.stop) spans) := by
    ext x
    rw [Finset.mem_union, Finset.mem_filter, Finset.mem_filter, Finset.mem_range,
      Finset.mem_Ico, uncovered_cons_iff horder hs]
    constructor
    · intro h
      exact h.2.imp_right (fun hu => ⟨h.1, hu⟩)
    · intro h
      rcases h with h | h
      · exact ⟨by omega, Or.inl h⟩
      · exact ⟨h.1, Or.inr h.2⟩
  have hdisjoint : Disjoint (Finset.Ico cursor s.start)
      ((Finset.range top).filter (Uncovered top (max cursor s.stop) spans)) := by
    rw [Finset.disjoint_left]
    intro x hx hu
    rw [Finset.mem_Ico] at hx
    have hmax := (Finset.mem_filter.mp hu).2.1
    omega
  rw [hset, Finset.card_union_of_disjoint hdisjoint, Nat.card_Ico]

theorem card_uncovered_nil (top cursor : Nat) :
    ((Finset.range top).filter (Uncovered top cursor [])).card = top - cursor := by
  have hset : (Finset.range top).filter (Uncovered top cursor []) = Finset.Ico cursor top := by
    ext x
    rw [Finset.mem_filter, Finset.mem_range, Finset.mem_Ico]
    unfold Uncovered
    constructor
    · intro h
      exact ⟨h.2.1, h.1⟩
    · intro h
      exact ⟨h.2, h.1, h.2, fun _ hs => absurd hs (List.not_mem_nil)⟩
  rw [hset, Nat.card_Ico]

/-- **The lengths of the gaps count the uncovered points.** -/
theorem sum_gaps_eq_card {top : Nat} {spans : List (Span Nat)} (horder : InOrder spans)
    (hinside : ∀ s ∈ spans, s.start ≤ s.stop ∧ s.stop ≤ top) : ∀ {cursor : Nat},
    ((gaps top cursor spans).map Span.length).sum
      = ((Finset.range top).filter (Uncovered top cursor spans)).card := by
  induction spans with
  | nil =>
      intro cursor
      rw [card_uncovered_nil]
      exact sum_length_gapBefore cursor top
  | cons s spans ih =>
      intro cursor
      have htail := @ih (List.Pairwise.of_cons horder)
        (fun t ht => hinside t (List.mem_cons_of_mem _ ht)) (max cursor s.stop)
      show ((gapBefore cursor s.start ++ gaps top (max cursor s.stop) spans).map Span.length).sum = _
      rw [List.map_append, List.sum_append, sum_length_gapBefore, htail,
        card_uncovered_cons horder (hinside s List.mem_cons_self)]

end LivediskForensic.Lib
