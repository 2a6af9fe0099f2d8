/-
  LivediskForensic.Lib.StableSort
  ────────────────────────────────
  A STABLE sort by key, and the four facts a caller ever needs of it:

      sortByKey_perm          — the output is a rearrangement of the input
      sortByKey_pairwise      — the keys come out in order
      sortByKey_filter_key    — entries of one key keep their input order
                                (pair by pair: sortByKey_pairwise_stable)
      sortByKey_eq_of_perm    — when the key separates the entries, the
                                output does not depend on the input order

  The sort is insertion sort, which recurses structurally, so closed inputs
  evaluate.  Any two stable sorts agree as functions.
-/
import Mathlib.Data.List.Sort
import Mathlib.Order.Basic

namespace LivediskForensic.Lib

variable {α β κ : Type*} [LinearOrder κ]

/-! ## §1. The sort. -/

/-- Stable sort by a key in a linear order. -/
def sortByKey (key : α → κ) (l : List α) : List α :=
  l.insertionSort (fun a b => key a ≤ key b)

theorem sortByKey_perm (key : α → κ) (l : List α) : (sortByKey key l).Perm l :=
  List.perm_insertionSort _ l

@[simp] theorem mem_sortByKey {key : α → κ} {l : List α} {a : α} :
    a ∈ sortByKey key l ↔ a ∈ l :=
  (sortByKey_perm key l).mem_iff

@[simp] theorem length_sortByKey (key : α → κ) (l : List α) :
    (sortByKey key l).length = l.length :=
  (sortByKey_perm key l).length_eq

@[simp] theorem sortByKey_eq_nil {key : α → κ} {l : List α} :
    sortByKey key l = [] ↔ l = [] := by
  rw [← List.length_eq_zero_iff, length_sortByKey, List.length_eq_zero_iff]

/-! ## §2. Order. -/

private theorem insertionSort_pairwise_key (key : α → κ) :
    ∀ l : List α,
      (l.insertionSort (fun a b => key a ≤ key b)).Pairwise (fun a b => key a ≤ key b) := by
  have : Std.Total (fun a b : α => key a ≤ key b) := ⟨fun a b => le_total (key a) (key b)⟩
  have : IsTrans α (fun a b => key a ≤ key b) := ⟨fun _ _ _ h h' => le_trans h h'⟩
  intro l
  exact List.pairwise_insertionSort _ l

theorem sortByKey_pairwise (key : α → κ) (l : List α) :
    (sortByKey key l).Pairwise (fun a b => key a ≤ key b) :=
  insertionSort_pairwise_key key l

/-- Separated keys come out STRICTLY increasing. -/
theorem sortByKey_pairwise_lt (key : α → κ) (l : List α) (h : (l.map key).Nodup) :
    (sortByKey key l).Pairwise (fun a b => key a < key b) := by
  have hnd : ((sortByKey key l).map key).Nodup :=
    ((sortByKey_perm key l).map key).nodup_iff.mpr h
  have hne : (sortByKey key l).Pairwise (fun a b => key a ≠ key b) :=
    List.pairwise_map.mp hnd
  exact ((sortByKey_pairwise key l).and hne).imp (fun hab => lt_of_le_of_ne hab.1 hab.2)

/-! ## §3. Stability. -/

/-- An already ordered sublist of the input is a sublist of the output. -/
theorem sublist_sortByKey (key : α → κ) {c l : List α}
    (hc : c.Pairwise (fun a b => key a ≤ key b)) (hs : c.Sublist l) :
    c.Sublist (sortByKey key l) :=
  List.sublist_insertionSort hc hs

/-- **Stability**: the entries of one key keep their input order. -/
theorem sortByKey_filter_key (key : α → κ) (l : List α) (k : κ) :
    (sortByKey key l).filter (fun a => key a = k) = l.filter (fun a => key a = k) := by
  set c := l.filter (fun a => key a = k) with hc
  have hkey : ∀ a ∈ c, key a = k := by
    intro a ha
    rw [hc, List.mem_filter] at ha
    exact of_decide_eq_true ha.2
  have hpw : c.Pairwise (fun a b => key a ≤ key b) := by
    rw [List.pairwise_iff_forall_sublist]
    intro a b hab
    rw [hkey a (hab.subset (by simp)), hkey b (hab.subset (by simp))]
  have hsub : c.Sublist (sortByKey key l) :=
    sublist_sortByKey key hpw (hc ▸ List.filter_sublist)
  -- filtering the inclusion on both sides leaves lists of one length
  have hfil := hsub.filter (fun a => decide (key a = k))
  have hself : c.filter (fun a => decide (key a = k)) = c := by
    rw [List.filter_eq_self]
    intro a ha
    exact decide_eq_true (hkey a ha)
  rw [hself] at hfil
  have hlen : ((sortByKey key l).filter (fun a => decide (key a = k))).length = c.length :=
    ((sortByKey_perm key l).filter _).length_eq
  exact (hfil.eq_of_length hlen.symm).symm

/-- **Stability, pair by pair**: what comes earlier has a smaller key, or the same key and came
earlier in the input. -/
theorem sortByKey_pairwise_stable (key : α → κ) {R : α → α → Prop} {l : List α}
    (h : l.Pairwise R) :
    (sortByKey key l).Pairwise (fun a b => key a < key b ∨ (key a = key b ∧ R a b)) := by
  have hle := sortByKey_pairwise key l
  rw [List.pairwise_iff_forall_sublist] at hle ⊢
  intro a b hab
  rcases lt_or_eq_of_le (hle hab) with hlt | heq
  · exact Or.inl hlt
  · have hpair : [a, b].filter (fun x => key x = key b) = [a, b] := by
      simp [heq]
    have hfil := hab.filter (fun x => decide (key x = key b))
    rw [hpair, sortByKey_filter_key] at hfil
    exact Or.inr ⟨heq, List.pairwise_iff_forall_sublist.mp h (hfil.trans List.filter_sublist)⟩

/-! ## §4. Independence of the input order, and images. -/

/-- Two lists in key order with the same entries are equal, when the key separates them. -/
theorem eq_of_perm_of_key_ordered {key : α → κ} {l l' : List α}
    (hinj : ∀ a ∈ l, ∀ b ∈ l, key a = key b → a = b) (hp : l.Perm l')
    (hl : l.Pairwise (fun a b => key a ≤ key b))
    (hl' : l'.Pairwise (fun a b => key a ≤ key b)) : l = l' := by
  refine List.Perm.eq_of_pairwise ?_ hl hl' hp
  intro a b ha hb hab hba
  exact hinj a ha b (hp.mem_iff.mpr hb) (le_antisymm hab hba)

/-- **Order independence**: with a separating key the sort sees only the set of entries. -/
theorem sortByKey_eq_of_perm {key : α → κ} {l l' : List α}
    (hinj : ∀ a ∈ l, ∀ b ∈ l, key a = key b → a = b) (hp : l.Perm l') :
    sortByKey key l = sortByKey key l' := by
  refine eq_of_perm_of_key_ordered ?_ ?_ (sortByKey_pairwise key l) (sortByKey_pairwise key l')
  · intro a ha b hb
    exact hinj a (mem_sortByKey.mp ha) b (mem_sortByKey.mp hb)
  · exact ((sortByKey_perm key l).trans hp).trans (sortByKey_perm key l').symm

/-- The sort goes through a map that keeps the order of the keys. -/
theorem sortByKey_map {κ' : Type*} [LinearOrder κ'] {f : α → β} {key : β → κ} {key' : α → κ'}
    {l : List α} (h : ∀ a ∈ l, ∀ b ∈ l, key' a ≤ key' b ↔ key (f a) ≤ key (f b)) :
    sortByKey key (l.map f) = (sortByKey key' l).map f :=
  (List.map_insertionSort (fun a b => key' a ≤ key' b) (fun a b => key a ≤ key b) f l h).symm

omit [LinearOrder κ] in
/-- A nodup image of the keys separates the entries. -/
theorem key_separates_of_nodup {key : α → κ} {l : List α} (h : (l.map key).Nodup) :
    ∀ a ∈ l, ∀ b ∈ l, key a = key b → a = b :=
  fun _ ha _ hb => List.inj_on_of_nodup_map h ha hb

end LivediskForensic.Lib
