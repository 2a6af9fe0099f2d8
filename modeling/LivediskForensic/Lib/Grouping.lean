/-
  LivediskForensic.Lib.Grouping
  ──────────────────────────────
  GROUPING BY UPDATE: items are handed, one after the other, to the first
  group with the right key (foldl_updateFirst_cons).  When the keys of the
  groups are distinct,

      foldl_updateFirst    — each group receives exactly the items with its
                             key, in the order they came
      flatMap_filter_perm  — and over all groups no item is lost, doubled or
                             misplaced
-/
import Mathlib.Data.List.Perm.Basic

namespace LivediskForensic.Lib

variable {γ ι κ : Type*} [DecidableEq κ]

/-! ## §1. One item. -/

/-- Update the first entry that satisfies the test. -/
def updateFirst (p : γ → Bool) (f : γ → γ) : List γ → List γ
  | [] => []
  | g :: gs => if p g then f g :: gs else g :: updateFirst p f gs

omit [DecidableEq κ] in
/-- An update that keeps an entry's key keeps the list of keys. -/
theorem map_updateFirst {key : γ → κ} {f : γ → γ} (p : γ → Bool)
    (hf : ∀ g, key (f g) = key g) : ∀ groups : List γ,
    (updateFirst p f groups).map key = groups.map key
  | [] => rfl
  | g :: gs => by
      have ih := map_updateFirst p hf gs
      show (if p g = true then f g :: gs else g :: updateFirst p f gs).map key = _
      by_cases h : p g = true
      · rw [if_pos h, List.map_cons, List.map_cons, hf]
      · rw [if_neg h, List.map_cons, List.map_cons, ih]

/-- With distinct keys, updating the first entry of a key is updating that key. -/
theorem updateFirst_eq_map {key : γ → κ} (k : κ) (f : γ → γ) :
    ∀ groups : List γ, (groups.map key).Nodup →
      updateFirst (fun g => key g = k) f groups = groups.map (fun g => if key g = k then f g else g)
  | [], _ => rfl
  | g :: gs, h => by
      rw [List.map_cons, List.nodup_cons] at h
      have ih := updateFirst_eq_map k f gs h.2
      show (if decide (key g = k) = true then f g :: gs else g :: updateFirst _ f gs) = _
      by_cases hk : key g = k
      · -- the key is used up: no later group has it
        have hrest : gs.map (fun g' => if key g' = k then f g' else g') = gs := by
          refine (List.map_congr_left ?_).trans (List.map_id gs)
          intro g' hg'
          apply if_neg
          intro hk'
          exact h.1 (hk.trans hk'.symm ▸ List.mem_map_of_mem hg')
        rw [if_pos (decide_eq_true hk), List.map_cons, if_pos hk, hrest]
      · rw [if_neg (by simp [hk]), ih, List.map_cons, if_neg hk]

/-! ## §2. All items. -/

/-- **The run of the loop**: each group receives the items with its key, in order. -/
theorem foldl_updateFirst (key : γ → κ) (parent : ι → κ) (add : γ → ι → γ)
    (hadd : ∀ g i, key (add g i) = key g) :
    ∀ (items : List ι) (groups : List γ), (groups.map key).Nodup →
      items.foldl (fun gs i => updateFirst (fun g => key g = parent i) (fun g => add g i) gs) groups
        = groups.map (fun g => (items.filter (fun i => parent i = key g)).foldl add g)
  | [], groups, _ => by simp
  | i :: items, groups, h => by
      have hmap := updateFirst_eq_map (parent i) (fun g => add g i) groups h
      have hkeys : (groups.map (fun g => if key g = parent i then add g i else g)).map key
          = groups.map key := by
        rw [List.map_map]
        apply List.map_congr_left
        intro g _
        show key (if key g = parent i then add g i else g) = key g
        by_cases hk : key g = parent i
        · rw [if_pos hk, hadd]
        · rw [if_neg hk]
      -- the first update keeps the keys, so the rest of the run is the induction hypothesis
      rw [List.foldl_cons, hmap, foldl_updateFirst key parent add hadd items _ (hkeys ▸ h),
        List.map_map]
      apply List.map_congr_left
      intro g _
      show (items.filter (fun j => parent j = key (if key g = parent i then add g i else g))).foldl add
        (if key g = parent i then add g i else g) = _
      by_cases hk : key g = parent i
      · rw [if_pos hk, hadd, List.filter_cons_of_pos (by simp [hk]), List.foldl_cons]
      · rw [if_neg hk, List.filter_cons_of_neg (by simpa using fun he => hk he.symm)]

/-- **The run, group by group**: the first group takes the items with its key, the groups behind it
share the others.  The keys need not be distinct here. -/
theorem foldl_updateFirst_cons (key : γ → κ) (parent : ι → κ) (add : γ → ι → γ)
    (hadd : ∀ g i, key (add g i) = key g) (gs : List γ) : ∀ (items : List ι) (g : γ),
    items.foldl (fun gs i => updateFirst (fun g => key g = parent i) (fun g => add g i) gs) (g :: gs)
      = (items.filter (fun i => parent i = key g)).foldl add g
        :: (items.filter (fun i => parent i ≠ key g)).foldl
          (fun gs i => updateFirst (fun g => key g = parent i) (fun g => add g i) gs) gs := by
  intro items
  induction items generalizing gs with
  | nil =>
      intro g
      rfl
  | cons i items ih =>
      intro g
      by_cases hk : key g = parent i
      · have hupdate : updateFirst (fun g => decide (key g = parent i)) (fun g => add g i) (g :: gs)
            = add g i :: gs := if_pos (decide_eq_true hk)
        rw [List.foldl_cons, hupdate, ih, hadd, List.filter_cons_of_pos (by simp [hk]),
          List.filter_cons_of_neg (by simp [hk]), List.foldl_cons]
      · have hupdate : updateFirst (fun g => decide (key g = parent i)) (fun g => add g i) (g :: gs)
            = g :: updateFirst (fun g => decide (key g = parent i)) (fun g => add g i) gs :=
          if_neg (by simp [hk])
        have hne : parent i ≠ key g := fun he => hk he.symm
        rw [List.foldl_cons, hupdate, ih, List.filter_cons_of_neg (by simp [hne]),
          List.filter_cons_of_pos (by simp [hne]), List.foldl_cons]

/-! ## §3. Nothing lost. -/

/-- A selection by two exclusive tests, in two parts. -/
theorem filter_or_perm {p q : ι → Bool} (items : List ι)
    (h : ∀ i ∈ items, p i = true → q i = false) :
    (items.filter p ++ items.filter q).Perm (items.filter (fun i => p i || q i)) := by
  induction items with
  | nil => simp
  | cons i items ih =>
      have ih := ih (fun j hj => h j (List.mem_cons_of_mem _ hj))
      have hi := h i List.mem_cons_self
      cases hp : p i with
      | true =>
          simp only [List.filter_cons, hp, hi hp, Bool.true_or, if_true, Bool.false_eq_true, if_false]
          exact ih.cons i
      | false =>
          cases hq : q i with
          | true =>
              simp only [List.filter_cons, hp, hq, Bool.or_true, if_true, Bool.false_eq_true, if_false]
              exact List.perm_middle.trans (ih.cons i)
          | false =>
              simpa only [List.filter_cons, hp, hq, Bool.or_false, Bool.false_eq_true, if_false] using ih

/-- **Nothing lost, doubled or misplaced**: over all keys, the selections make up the items whose
key is among them. -/
theorem flatMap_filter_perm (parent : ι → κ) (items : List ι) :
    ∀ keys : List κ, keys.Nodup →
      (keys.flatMap (fun k => items.filter (fun i => parent i = k))).Perm
        (items.filter (fun i => parent i ∈ keys))
  | [], _ => by simp
  | k :: keys, h => by
      rw [List.nodup_cons] at h
      have ih := flatMap_filter_perm parent items keys h.2
      have hor := filter_or_perm (p := fun i => decide (parent i = k))
        (q := fun i => decide (parent i ∈ keys)) items (by
          intro i _ hi
          rw [decide_eq_true_eq] at hi
          exact decide_eq_false (hi ▸ h.1))
      rw [List.flatMap_cons]
      refine (ih.append_left _).trans (hor.trans (List.Perm.of_eq ?_))
      apply List.filter_congr
      intro i _
      simp

end LivediskForensic.Lib
