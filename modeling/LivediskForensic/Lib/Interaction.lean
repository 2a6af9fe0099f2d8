/-
  LivediskForensic.Lib.Interaction — PROGRAMS THAT CALL OUT, and the
  environment that answers them.

  A program is a tree of calls: it either is done, or makes a call and goes on
  with whatever is answered.  An environment is a transition system of its own:
  it accepts a call or does not, and it may answer an accepted one in several
  ways, each leaving it in some state.  `Reaches` is every interleaving of the
  two.

      wp_bind, wp_foldlM — the weakest precondition composes along the program
      wp_iterate         — a loop that asks until the environment is exhausted
      Meets.of_wp        — a program that satisfies its weakest precondition
                           makes accepted calls only, finishes as promised, and
                           is never stuck
      release_cons       — giving back the reference that came last
-/
import Mathlib.Data.List.Perm.Subperm
import Mathlib.Data.List.Nodup
import Mathlib.Tactic.Push

namespace LivediskForensic.Lib

/-! ## §1. Programs. -/

/-- A program over an interface: a result, or a call and what to do with its answer. -/
inductive Prog (Call : Type) (Answer : Call → Type) (α : Type) where
  | done (result : α)
  | call (c : Call) (k : Answer c → Prog Call Answer α)

variable {Call : Type} {Answer : Call → Type} {α β : Type}

/-- Go on with the result. -/
def Prog.bind : Prog Call Answer α → (α → Prog Call Answer β) → Prog Call Answer β
  | .done result, f => f result
  | .call c k, f => .call c (fun answer => (k answer).bind f)

instance Prog.instMonad : Monad (Prog Call Answer) where
  pure := Prog.done
  bind := Prog.bind

/-- Make one call and return the answer. -/
def request (c : Call) : Prog Call Answer (Answer c) := .call c .done

/-- `loop { match step(b) { Some(b') => b = b', None => break } }`, cut off after `fuel` rounds:
    `none` when the loop was still going. -/
def iterate (step : β → Prog Call Answer (β ⊕ α)) : Nat → β → Prog Call Answer (Option α)
  | 0, _ => pure none
  | fuel + 1, b => do
      match ← step b with
      | .inl b' => iterate step fuel b'
      | .inr a => pure (some a)

/-! ## §2. Environments. -/

/-- Who answers the calls. -/
structure Environment (Call : Type) (Answer : Call → Type) where
  State : Type
  /-- The calls that may be made in a state. -/
  Accepts : State → Call → Prop
  /-- An answer to a call, and the state it leaves. -/
  Answers : State → (c : Call) → Answer c → State → Prop

variable (env : Environment Call Answer)

/-- **Every interleaving** of a program and its environment. -/
inductive Environment.Reaches :
    Prog Call Answer α → env.State → Prog Call Answer α → env.State → Prop where
  | refl (p : Prog Call Answer α) (s : env.State) : Reaches p s p s
  /-- The environment answers the next call. -/
  | step {c : Call} {k : Answer c → Prog Call Answer α} {s s' t : env.State} {answer : Answer c}
      {q : Prog Call Answer α} (h : env.Answers s c answer s') (rest : Reaches (k answer) s' q t) :
      Reaches (.call c k) s q t

/-- An environment that has an answer to every call it accepts. -/
def Environment.Responsive : Prop :=
  ∀ s c, env.Accepts s c → ∃ answer s', env.Answers s c answer s'

/-- What it is for a program to work in an environment, from a state. -/
structure Environment.Meets (p : Prog Call Answer α) (s : env.State) (Q : α → env.State → Prop) :
    Prop where
  /-- In no run is a call made that the environment does not accept. -/
  accepted : ∀ c k t, env.Reaches p s (.call c k) t → env.Accepts t c
  /-- Every finished run ends as promised. -/
  result : ∀ a t, env.Reaches p s (.done a) t → Q a t
  /-- However far a run has come, it can be finished. -/
  finishes : ∀ q t, env.Reaches p s q t → ∃ a u, env.Reaches q t (.done a) u

/-! ## §3. Weakest preconditions. -/

/-- From this state every call is accepted, and `Q` holds at the end. -/
def Environment.wp : Prog Call Answer α → (α → env.State → Prop) → env.State → Prop
  | .done a, Q, s => Q a s
  | .call c k, Q, s =>
      env.Accepts s c ∧ ∀ answer s', env.Answers s c answer s' → Environment.wp (k answer) Q s'

variable {env}

@[simp] theorem wp_pure {a : α} {Q : α → env.State → Prop} {s : env.State} :
    env.wp (pure a) Q s ↔ Q a s := Iff.rfl

@[simp] theorem wp_request {c : Call} {Q : Answer c → env.State → Prop} {s : env.State} :
    env.wp (request c) Q s
      ↔ env.Accepts s c ∧ ∀ answer s', env.Answers s c answer s' → Q answer s' := Iff.rfl

/-- **Sequencing**: the rest of the program is the postcondition of its front. -/
@[simp] theorem wp_bind {p : Prog Call Answer α} {f : α → Prog Call Answer β}
    {Q : β → env.State → Prop} {s : env.State} :
    env.wp (p >>= f) Q s ↔ env.wp p (fun a t => env.wp (f a) Q t) s := by
  show env.wp (p.bind f) Q s ↔ _
  induction p generalizing s with
  | done a => exact Iff.rfl
  | call c k ih =>
      show (env.Accepts s c ∧ ∀ answer s', env.Answers s c answer s' →
        env.wp ((k answer).bind f) Q s') ↔ env.Accepts s c ∧ _
      refine and_congr_right (fun _ => ?_)
      exact forall_congr' (fun answer => forall_congr' (fun s' => imp_congr_right (fun _ => ih answer)))

/-- A weaker postcondition is easier. -/
theorem wp_mono {p : Prog Call Answer α} {Q R : α → env.State → Prop} {s : env.State}
    (h : env.wp p Q s) (hQR : ∀ a t, Q a t → R a t) : env.wp p R s := by
  induction p generalizing s with
  | done a => exact hQR a s h
  | call c k ih =>
      refine ⟨h.1, ?_⟩
      intro answer s' hans
      exact ih answer (h.2 answer s' hans)

/-- **A `for` loop**: what each round keeps, indexed by the entries already done. -/
theorem wp_foldlM {γ : Type} {f : β → γ → Prog Call Answer β} (Inv : List γ → β → env.State → Prop)
    {xs : List γ} {b : β} {s : env.State} (hinit : Inv [] b s)
    (hstep : ∀ before x after b s, xs = before ++ x :: after → Inv before b s →
      env.wp (f b x) (Inv (before ++ [x])) s) :
    env.wp (xs.foldlM f b) (Inv xs) s := by
  -- the induction runs over the entries still to come
  suffices key : ∀ after before b s, xs = before ++ after → Inv before b s →
      env.wp (after.foldlM f b) (Inv xs) s from key xs [] b s rfl hinit
  intro after
  induction after with
  | nil =>
      intro before b s hxs hinv
      rw [List.append_nil] at hxs
      rw [List.foldlM_nil, wp_pure, hxs]
      exact hinv
  | cons x after ih =>
      intro before b s hxs hinv
      rw [List.foldlM_cons, wp_bind]
      refine wp_mono (hstep before x after b s hxs hinv) ?_
      intro b' t hinv'
      exact ih (before ++ [x]) b' t (by rw [hxs, List.append_assoc]; rfl) hinv'

/-- **A `loop` that asks until there is nothing left**: `measure` bounds the rounds to come, so
    fuel above it is enough. -/
theorem wp_iterate {step : β → Prog Call Answer (β ⊕ α)} (Inv : Nat → β → env.State → Prop)
    {Q : α → env.State → Prop}
    (hstep : ∀ n b s, Inv n b s →
      env.wp (step b) (fun r t => r.elim (fun b' => ∃ m < n, Inv m b' t) (fun a => Q a t)) s) :
    ∀ fuel n b s, n < fuel → Inv n b s →
      env.wp (iterate step fuel b) (fun r t => ∃ a, r = some a ∧ Q a t) s := by
  intro fuel
  induction fuel with
  | zero =>
      intro n b s hn
      omega
  | succ fuel ih =>
      intro n b s hn hinv
      show env.wp (step b >>= _) _ s
      rw [wp_bind]
      refine wp_mono (hstep n b s hinv) ?_
      intro r t hr
      cases r with
      | inl b' =>
          obtain ⟨m, hm, hinv'⟩ := hr
          exact ih m b' t (by omega) hinv'
      | inr a => exact ⟨a, rfl, hr⟩

/-! ## §4. What the weakest precondition promises. -/

/-- The precondition travels along every run. -/
theorem wp_of_reaches {p q : Prog Call Answer α} {Q : α → env.State → Prop} {s t : env.State}
    (hrun : env.Reaches p s q t) (h : env.wp p Q s) : env.wp q Q t := by
  induction hrun with
  | refl => exact h
  | step hans _ ih => exact ih (h.2 _ _ hans)

/-- A program is a finite tree, so an environment that answers finishes it. -/
theorem exists_done {p : Prog Call Answer α} {Q : α → env.State → Prop} {s : env.State}
    (henv : env.Responsive) (h : env.wp p Q s) : ∃ a t, env.Reaches p s (.done a) t := by
  induction p generalizing s with
  | done a => exact ⟨a, s, .refl _ _⟩
  | call c k ih =>
      obtain ⟨answer, s', hans⟩ := henv s c h.1
      obtain ⟨a, t, hrun⟩ := ih answer (h.2 answer s' hans)
      exact ⟨a, t, .step hans hrun⟩

/-- **Adequacy.**  The weakest precondition is enough for every run. -/
theorem Environment.Meets.of_wp {p : Prog Call Answer α} {Q : α → env.State → Prop}
    {s : env.State} (henv : env.Responsive) (h : env.wp p Q s) : env.Meets p s Q where
  accepted _ _ _ hrun := (wp_of_reaches hrun h).1
  result _ _ hrun := wp_of_reaches hrun h
  finishes _ _ hrun := exists_done henv (wp_of_reaches hrun h)

/-- A promise may be kept with less said. -/
theorem Environment.Meets.mono {p : Prog Call Answer α} {Q R : α → env.State → Prop}
    {s : env.State} (h : env.Meets p s Q) (hQR : ∀ a t, Q a t → R a t) : env.Meets p s R where
  accepted := h.accepted
  result a t hrun := hQR a t (h.result a t hrun)
  finishes := h.finishes

/-! ## §5. Tables of references: what an environment has handed out. -/

section Table

variable {ρ ο : Type}

/-- No reference of the table is this one. -/
def Fresh (held : List (ρ × ο)) (ref : ρ) : Prop := ∀ e ∈ held, e.1 ≠ ref

/-- The table without a reference. -/
def release [DecidableEq ρ] (held : List (ρ × ο)) (ref : ρ) : List (ρ × ο) :=
  held.filter (fun e => e.1 ≠ ref)

theorem fresh_nil (ref : ρ) : Fresh ([] : List (ρ × ο)) ref := by
  intro e he
  exact absurd he List.not_mem_nil

theorem fresh_cons {e : ρ × ο} {held : List (ρ × ο)} {ref : ρ} :
    Fresh (e :: held) ref ↔ e.1 ≠ ref ∧ Fresh held ref := by
  unfold Fresh
  rw [List.forall_mem_cons]

/-- The reference is held, and stands for this object only. -/
structure Holds (held : List (ρ × ο)) (ref : ρ) (o : ο) : Prop where
  mem : (ref, o) ∈ held
  only : ∀ o', (ref, o') ∈ held → o' = o

/-- A reference that was fresh when it was handed out. -/
theorem Holds.head {held : List (ρ × ο)} {ref : ρ} (o : ο) (h : Fresh held ref) :
    Holds ((ref, o) :: held) ref o := by
  refine ⟨List.mem_cons_self, ?_⟩
  intro o' hmem
  cases List.mem_cons.mp hmem with
  | inl heq => exact (Prod.mk.inj heq).2
  | inr hold => exact absurd rfl (h _ hold)

/-- What is handed out later does not matter to it. -/
theorem Holds.cons {held : List (ρ × ο)} {ref : ρ} {o : ο} (h : Holds held ref o) {e : ρ × ο}
    (hne : e.1 ≠ ref) : Holds (e :: held) ref o := by
  refine ⟨List.mem_cons_of_mem _ h.mem, ?_⟩
  intro o' hmem
  cases List.mem_cons.mp hmem with
  | inl heq =>
      rw [← heq] at hne
      exact absurd rfl hne
  | inr hold => exact h.only o' hold

/-- A fresh reference differs from every one held. -/
theorem Holds.ne_of_fresh {held : List (ρ × ο)} {ref ref' : ρ} {o : ο} (h : Holds held ref o)
    (hfresh : Fresh held ref') : ref' ≠ ref :=
  fun heq => hfresh _ h.mem heq.symm

theorem release_eq_self [DecidableEq ρ] {held : List (ρ × ο)} {ref : ρ} (h : Fresh held ref) :
    release held ref = held := by
  unfold release
  rw [List.filter_eq_self]
  intro e he
  exact decide_eq_true (h e he)

/-- Giving back the reference that came last leaves what was held before. -/
theorem release_cons [DecidableEq ρ] {held : List (ρ × ο)} {ref : ρ} (o : ο)
    (h : Fresh held ref) : release ((ref, o) :: held) ref = held := by
  have hrest : release ((ref, o) :: held) ref = release held ref :=
    List.filter_cons_of_neg (by simp)
  rw [hrest, release_eq_self h]

/-- The table with another object under a reference. -/
def update [DecidableEq ρ] (held : List (ρ × ο)) (ref : ρ) (o : ο) : List (ρ × ο) :=
  held.map (fun e => if e.1 = ref then (e.1, o) else e)

theorem update_cons [DecidableEq ρ] {held : List (ρ × ο)} {ref : ρ} (o o' : ο)
    (h : Fresh held ref) : update ((ref, o) :: held) ref o' = (ref, o') :: held := by
  unfold update
  rw [List.map_cons, if_pos rfl]
  congr 1
  -- no other entry is touched
  have hid : ∀ e ∈ held, (if e.1 = ref then (e.1, o') else e) = id e := by
    intro e he
    rw [if_neg (h e he)]
    rfl
  rw [List.map_congr_left hid, List.map_id]

/-- Among more candidates than references held, one is free. -/
theorem exists_fresh {held : List (ρ × ο)} {candidates : List ρ} (hnodup : candidates.Nodup)
    (hlen : held.length < candidates.length) : ∃ ref ∈ candidates, Fresh held ref := by
  by_contra hnone
  push Not at hnone
  -- every candidate is taken, so the candidates fit into the table
  have hsub : candidates ⊆ held.map Prod.fst := by
    intro ref href
    have hused := hnone ref href
    unfold Fresh at hused
    push Not at hused
    obtain ⟨e, he, heq⟩ := hused
    exact List.mem_map.mpr ⟨e, he, heq⟩
  have hle := (List.subperm_of_subset hnodup hsub).length_le
  rw [List.length_map] at hle
  omega

end Table

end LivediskForensic.Lib
