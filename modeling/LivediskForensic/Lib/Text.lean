/-
  LivediskForensic.Lib.Text
  ──────────────────────────
  Splitting and trimming of texts, as the Rust standard library does it, on
  lists of characters (of any symbols where the operation is about symbols
  only).

    * `wordsBy p`   — the maximal non-empty runs free of separators
                      (`split(p).filter(non-empty)`);
    * `lines`       — `str::lines`: cut at newlines, a carriage return in
                      front of the newline dropped, a final newline optional;
    * `trimBy p`    — separators removed at both ends;
    * `stripPrefix` — `str::strip_prefix`;
    * `isWhiteSpace`— the Unicode `White_Space` property.

  The facts are the ones a parser proof composes: how the words of a
  concatenation arise from the words of its parts, that text without
  separators is one word, and that a line written between two newlines is
  read back.
-/
import Mathlib.Algebra.Ring.Nat
import Mathlib.Data.List.Basic
import Mathlib.Data.List.DropRight

namespace LivediskForensic.Lib

variable {α : Type*}

/-! ## §1. Words. -/

/-- The maximal non-empty pieces of `s` that hold no separator. -/
def wordsBy (p : α → Bool) (s : List α) : List (List α) :=
  (s.splitOnP p).filter (fun w => !w.isEmpty)

@[simp] theorem wordsBy_nil (p : α → Bool) : wordsBy p [] = [] := by
  simp [wordsBy]

/-- A separator cuts the words on its left from the words on its right. -/
theorem wordsBy_append_sep {p : α → Bool} {sep : α} (h : p sep = true) (xs ys : List α) :
    wordsBy p (xs ++ sep :: ys) = wordsBy p xs ++ wordsBy p ys := by
  simp only [wordsBy]
  rw [List.splitOnP_append_cons xs ys h, List.filter_append]

/-- Non-empty text without separators is one word. -/
theorem wordsBy_eq_singleton {p : α → Bool} {w : List α} (hne : w ≠ [])
    (h : ∀ x ∈ w, p x = false) : wordsBy p w = [w] := by
  simp [wordsBy, List.splitOnP_eq_singleton h, hne]

/-- A word in front of a separator comes first. -/
theorem wordsBy_cons_word {p : α → Bool} {w : List α} {sep : α} (hne : w ≠ [])
    (hw : ∀ x ∈ w, p x = false) (h : p sep = true) (ys : List α) :
    wordsBy p (w ++ sep :: ys) = w :: wordsBy p ys := by
  rw [wordsBy_append_sep h, wordsBy_eq_singleton hne hw, List.singleton_append]

/-- A trailing separator adds no word. -/
theorem wordsBy_concat_sep {p : α → Bool} {sep : α} (h : p sep = true) (xs : List α) :
    wordsBy p (xs ++ [sep]) = wordsBy p xs := by
  rw [wordsBy_append_sep h, wordsBy_nil, List.append_nil]

/-- No piece of a split holds a separator. -/
theorem eq_false_of_mem_splitOnP {p : α → Bool} {s : List α} :
    ∀ {piece : List α}, piece ∈ s.splitOnP p → ∀ x ∈ piece, p x = false := by
  induction s with
  | nil =>
      intro piece h x hx
      rw [List.splitOnP_nil, List.mem_singleton] at h
      exact absurd (h ▸ hx) List.not_mem_nil
  | cons c s ih =>
      intro piece h x hx
      rw [List.splitOnP_cons_eq_if_modifyHead] at h
      by_cases hc : p c = true
      · rw [if_pos hc] at h
        rcases List.mem_cons.mp h with h | h
        · exact absurd (h ▸ hx) List.not_mem_nil
        · exact ih h x hx
      · rw [if_neg hc] at h
        cases hs : s.splitOnP p with
        | nil => exact absurd hs (List.splitOnP_ne_nil p s)
        | cons first rest =>
            rw [hs] at h ih
            rcases List.mem_cons.mp h with h | h
            · rw [h] at hx
              rcases List.mem_cons.mp hx with hx | hx
              · rw [hx]
                exact Bool.eq_false_iff.mpr hc
              · exact ih List.mem_cons_self x hx
            · exact ih (List.mem_cons_of_mem _ h) x hx

theorem eq_false_of_mem_wordsBy {p : α → Bool} {s w : List α} (h : w ∈ wordsBy p s) :
    ∀ x ∈ w, p x = false :=
  eq_false_of_mem_splitOnP (List.mem_of_mem_filter h)

/-! ## §2. Trimming and prefixes. -/

/-- Drop the separators at both ends. -/
def trimBy (p : α → Bool) (s : List α) : List α := (s.dropWhile p).rdropWhile p

theorem mem_of_mem_trimBy {p : α → Bool} {s : List α} {c : α} (h : c ∈ trimBy p s) : c ∈ s :=
  (List.dropWhile_suffix p).mem ((List.rdropWhile_prefix p _).mem h)

/-- Behind something that stays, everything stays. -/
theorem dropWhile_append_of_exists {p : α → Bool} {pre : List α} (h : ∃ x ∈ pre, p x = false)
    (post : List α) : (pre ++ post).dropWhile p = pre.dropWhile p ++ post := by
  obtain ⟨x, hx, hpx⟩ := h
  have hne : ¬ (pre.dropWhile p).isEmpty = true := by
    rw [List.isEmpty_iff, List.dropWhile_eq_nil_iff]
    intro hall
    rw [hall x hx] at hpx
    exact absurd hpx (by simp)
  rw [List.dropWhile_append, if_neg hne]

/-- In front of a separator that stays, something else does. -/
theorem exists_of_dropWhile_eq {p : α → Bool} {c : α} (hc : p c = true) {s front rest : List α}
    (h : s.dropWhile p = front ++ c :: rest) : ∃ x ∈ front, p x = false := by
  have hhead := List.head?_dropWhile_not p s
  rw [h] at hhead
  cases front with
  | nil => exact absurd (hc.symm.trans hhead) (by simp)
  | cons x front => exact ⟨x, List.mem_cons_self, hhead⟩

/-- **A separator survives the trimming** exactly where something else stands on either side. -/
theorem sep_mem_trimBy_iff {p : α → Bool} {c : α} (hc : p c = true) {s : List α} :
    c ∈ trimBy p s ↔ ∃ pre post, s = pre ++ c :: post
      ∧ (∃ x ∈ pre, p x = false) ∧ ∃ x ∈ post, p x = false := by
  unfold trimBy List.rdropWhile
  rw [List.mem_reverse]
  constructor
  · intro h
    -- cut the trimmed text at the separator, and look at what stands at its two ends
    obtain ⟨a, b, hab⟩ := List.append_of_mem h
    obtain ⟨t, hdrop⟩ : ∃ t, s.dropWhile p = b.reverse ++ c :: (a.reverse ++ t) := by
      have hrev : (s.dropWhile p).reverse
          = (s.dropWhile p).reverse.takeWhile p ++ (a ++ c :: b) := by
        rw [← hab, List.takeWhile_append_dropWhile]
      refine ⟨((s.dropWhile p).reverse.takeWhile p).reverse, ?_⟩
      simpa using congrArg List.reverse hrev
    have hs : s = s.takeWhile p ++ s.dropWhile p := List.takeWhile_append_dropWhile.symm
    obtain ⟨x, hx, hpx⟩ := exists_of_dropWhile_eq hc hdrop
    obtain ⟨y, hy, hpy⟩ := exists_of_dropWhile_eq hc hab
    refine ⟨s.takeWhile p ++ b.reverse, a.reverse ++ t, ?_, ⟨x, List.mem_append_right _ hx, hpx⟩,
      ⟨y, List.mem_append_left _ (List.mem_reverse.mpr hy), hpy⟩⟩
    rw [List.append_assoc, ← hdrop]
    exact hs
  · rintro ⟨pre, post, rfl, hpre, x, hx, hpx⟩
    have hpost : ∃ y ∈ post.reverse, p y = false := ⟨x, List.mem_reverse.mpr hx, hpx⟩
    rw [dropWhile_append_of_exists hpre, List.reverse_append, List.reverse_cons, List.append_assoc,
      dropWhile_append_of_exists hpost]
    simp

theorem trimBy_eq_self {p : α → Bool} {s : List α}
    (hhead : ∀ c ∈ s.head?, p c = false) (hlast : ∀ c ∈ s.getLast?, p c = false) :
    trimBy p s = s := by
  have hd : s.dropWhile p = s := by
    cases s with
    | nil => rfl
    | cons c s => simp [hhead c (by simp)]
  unfold trimBy
  rw [hd, List.rdropWhile_eq_self_iff]
  intro hne
  rw [hlast _ (List.getLast?_eq_some_getLast hne)]
  exact Bool.false_ne_true

/-- What is left is a stretch of the text. -/
theorem trimBy_sublist (p : α → Bool) (s : List α) : (trimBy p s).Sublist s :=
  (List.rdropWhile_prefix p _).sublist.trans (List.dropWhile_suffix p).sublist

/-- It begins and ends with something that is no separator. -/
theorem trimBy_ends (p : α → Bool) (s : List α) :
    (∀ c ∈ (trimBy p s).head?, p c = false) ∧ ∀ c ∈ (trimBy p s).getLast?, p c = false := by
  constructor
  · intro c hc
    -- the front is the front of what the first pass left
    obtain ⟨rest, hrest⟩ := List.head?_eq_some_iff.mp (Option.mem_def.mp hc)
    obtain ⟨cut, hcut⟩ := List.rdropWhile_prefix p (s.dropWhile p)
    have hhead := List.head?_dropWhile_not p s
    rw [← hcut, show List.rdropWhile p (s.dropWhile p) = c :: rest from hrest] at hhead
    exact hhead
  · intro c hc
    have hne : List.rdropWhile p (s.dropWhile p) ≠ [] := by
      intro hnil
      unfold trimBy at hc
      rw [hnil] at hc
      exact absurd hc (by simp)
    have hlast := List.rdropWhile_last_not p _ hne
    have hc' : (List.rdropWhile p (s.dropWhile p)).getLast hne = c := by
      have hsome := List.getLast?_eq_some_getLast hne
      rw [show (List.rdropWhile p (s.dropWhile p)).getLast? = some c from hc] at hsome
      exact (Option.some.inj hsome).symm
    rw [hc', Bool.not_eq_true] at hlast
    exact hlast

/-- Separators at the end are trimmed away, however many there are. -/
theorem trimBy_append_of_all {p : α → Bool} {ws : List α} (h : ∀ c ∈ ws, p c = true)
    (s : List α) : trimBy p (s ++ ws) = trimBy p s := by
  have hrev : ∀ c ∈ ws.reverse, p c = true := fun c hc => h c (List.mem_reverse.mp hc)
  unfold trimBy
  by_cases hs : ∃ x ∈ s, p x = false
  · rw [dropWhile_append_of_exists hs]
    unfold List.rdropWhile
    rw [List.reverse_append, List.dropWhile_append_of_pos hrev]
  · have hall : ∀ c ∈ s, p c = true := by
      intro c hc
      cases hpc : p c with
      | true => rfl
      | false => exact absurd ⟨c, hc, hpc⟩ hs
    have hall' : ∀ c ∈ s ++ ws, p c = true := by
      intro c hc
      cases List.mem_append.mp hc with
      | inl hm => exact hall c hm
      | inr hm => exact h c hm
    rw [List.dropWhile_eq_nil_iff.mpr hall, List.dropWhile_eq_nil_iff.mpr hall']

/-- Separators in front of a text add no word. -/
theorem wordsBy_sep_append {p : α → Bool} {ws : List α} (h : ∀ c ∈ ws, p c = true) (s : List α) :
    wordsBy p (ws ++ s) = wordsBy p s := by
  induction ws with
  | nil => rfl
  | cons c ws ih =>
      have hc : p c = true := h c List.mem_cons_self
      have hrest := ih (fun x hx => h x (List.mem_cons_of_mem _ hx))
      have hcut := wordsBy_append_sep hc [] (ws ++ s)
      rw [wordsBy_nil, List.nil_append, List.nil_append, hrest] at hcut
      exact hcut

/-- Nor do separators behind it. -/
theorem wordsBy_append_seps {p : α → Bool} {ws : List α} (h : ∀ c ∈ ws, p c = true) (s : List α) :
    wordsBy p (s ++ ws) = wordsBy p s := by
  cases ws with
  | nil => rw [List.append_nil]
  | cons c ws =>
      have hrest := wordsBy_sep_append (fun x hx => h x (List.mem_cons_of_mem _ hx)) []
      rw [List.append_nil, wordsBy_nil] at hrest
      rw [wordsBy_append_sep (h c List.mem_cons_self), hrest, List.append_nil]

/-- **Trimming keeps the words.** -/
theorem wordsBy_trimBy (p : α → Bool) (s : List α) : wordsBy p (trimBy p s) = wordsBy p s := by
  have hback : ∀ t : List α, wordsBy p (t.rdropWhile p) = wordsBy p t := by
    intro t
    have hends : t = t.rdropWhile p ++ (t.reverse.takeWhile p).reverse := by
      unfold List.rdropWhile
      rw [← List.reverse_append, List.takeWhile_append_dropWhile, List.reverse_reverse]
    have hall : ∀ c ∈ (t.reverse.takeWhile p).reverse, p c = true :=
      fun c hc => List.mem_takeWhile_imp (List.mem_reverse.mp hc)
    conv_rhs => rw [hends]
    rw [wordsBy_append_seps hall]
  have hfront : ∀ c ∈ s.takeWhile p, p c = true := fun c hc => List.mem_takeWhile_imp hc
  unfold trimBy
  rw [hback]
  conv_rhs => rw [← List.takeWhile_append_dropWhile (p := p) (l := s)]
  rw [wordsBy_sep_append hfront]

/-- Text is cut at its first separator in one way. -/
theorem append_sep_injective {sep : α} : ∀ {l l' r r' : List α}, sep ∉ l → sep ∉ l' →
    l ++ sep :: r = l' ++ sep :: r' → l = l' ∧ r = r'
  | [], [], _, _, _, _, h => ⟨rfl, (List.cons.inj h).2⟩
  | [], a :: l', _, _, _, hl', h =>
      absurd ((List.cons.inj h).1 ▸ List.mem_cons_self) hl'
  | a :: l, [], _, _, hl, _, h =>
      absurd ((List.cons.inj h).1 ▸ List.mem_cons_self) hl
  | a :: l, b :: l', _, _, hl, hl', h => by
      obtain ⟨hab, htail⟩ := List.cons.inj h
      rw [List.mem_cons, not_or] at hl hl'
      obtain ⟨hll, hrr⟩ := append_sep_injective hl.2 hl'.2 htail
      exact ⟨by rw [hab, hll], hrr⟩

/-- The rest of `s` after the given prefix, when it has it. -/
def stripPrefix [DecidableEq α] : List α → List α → Option (List α)
  | [], s => some s
  | _ :: _, [] => none
  | p :: ps, c :: s => if p = c then stripPrefix ps s else none

theorem stripPrefix_eq_some [DecidableEq α] {pre s r : List α} :
    stripPrefix pre s = some r ↔ s = pre ++ r := by
  induction pre generalizing s with
  | nil => simp [stripPrefix]
  | cons p ps ih =>
      cases s with
      | nil => simp [stripPrefix]
      | cons c s =>
          by_cases h : p = c
          · subst h
            simp [stripPrefix, ih]
          · simp [stripPrefix, h, Ne.symm h]

@[simp] theorem stripPrefix_append [DecidableEq α] (pre r : List α) :
    stripPrefix pre (pre ++ r) = some r :=
  stripPrefix_eq_some.mpr rfl

theorem stripPrefix_eq_none [DecidableEq α] {pre s : List α} :
    stripPrefix pre s = none ↔ ¬ pre <+: s := by
  rw [Option.eq_none_iff_forall_ne_some]
  constructor
  · rintro h ⟨r, hr⟩
    exact h r (stripPrefix_eq_some.mpr hr.symm)
  · intro h r hr
    exact h ⟨r, (stripPrefix_eq_some.mp hr).symm⟩

/-! ## §3. Lines. -/

/-- The character of a valid code. -/
theorem toNat_ofNat {v : Nat} (h : v.isValidChar) : (Char.ofNat v).toNat = v := by
  unfold Char.ofNat
  rw [dif_pos h]
  rfl

/-- The Unicode `White_Space` property (`char::is_whitespace`). -/
def isWhiteSpace (c : Char) : Bool :=
  (0x09 ≤ c.toNat && c.toNat ≤ 0x0D) || c.toNat == 0x20 || c.toNat == 0x85 ||
  c.toNat == 0xA0 || c.toNat == 0x1680 || (0x2000 ≤ c.toNat && c.toNat ≤ 0x200A) ||
  c.toNat == 0x2028 || c.toNat == 0x2029 || c.toNat == 0x202F || c.toNat == 0x205F ||
  c.toNat == 0x3000

theorem isWhiteSpace_space : isWhiteSpace ' ' = true := by decide

theorem isWhiteSpace_of_isDigit {c : Char} (h : c.isDigit = true) : isWhiteSpace c = false := by
  have hrange : 48 ≤ c.toNat ∧ c.toNat ≤ 57 := by
    unfold Char.isDigit at h
    simp only [Bool.and_eq_true, decide_eq_true_eq, ge_iff_le, UInt32.le_iff_toNat_le] at h
    exact h
  unfold isWhiteSpace
  simp
  omega

/-- Drop one carriage return at the end. -/
def dropCr (l : List Char) : List Char :=
  if l.getLast? = some '\r' then l.dropLast else l

/-- `str::lines`: only a line that ends in a newline loses a carriage return, and the
piece after the last newline is a line when it is non-empty. -/
def lines (s : List Char) : List (List Char) :=
  let pieces := s.splitOn '\n'
  pieces.dropLast.map dropCr ++ pieces.getLast?.toList.filter (fun l => !l.isEmpty)

/-- A carriage return at the end of a line is invisible to the words of the line. -/
theorem words_dropCr (l : List Char) :
    wordsBy isWhiteSpace (dropCr l) = wordsBy isWhiteSpace l := by
  unfold dropCr
  split
  next h =>
    obtain ⟨ys, hys⟩ := List.getLast?_eq_some_iff.mp h
    rw [hys, List.dropLast_concat, wordsBy_concat_sep (by decide)]
  next => rfl

theorem splitOn_append_newline (l s : List Char) (h : '\n' ∉ l) :
    (l ++ '\n' :: s).splitOn '\n' = l :: s.splitOn '\n' := by
  have hl : ∀ x ∈ l, (x == '\n') = false := by
    intro x hx
    simp only [beq_eq_false_iff_ne]
    rintro rfl
    exact h hx
  rw [List.splitOn_eq_splitOnP, List.splitOn_eq_splitOnP, List.splitOnP_append_cons l s (by simp),
    List.splitOnP_eq_singleton hl, List.singleton_append]

/-- Lines written one after the other, each closed by a newline, are the pieces of the text, with
an empty piece at the end. -/
theorem splitOn_flatMap_newline {ls : List (List Char)} (h : ∀ l ∈ ls, '\n' ∉ l) :
    (ls.flatMap (fun l => l ++ ['\n'])).splitOn '\n' = ls ++ [[]] := by
  induction ls with
  | nil => rfl
  | cons l ls ih =>
      have htl := ih (fun m hm => h m (List.mem_cons_of_mem _ hm))
      rw [List.flatMap_cons, List.append_assoc, List.singleton_append,
        splitOn_append_newline _ _ (h l List.mem_cons_self), htl, List.cons_append]

/-- **Reading back a table**: lines written one after the other, each closed by a newline,
are read back in order. -/
theorem lines_flatMap_newline (ls : List (List Char)) (h : ∀ l ∈ ls, '\n' ∉ l) :
    lines (ls.flatMap (fun l => l ++ ['\n'])) = ls.map dropCr := by
  simp only [lines, splitOn_flatMap_newline h]
  simp

/-- **The written lines are the pieces of the text** exactly when none has a newline of its own. -/
theorem splitOn_flatMap_newline_iff {ls : List (List Char)} :
    (ls.flatMap (fun l => l ++ ['\n'])).splitOn '\n' = ls ++ [[]] ↔ ∀ l ∈ ls, '\n' ∉ l := by
  constructor
  · intro h l hl
    have hmem : l ∈ ls ++ [[]] := List.mem_append_left _ hl
    rw [← h, List.splitOn_eq_splitOnP] at hmem
    intro hnl
    exact absurd (eq_false_of_mem_splitOnP hmem '\n' hnl) (by simp)
  · exact splitOn_flatMap_newline

/-- A text has one piece more than newlines. -/
theorem length_splitOn_newline (s : List Char) :
    (s.splitOn '\n').length = s.count '\n' + 1 := by
  induction s with
  | nil => rfl
  | cons c s ih =>
      rw [List.splitOn_cons_eq_if_modifyHead]
      by_cases hc : c = '\n'
      · rw [if_pos (by simp [hc]), List.length_cons, ih, hc, List.count_cons_self]
      · rw [if_neg (by simp [hc]), List.length_modifyHead, ih, List.count_cons_of_ne hc]

/-- **Counting the pieces is enough**: with as many as were written, no written line has a newline
of its own. -/
theorem clean_of_length_splitOn {ls : List (List Char)}
    (h : ((ls.flatMap (fun l => l ++ ['\n'])).splitOn '\n').length = ls.length + 1) :
    ∀ l ∈ ls, '\n' ∉ l := by
  have hle : ∀ ls : List (List Char), ls.length ≤ (ls.flatMap (fun l => l ++ ['\n'])).count '\n' := by
    intro ls
    induction ls with
    | nil => exact Nat.le_refl 0
    | cons l ls ih =>
        rw [List.flatMap_cons, List.count_append, List.count_append, List.length_cons,
          show ['\n'].count '\n' = 1 from rfl]
        omega
  rw [length_splitOn_newline, Nat.add_right_cancel_iff] at h
  induction ls with
  | nil =>
      intro l hl
      exact absurd hl List.not_mem_nil
  | cons l ls ih =>
      have hrest := hle ls
      rw [List.flatMap_cons, List.count_append, List.count_append, List.length_cons,
        show ['\n'].count '\n' = 1 from rfl] at h
      rw [List.forall_mem_cons]
      refine ⟨?_, ih (by omega)⟩
      rw [← List.count_eq_zero]
      omega

/-- **A line anywhere in the text is found.**  A non-empty stretch without newlines that begins
the text or follows a newline, and ends the text or precedes one, has its words among the
words of the lines. -/
theorem exists_line_of_stretch {s pre line post : List Char} (hs : s = pre ++ line ++ post)
    (hpre : pre = [] ∨ ∃ pre', pre = pre' ++ ['\n'])
    (hpost : post = [] ∨ ∃ post', post = '\n' :: post')
    (hline : '\n' ∉ line) (hne : line ≠ []) :
    ∃ l ∈ lines s, wordsBy isWhiteSpace l = wordsBy isWhiteSpace line := by
  have hsingle : line.splitOn '\n' = [line] := by
    rw [List.splitOn_eq_splitOnP]
    refine List.splitOnP_eq_singleton (fun x hx => ?_)
    simp only [beq_eq_false_iff_ne]
    rintro rfl
    exact hline hx
  -- the pieces after `line` are empty exactly when `line` ends the text
  have htail : ∃ B, (line ++ post).splitOn '\n' = line :: B := by
    rcases hpost with rfl | ⟨post', rfl⟩
    · exact ⟨[], by rw [List.append_nil, hsingle]⟩
    · exact ⟨_, splitOn_append_newline line post' hline⟩
  obtain ⟨B, hB⟩ := htail
  have hpieces : ∃ A, s.splitOn '\n' = A ++ line :: B := by
    rcases hpre with rfl | ⟨pre', rfl⟩
    · exact ⟨[], by rw [hs, List.nil_append, List.nil_append, hB]⟩
    · refine ⟨pre'.splitOn '\n', ?_⟩
      rw [← hB, hs, List.append_assoc, List.append_assoc, List.singleton_append,
        List.splitOn_eq_splitOnP, List.splitOnP_append_cons _ _ (by simp)]
      simp only [List.splitOn_eq_splitOnP]
  obtain ⟨A, hA⟩ := hpieces
  cases B with
  | nil =>
      refine ⟨line, ?_, rfl⟩
      simp only [lines, hA, List.mem_append]
      right
      simp [hne]
  | cons b B =>
      refine ⟨dropCr line, ?_, words_dropCr line⟩
      simp only [lines, hA, List.mem_append, List.mem_map]
      left
      exact ⟨line, by simp [List.dropLast_append_of_ne_nil], rfl⟩

/-! ## §4. Decimal numbers. -/

/-- `str::parse` for an unsigned integer of the given width: an optional plus sign, at least one
ASCII digit, nothing else, and a value that fits. -/
def parseUnsigned (bits : Nat) (s : List Char) : Option Nat :=
  let digits := (stripPrefix ['+'] s).getD s
  if digits ≠ [] ∧ (digits.all Char.isDigit) = true ∧ Nat.ofDigitChars 10 digits 0 < 2 ^ bits then
    some (Nat.ofDigitChars 10 digits 0)
  else none

theorem parseUnsigned_lt {bits n : Nat} {s : List Char} (h : parseUnsigned bits s = some n) :
    n < 2 ^ bits := by
  unfold parseUnsigned at h
  simp only [Option.ite_none_right_eq_some, Option.some.injEq] at h
  obtain ⟨⟨-, -, hlt⟩, rfl⟩ := h
  exact hlt

theorem toDigits_isDigit (n : Nat) : (Nat.toDigits 10 n).all Char.isDigit = true := by
  rw [List.all_eq_true]
  intro c hc
  exact Nat.isDigit_of_mem_toDigits (by decide) (by decide) hc

/-- Numbers are told apart by their decimal spelling. -/
theorem toDigits_injective {n m : Nat} (h : Nat.toDigits 10 n = Nat.toDigits 10 m) : n = m := by
  rw [← Nat.ofDigitChars_ten_toDigits (n := n), h, Nat.ofDigitChars_ten_toDigits]

/-- So are numbered names of one stem. -/
theorem append_repr_injective (stem : String) {n m : Nat}
    (h : stem ++ Nat.repr n = stem ++ Nat.repr m) : n = m := by
  have htail := congrArg String.toList h
  rw [String.toList_append, String.toList_append, List.append_cancel_left_eq] at htail
  apply toDigits_injective
  unfold Nat.repr at htail
  rw [String.toList_ofList, String.toList_ofList] at htail
  exact htail

/-- The decimal spelling of a number that fits is parsed to that number. -/
theorem parseUnsigned_toDigits {bits n : Nat} (h : n < 2 ^ bits) :
    parseUnsigned bits (Nat.toDigits 10 n) = some n := by
  have hplus : stripPrefix ['+'] (Nat.toDigits 10 n) = none := by
    rw [stripPrefix_eq_none]
    rintro ⟨r, hr⟩
    have hd : ('+').isDigit = true :=
      Nat.isDigit_of_mem_toDigits (b := 10) (n := n) (by decide) (by decide)
        (hr ▸ List.mem_append_left _ (List.mem_singleton.mpr rfl))
    exact absurd hd (by decide)
  simp only [parseUnsigned, hplus, Option.getD_none, Nat.ofDigitChars_ten_toDigits,
    toDigits_isDigit]
  rw [if_pos ⟨Nat.toDigits_ne_nil, trivial, h⟩]

end LivediskForensic.Lib
