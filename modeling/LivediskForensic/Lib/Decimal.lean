/-
  LivediskForensic.Lib.Decimal
  ─────────────────────────────
  THE TEXT ORDER OF DECIMAL SPELLINGS.

  Texts are compared character by character, so a number is compared with the
  leading digits of a longer one.  Among spellings of one length the order is
  that of the numbers; a longer spelling comes first exactly when its leading
  digits, as a number, are below the shorter one (`toDigits_lt_iff`): "10"
  stands in front of "2".
-/
import LivediskForensic.Lib.Text
import Mathlib.Data.String.Basic

namespace LivediskForensic.Lib

/-! ## §1. Comparing lists. -/

section Lex

variable {α : Type*} [LT α]

/-- What stands beyond the length of the other list does not matter. -/
theorem append_lt_iff_of_length_le (t : List α) : ∀ {l l' : List α}, l'.length ≤ l.length →
    (l ++ t < l' ↔ l < l')
  | _, [], _ => iff_of_false (List.not_lt_nil _) (List.not_lt_nil _)
  | [], _ :: _, h => absurd h (by simp)
  | a :: l, b :: l', h => by
      have ih := append_lt_iff_of_length_le t (l := l) (Nat.le_of_succ_le_succ h)
      rw [List.cons_append, List.cons_lt_cons_iff, List.cons_lt_cons_iff, ih]

theorem append_singleton_lt_iff (irrefl : ∀ a : α, ¬ a < a) {x y : α} :
    ∀ {l l' : List α}, l.length = l'.length →
      (l ++ [x] < l' ++ [y] ↔ l < l' ∨ (l = l' ∧ x < y))
  | [], [], _ => by
      rw [List.nil_append, List.nil_append, List.cons_lt_cons_iff]
      simp
  | a :: l, b :: l', h => by
      have ih := append_singleton_lt_iff irrefl (x := x) (y := y) (Nat.succ.inj h)
      rw [List.cons_append, List.cons_append, List.cons_lt_cons_iff, List.cons_lt_cons_iff, ih,
        List.cons.injEq]
      constructor
      · rintro (hab | ⟨hab, hlt | ⟨heq, hxy⟩⟩)
        · exact Or.inl (Or.inl hab)
        · exact Or.inl (Or.inr ⟨hab, hlt⟩)
        · exact Or.inr ⟨⟨hab, heq⟩, hxy⟩
      · rintro ((hab | ⟨hab, hlt⟩) | ⟨⟨hab, heq⟩, hxy⟩)
        · exact Or.inl hab
        · exact Or.inr ⟨hab, Or.inl hlt⟩
        · exact Or.inr ⟨hab, Or.inr ⟨heq, hxy⟩⟩

/-- A common front does not matter. -/
theorem append_left_lt_iff (irrefl : ∀ a : α, ¬ a < a) {l l' : List α} :
    ∀ stem : List α, (stem ++ l < stem ++ l' ↔ l < l')
  | [] => Iff.rfl
  | a :: stem => by
      have ih : stem ++ l < stem ++ l' ↔ l < l' := append_left_lt_iff irrefl stem
      rw [List.cons_append, List.cons_append, List.cons_lt_cons_iff, ih]
      constructor
      · rintro (haa | ⟨-, hlt⟩)
        · exact absurd haa (irrefl a)
        · exact hlt
      · intro hlt
        exact Or.inr ⟨rfl, hlt⟩

end Lex

/-! ## §2. Spellings. -/

theorem toDigits_snoc {n : Nat} (h : 10 ≤ n) :
    Nat.toDigits 10 n = Nat.toDigits 10 (n / 10) ++ [(n % 10).digitChar] := by
  have hlast := Nat.toDigits_append_toDigits (b := 10) (n := n / 10) (d := n % 10) (by decide)
    (by omega) (Nat.mod_lt n (by decide))
  rw [Nat.toDigits_of_lt_base (Nat.mod_lt n (by decide)), Nat.div_add_mod] at hlast
  exact hlast.symm

theorem length_toDigits_of_lt {n : Nat} (h : n < 10) : (Nat.toDigits 10 n).length = 1 := by
  rw [Nat.toDigits_of_lt_base h]
  rfl

theorem length_toDigits_of_le {n : Nat} (h : 10 ≤ n) :
    (Nat.toDigits 10 n).length = (Nat.toDigits 10 (n / 10)).length + 1 := by
  rw [toDigits_snoc h, List.length_append]
  rfl

theorem length_toDigits_pos (n : Nat) : 0 < (Nat.toDigits 10 n).length :=
  List.length_pos_iff.mpr Nat.toDigits_ne_nil

theorem digitChar_lt_iff : ∀ a < 10, ∀ b < 10, (Nat.digitChar a < Nat.digitChar b ↔ a < b) := by
  decide

/-- **Spellings of one length** are in the order of the numbers. -/
theorem toDigits_lt_iff_of_length_eq (n : Nat) : ∀ m : Nat,
    (Nat.toDigits 10 n).length = (Nat.toDigits 10 m).length →
    (Nat.toDigits 10 n < Nat.toDigits 10 m ↔ n < m) := by
  induction n using Nat.strongRecOn with
  | ind n ih =>
      intro m hlen
      by_cases hn : n < 10
      · have hm : m < 10 := by
          by_contra hm
          have hpos := length_toDigits_pos (m / 10)
          rw [length_toDigits_of_lt hn, length_toDigits_of_le (by omega)] at hlen
          omega
        rw [Nat.toDigits_of_lt_base hn, Nat.toDigits_of_lt_base hm, List.cons_lt_cons_iff,
          digitChar_lt_iff n hn m hm]
        simp
      · have hm : 10 ≤ m := by
          by_contra hm
          have hpos := length_toDigits_pos (n / 10)
          rw [length_toDigits_of_le (show 10 ≤ n by omega),
            length_toDigits_of_lt (show m < 10 by omega)] at hlen
          omega
        rw [length_toDigits_of_le (show 10 ≤ n by omega), length_toDigits_of_le hm] at hlen
        have hlen' : (Nat.toDigits 10 (n / 10)).length = (Nat.toDigits 10 (m / 10)).length :=
          Nat.succ.inj hlen
        have hlead := ih (n / 10) (by omega) (m / 10) hlen'
        have hlast := digitChar_lt_iff (n % 10) (Nat.mod_lt n (by decide)) (m % 10)
          (Nat.mod_lt m (by decide))
        have heq : Nat.toDigits 10 (n / 10) = Nat.toDigits 10 (m / 10) ↔ n / 10 = m / 10 :=
          ⟨toDigits_injective, fun h => by rw [h]⟩
        rw [toDigits_snoc (show 10 ≤ n by omega), toDigits_snoc hm,
          append_singleton_lt_iff Char.lt_irrefl hlen', hlead, hlast, heq]
        omega

/-- Numbered names of one stem are in the order of their numbers' spellings. -/
theorem append_repr_lt_iff (stem : String) (n m : Nat) :
    stem ++ Nat.repr n < stem ++ Nat.repr m ↔ Nat.toDigits 10 n < Nat.toDigits 10 m := by
  unfold Nat.repr
  rw [String.lt_iff_toList_lt, String.toList_append, String.toList_append, String.toList_ofList,
    String.toList_ofList]
  exact append_left_lt_iff Char.lt_irrefl stem.toList

/-- **A longer spelling comes first** exactly when its leading digits are below the shorter. -/
theorem toDigits_lt_iff (i j : Nat) :
    (Nat.toDigits 10 i).length ≤ (Nat.toDigits 10 j).length →
    (Nat.toDigits 10 j < Nat.toDigits 10 i
      ↔ j / 10 ^ ((Nat.toDigits 10 j).length - (Nat.toDigits 10 i).length) < i) := by
  induction j using Nat.strongRecOn with
  | ind j ih =>
      intro hle
      rcases Nat.eq_or_lt_of_le hle with heq | hlt
      · rw [toDigits_lt_iff_of_length_eq j i heq.symm, heq, Nat.sub_self, Nat.pow_zero, Nat.div_one]
      -- the last digit of the longer one stands behind the end of the other
      · have hj : 10 ≤ j := by
          by_contra hj
          have hpos := length_toDigits_pos i
          rw [length_toDigits_of_lt (show j < 10 by omega)] at hlt
          omega
        have hlen := length_toDigits_of_le hj
        have hlead := ih (j / 10) (by omega) (by omega)
        have hexp : (Nat.toDigits 10 j).length - (Nat.toDigits 10 i).length
            = (Nat.toDigits 10 (j / 10)).length - (Nat.toDigits 10 i).length + 1 := by omega
        rw [hexp, Nat.pow_succ', ← Nat.div_div_eq_div_mul, ← hlead]
        conv_lhs => rw [toDigits_snoc hj]
        exact append_lt_iff_of_length_le _ (by omega)

end LivediskForensic.Lib
