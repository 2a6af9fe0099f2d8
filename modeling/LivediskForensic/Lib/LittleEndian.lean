/-
  LivediskForensic.Lib.LittleEndian
  ──────────────────────────────────
  Fixed-width LITTLE-ENDIAN fields in a byte list, and the two facts a reader
  of a binary format composes: a field reads back what was written
  (`leValue_leBytes`), and a field in the middle of a record is found at its
  offset (`slice_append`).  A number's hexadecimal spelling is the spelling of
  its bytes, most significant first (`hexUpper_leBytes`), and every text of
  digits is one (`exists_hexUpper`).
-/
import Mathlib.Algebra.Ring.Nat
import Mathlib.Data.List.Basic

namespace LivediskForensic.Lib

/-! ## §1. Fields. -/

/-- The low `w` bytes of `n`, least significant first. -/
def leBytes (w n : Nat) : List UInt8 :=
  match w with
  | 0 => []
  | w + 1 => UInt8.ofNat n :: leBytes w (n / 256)

/-- The number a little-endian byte list spells. -/
def leValue : List UInt8 → Nat
  | [] => 0
  | b :: bs => b.toNat + 256 * leValue bs

@[simp] theorem length_leBytes (w : Nat) : ∀ n : Nat, (leBytes w n).length = w := by
  induction w with
  | zero =>
      intro n
      rfl
  | succ w ih =>
      intro n
      unfold leBytes
      rw [List.length_cons, ih]

/-- **A field reads back what was written**, when it fits. -/
theorem leValue_leBytes (w : Nat) : ∀ n : Nat, n < 256 ^ w → leValue (leBytes w n) = n := by
  induction w with
  | zero =>
      intro n h
      show 0 = n
      rw [Nat.pow_zero] at h
      omega
  | succ w ih =>
      intro n h
      rw [Nat.pow_succ] at h
      have hdiv : n / 256 < 256 ^ w := by omega
      show (UInt8.ofNat n).toNat + 256 * leValue (leBytes w (n / 256)) = n
      rw [ih (n / 256) hdiv, UInt8.toNat_ofNat']
      omega

/-! ## §2. Slices. -/

/-- The `len` elements from position `o` on. -/
def slice {α : Type*} (l : List α) (o len : Nat) : List α := (l.drop o).take len

/-- A slice inside the list is as long as asked for. -/
theorem length_slice {α : Type*} {l : List α} {o len : Nat} (h : o + len ≤ l.length) :
    (slice l o len).length = len := by
  unfold slice
  rw [List.length_take, List.length_drop]
  omega

/-- A slice inside the front part does not see what follows. -/
theorem slice_append_left {α : Type*} {b s : List α} {o len : Nat} (h : o + len ≤ b.length) :
    slice (b ++ s) o len = slice b o len := by
  unfold slice
  rw [List.drop_append_of_le_length (by omega),
    List.take_append_of_le_length (by rw [List.length_drop]; omega)]

/-- **A part is found at its offset.** -/
theorem slice_append {α : Type*} {pre mid post : List α} {o len : Nat} (ho : pre.length = o)
    (hlen : mid.length = len) : slice (pre ++ (mid ++ post)) o len = mid := by
  subst ho
  subst hlen
  unfold slice
  rw [List.drop_left, List.take_left]

/-! ## §3. Hexadecimal spelling. -/

/-- An uppercase hexadecimal digit. -/
def hexDigit (k : Nat) : Char := if k < 10 then Char.ofNat (48 + k) else Char.ofNat (55 + k)

/-- The low `w` hexadecimal digits of `n`, most significant first. -/
def hexUpper (w n : Nat) : List Char :=
  match w with
  | 0 => []
  | w + 1 => hexUpper w (n / 16) ++ [hexDigit (n % 16)]

/-- Bytes spelled in the order given, two digits each. -/
def hexBytes (bs : List UInt8) : List Char := bs.flatMap (fun b => hexUpper 2 b.toNat)

/-- The two low digits of a number are those of its low byte. -/
theorem hexUpper_two_toNat (n : Nat) : hexUpper 2 (UInt8.ofNat n).toNat = hexUpper 2 n := by
  show [hexDigit ((UInt8.ofNat n).toNat / 16 % 16), hexDigit ((UInt8.ofNat n).toNat % 16)]
    = [hexDigit (n / 16 % 16), hexDigit (n % 16)]
  rw [UInt8.toNat_ofNat', show n % 2 ^ 8 / 16 % 16 = n / 16 % 16 by omega,
    show n % 2 ^ 8 % 16 = n % 16 by omega]

/-- **A number's spelling is its bytes' spelling**, the little-endian bytes reversed. -/
theorem hexUpper_leBytes (w : Nat) : ∀ n : Nat,
    hexUpper (2 * w) n = hexBytes (leBytes w n).reverse := by
  induction w with
  | zero =>
      intro n
      rfl
  | succ w ih =>
      intro n
      have hstep : hexUpper (2 * (w + 1)) n = hexUpper (2 * w) (n / 256) ++ hexUpper 2 n := by
        show (hexUpper (2 * w) (n / 16 / 16) ++ [hexDigit (n / 16 % 16)]) ++ [hexDigit (n % 16)] = _
        rw [List.append_assoc, Nat.div_div_eq_div_mul]
        rfl
      rw [hstep, ih (n / 256)]
      show _ = hexBytes (UInt8.ofNat n :: leBytes w (n / 256)).reverse
      unfold hexBytes
      rw [List.reverse_cons, List.flatMap_append, List.flatMap_singleton, hexUpper_two_toNat]

/-! ## §4. Which texts are spellings. -/

def isHexUpper (c : Char) : Bool :=
  (48 ≤ c.toNat && c.toNat ≤ 57) || (65 ≤ c.toNat && c.toNat ≤ 70)

/-- `w` uppercase hexadecimal digits. -/
def HexText (w : Nat) (cs : List Char) : Prop := cs.length = w ∧ ∀ c ∈ cs, isHexUpper c = true

theorem isHexUpper_hexDigit {k : Nat} (h : k < 16) : isHexUpper (hexDigit k) = true := by
  have hall : ∀ k < 16, isHexUpper (hexDigit k) = true := by decide
  exact hall k h

/-- Each digit has its value. -/
theorem exists_hexDigit {c : Char} (h : isHexUpper c = true) : ∃ k < 16, hexDigit k = c := by
  unfold isHexUpper at h
  rw [Bool.or_eq_true, Bool.and_eq_true, Bool.and_eq_true] at h
  simp only [decide_eq_true_eq] at h
  unfold hexDigit
  cases h with
  | inl hdigit =>
      refine ⟨c.toNat - 48, by omega, ?_⟩
      rw [if_pos (by omega), show 48 + (c.toNat - 48) = c.toNat by omega, Char.ofNat_toNat]
  | inr hletter =>
      refine ⟨c.toNat - 55, by omega, ?_⟩
      rw [if_neg (by omega), show 55 + (c.toNat - 55) = c.toNat by omega, Char.ofNat_toNat]

theorem hexText_append {v w : Nat} {cs ds : List Char} (hc : HexText v cs) (hd : HexText w ds) :
    HexText (v + w) (cs ++ ds) := by
  refine ⟨by rw [List.length_append, hc.1, hd.1], ?_⟩
  intro c hmem
  cases List.mem_append.mp hmem with
  | inl hleft => exact hc.2 c hleft
  | inr hright => exact hd.2 c hright

theorem hexText_hexUpper (w : Nat) : ∀ n : Nat, HexText w (hexUpper w n) := by
  induction w with
  | zero =>
      intro n
      exact ⟨rfl, fun c hc => absurd hc List.not_mem_nil⟩
  | succ w ih =>
      intro n
      refine hexText_append (ih (n / 16)) ⟨rfl, ?_⟩
      intro c hc
      rw [List.mem_singleton.mp hc]
      exact isHexUpper_hexDigit (Nat.mod_lt n (by decide))

theorem hexText_hexBytes (bs : List UInt8) : HexText (2 * bs.length) (hexBytes bs) := by
  induction bs with
  | nil => exact ⟨rfl, fun c hc => absurd hc List.not_mem_nil⟩
  | cons b bs ih =>
      show HexText (2 * (bs.length + 1)) (hexUpper 2 b.toNat ++ hexBytes bs)
      rw [show 2 * (bs.length + 1) = 2 + 2 * bs.length by omega]
      exact hexText_append (hexText_hexUpper 2 _) ih

/-- **Every text of digits spells a number** of that many digits. -/
theorem exists_hexUpper (w : Nat) : ∀ cs : List Char, HexText w cs →
    ∃ n < 16 ^ w, hexUpper w n = cs := by
  induction w with
  | zero =>
      intro cs h
      refine ⟨0, by omega, ?_⟩
      exact (List.length_eq_zero_iff.mp h.1).symm
  | succ w ih =>
      intro cs h
      have hne : cs ≠ [] := by
        intro hnil
        have hlen := h.1
        rw [hnil] at hlen
        exact absurd hlen (by simp)
      have hsplit := List.dropLast_append_getLast hne
      have hfront : HexText w cs.dropLast := by
        refine ⟨?_, fun c hc => h.2 c (List.dropLast_subset cs hc)⟩
        have hlen := h.1
        rw [List.length_dropLast]
        omega
      obtain ⟨n, hn, hspell⟩ := ih cs.dropLast hfront
      obtain ⟨k, hk, hdigit⟩ := exists_hexDigit (h.2 _ (List.getLast_mem hne))
      refine ⟨16 * n + k, ?_, ?_⟩
      · rw [Nat.pow_succ]
        omega
      · show hexUpper w ((16 * n + k) / 16) ++ [hexDigit ((16 * n + k) % 16)] = cs
        rw [show (16 * n + k) / 16 = n by omega, show (16 * n + k) % 16 = k by omega, hspell, hdigit]
        exact hsplit

/-- And, two digits each, bytes. -/
theorem exists_hexBytes (n : Nat) : ∀ cs : List Char, HexText (2 * n) cs →
    ∃ bs : List UInt8, bs.length = n ∧ hexBytes bs = cs := by
  induction n with
  | zero =>
      intro cs h
      exact ⟨[], rfl, (List.length_eq_zero_iff.mp h.1).symm⟩
  | succ n ih =>
      intro cs h
      have hfront : HexText 2 (cs.take 2) := by
        refine ⟨?_, fun c hc => h.2 c (List.mem_of_mem_take hc)⟩
        rw [List.length_take, h.1]
        omega
      have hrest : HexText (2 * n) (cs.drop 2) := by
        refine ⟨?_, fun c hc => h.2 c (List.mem_of_mem_drop hc)⟩
        rw [List.length_drop, h.1]
        omega
      obtain ⟨b, hb, hspell⟩ := exists_hexUpper 2 _ hfront
      obtain ⟨bs, hlen, hbytes⟩ := ih _ hrest
      refine ⟨UInt8.ofNat b :: bs, by rw [List.length_cons, hlen], ?_⟩
      show hexUpper 2 (UInt8.ofNat b).toNat ++ hexBytes bs = cs
      rw [hexUpper_two_toNat, hspell, hbytes, List.take_append_drop]

end LivediskForensic.Lib
