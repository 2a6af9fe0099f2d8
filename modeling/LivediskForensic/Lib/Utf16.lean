/-
  LivediskForensic.Lib.Utf16
  ───────────────────────────
  UTF-16: the encoding of a text as 16-bit units, the LOSSY decoder (an
  unpaired surrogate becomes U+FFFD), and the round trip
  `decodeUtf16Lossy_encodeUtf16` — on well-formed input nothing is lost.
-/
import Mathlib.Data.List.Basic

namespace LivediskForensic.Lib

/-! ## §1. Encoder and decoder. -/

/-- One unit below U+10000, a surrogate pair above. -/
def encodeUtf16Char (c : Char) : List UInt16 :=
  if c.toNat < 0x10000 then [UInt16.ofNat c.toNat]
  else
    [UInt16.ofNat (0xD800 + (c.toNat - 0x10000) / 0x400),
     UInt16.ofNat (0xDC00 + (c.toNat - 0x10000) % 0x400)]

def encodeUtf16 (s : List Char) : List UInt16 := s.flatMap encodeUtf16Char

/-- A leading (high) surrogate. -/
def isHighSurrogate (u : UInt16) : Bool := 0xD800 ≤ u.toNat && u.toNat < 0xDC00

/-- A trailing (low) surrogate. -/
def isLowSurrogate (u : UInt16) : Bool := 0xDC00 ≤ u.toNat && u.toNat < 0xE000

/-- U+FFFD, the replacement character. -/
def replacementChar : Char := Char.ofNat 0xFFFD

/-- A unit on its own. -/
def decodeUnit (u : UInt16) : Char :=
  if isHighSurrogate u || isLowSurrogate u then replacementChar else Char.ofNat u.toNat

/-- A surrogate pair. -/
def decodePair (u v : UInt16) : Char :=
  Char.ofNat (0x10000 + (u.toNat - 0xD800) * 0x400 + (v.toNat - 0xDC00))

/-- `String::from_utf16_lossy`. -/
def decodeUtf16Lossy : List UInt16 → List Char
  | [] => []
  | [u] => [decodeUnit u]
  | u :: v :: rest =>
      if isHighSurrogate u && isLowSurrogate v then decodePair u v :: decodeUtf16Lossy rest
      else decodeUnit u :: decodeUtf16Lossy (v :: rest)

/-! ## §2. One character. -/

theorem decodeUtf16Lossy_cons_pair {u v : UInt16}
    (h : (isHighSurrogate u && isLowSurrogate v) = true) (rest : List UInt16) :
    decodeUtf16Lossy (u :: v :: rest) = decodePair u v :: decodeUtf16Lossy rest := if_pos h

theorem decodeUtf16Lossy_cons_unpaired {u v : UInt16}
    (h : ¬ (isHighSurrogate u && isLowSurrogate v) = true) (rest : List UInt16) :
    decodeUtf16Lossy (u :: v :: rest) = decodeUnit u :: decodeUtf16Lossy (v :: rest) := if_neg h

theorem decodeUtf16Lossy_cons_unit {u : UInt16} (h : isHighSurrogate u = false)
    (rest : List UInt16) :
    decodeUtf16Lossy (u :: rest) = decodeUnit u :: decodeUtf16Lossy rest := by
  cases rest with
  | nil => rfl
  | cons v rest =>
      apply decodeUtf16Lossy_cons_unpaired
      rw [h, Bool.false_and]
      exact Bool.false_ne_true

/-- A character is a scalar value: no surrogate, and at most U+10FFFF. -/
theorem char_scalar (c : Char) : c.toNat < 0xD800 ∨ (0xDFFF < c.toNat ∧ c.toNat < 0x110000) :=
  c.valid

theorem decodeUtf16Lossy_encodeUtf16Char (c : Char) (rest : List UInt16) :
    decodeUtf16Lossy (encodeUtf16Char c ++ rest) = c :: decodeUtf16Lossy rest := by
  have hsc := char_scalar c
  unfold encodeUtf16Char
  by_cases h : c.toNat < 0x10000
  · have hval : (UInt16.ofNat c.toNat).toNat = c.toNat := by
      rw [UInt16.toNat_ofNat']
      omega
    have hhigh : isHighSurrogate (UInt16.ofNat c.toNat) = false := by
      simp only [isHighSurrogate, hval, Bool.and_eq_false_iff, decide_eq_false_iff_not]
      omega
    have hlow : isLowSurrogate (UInt16.ofNat c.toNat) = false := by
      simp only [isLowSurrogate, hval, Bool.and_eq_false_iff, decide_eq_false_iff_not]
      omega
    rw [if_pos h, List.singleton_append, decodeUtf16Lossy_cons_unit hhigh]
    simp only [decodeUnit, hhigh, hlow, hval, Char.ofNat_toNat, Bool.or_self]
    rfl
  · set m := c.toNat - 0x10000 with hm
    have hlt : m < 0x100000 := by omega
    have hu : (UInt16.ofNat (0xD800 + m / 0x400)).toNat = 0xD800 + m / 0x400 := by
      rw [UInt16.toNat_ofNat']
      omega
    have hv : (UInt16.ofNat (0xDC00 + m % 0x400)).toNat = 0xDC00 + m % 0x400 := by
      rw [UInt16.toNat_ofNat']
      omega
    have hhigh : isHighSurrogate (UInt16.ofNat (0xD800 + m / 0x400)) = true := by
      simp only [isHighSurrogate, hu, Bool.and_eq_true, decide_eq_true_eq]
      omega
    have hlow : isLowSurrogate (UInt16.ofNat (0xDC00 + m % 0x400)) = true := by
      simp only [isLowSurrogate, hv, Bool.and_eq_true, decide_eq_true_eq]
      omega
    have hpair : decodePair (UInt16.ofNat (0xD800 + m / 0x400))
        (UInt16.ofNat (0xDC00 + m % 0x400)) = c := by
      unfold decodePair
      rw [hu, hv, show 0x10000 + (0xD800 + m / 0x400 - 0xD800) * 0x400
        + (0xDC00 + m % 0x400 - 0xDC00) = c.toNat by omega, Char.ofNat_toNat]
    rw [if_neg h, List.cons_append, List.singleton_append,
      decodeUtf16Lossy_cons_pair (Bool.and_eq_true_iff.mpr ⟨hhigh, hlow⟩), hpair]

/-! ## §3. Texts. -/

/-- **The round trip**: well-formed UTF-16 is decoded without loss. -/
theorem decodeUtf16Lossy_encodeUtf16 (s : List Char) :
    decodeUtf16Lossy (encodeUtf16 s) = s := by
  induction s with
  | nil => rfl
  | cons c s ih =>
      show decodeUtf16Lossy (encodeUtf16Char c ++ encodeUtf16 s) = c :: s
      rw [decodeUtf16Lossy_encodeUtf16Char, ih]

/-- A text without NUL is encoded without the unit 0. -/
theorem zero_not_mem_encodeUtf16 {s : List Char} (h : Char.ofNat 0 ∉ s) :
    (0 : UInt16) ∉ encodeUtf16 s := by
  intro hz
  obtain ⟨c, hc, hzc⟩ := List.mem_flatMap.mp hz
  have hsc := char_scalar c
  unfold encodeUtf16Char at hzc
  by_cases hlt : c.toNat < 0x10000
  · rw [if_pos hlt, List.mem_singleton] at hzc
    have hval := congrArg UInt16.toNat hzc
    rw [UInt16.toNat_ofNat'] at hval
    have hzero : c.toNat = 0 := by
      have : (0 : UInt16).toNat = 0 := rfl
      omega
    apply h
    rw [← hzero, Char.ofNat_toNat]
    exact hc
  · rw [if_neg hlt] at hzc
    have h0 : (0 : UInt16).toNat = 0 := rfl
    simp only [List.mem_cons, List.not_mem_nil, or_false] at hzc
    rcases hzc with hz' | hz'
    all_goals
      have hval := congrArg UInt16.toNat hz'
      rw [UInt16.toNat_ofNat'] at hval
      omega

/-! ## §4. Arbitrary units. -/

/-- A unit that is no surrogate cuts the text in two. -/
theorem decodeUtf16Lossy_append_unit {u : UInt16} (hhigh : isHighSurrogate u = false)
    (hlow : isLowSurrogate u = false) (post pre : List UInt16) :
    decodeUtf16Lossy (pre ++ u :: post)
      = decodeUtf16Lossy pre ++ decodeUnit u :: decodeUtf16Lossy post := by
  induction pre using decodeUtf16Lossy.induct with
  | case1 => exact decodeUtf16Lossy_cons_unit hhigh post
  | case2 v =>
      have hpair : ¬ (isHighSurrogate v && isLowSurrogate u) = true := by
        rw [hlow, Bool.and_false]
        exact Bool.false_ne_true
      show decodeUtf16Lossy (v :: u :: post) = _
      rw [decodeUtf16Lossy_cons_unpaired hpair, decodeUtf16Lossy_cons_unit hhigh]
      rfl
  | case3 v w pre hpair ih =>
      show decodeUtf16Lossy (v :: w :: (pre ++ u :: post)) = _
      rw [decodeUtf16Lossy_cons_pair hpair, decodeUtf16Lossy_cons_pair hpair, ih, List.cons_append]
  | case4 v w pre hpair ih =>
      show decodeUtf16Lossy (v :: w :: (pre ++ u :: post)) = _
      rw [decodeUtf16Lossy_cons_unpaired hpair, decodeUtf16Lossy_cons_unpaired hpair]
      show decodeUnit v :: decodeUtf16Lossy (w :: pre ++ u :: post) = _
      rw [ih, List.cons_append]

/-- A front of the units, decoded, is a front of the text where the pairs are the same. -/
theorem decodeUtf16Lossy_cons_front {v w : UInt16} {us pre rest : List UInt16}
    (hpair : ¬ (isHighSurrogate v && isLowSurrogate w) = true) (h : w :: us = pre ++ rest) :
    decodeUtf16Lossy (v :: pre) = decodeUnit v :: decodeUtf16Lossy pre := by
  cases pre with
  | nil => rfl
  | cons w' pre =>
      injection h with hw _
      rw [← hw]
      exact decodeUtf16Lossy_cons_unpaired hpair pre

/-- **A character that only a unit of its own gives** is found between two decoded parts. -/
theorem exists_of_decode_eq_append {c : Char} {u : UInt16} (hunit : ∀ v, decodeUnit v = c → v = u)
    (hpair : ∀ v w, isHighSurrogate v = true → isLowSurrogate w = true → decodePair v w ≠ c)
    {b : List Char} (us : List UInt16) : ∀ a : List Char, decodeUtf16Lossy us = a ++ c :: b →
    ∃ pre post, us = pre ++ u :: post ∧ decodeUtf16Lossy pre = a ∧ decodeUtf16Lossy post = b := by
  induction us using decodeUtf16Lossy.induct with
  | case1 =>
      intro a h
      exact absurd h.symm (by simp [decodeUtf16Lossy])
  | case2 v =>
      intro a h
      cases a with
      | nil =>
          injection h with hhead htail
          exact ⟨[], [], by rw [hunit v hhead]; rfl, rfl, htail⟩
      | cons x a =>
          injection h with hhead htail
          exact absurd htail.symm (by simp)
  | case3 v w us hp ih =>
      intro a h
      rw [decodeUtf16Lossy_cons_pair hp] at h
      cases a with
      | nil =>
          injection h with hhead
          rw [Bool.and_eq_true] at hp
          exact absurd hhead (hpair v w hp.1 hp.2)
      | cons x a =>
          injection h with hhead htail
          obtain ⟨pre, post, hus, hpre, hpost⟩ := ih a htail
          refine ⟨v :: w :: pre, post, by rw [hus]; rfl, ?_, hpost⟩
          rw [decodeUtf16Lossy_cons_pair hp, hpre, hhead]
  | case4 v w us hp ih =>
      intro a h
      rw [decodeUtf16Lossy_cons_unpaired hp] at h
      cases a with
      | nil =>
          injection h with hhead htail
          exact ⟨[], w :: us, by rw [hunit v hhead]; rfl, rfl, htail⟩
      | cons x a =>
          injection h with hhead htail
          obtain ⟨pre, post, hus, hpre, hpost⟩ := ih a htail
          refine ⟨v :: pre, post, by rw [hus]; rfl, ?_, hpost⟩
          -- what follows `v` in the first part is still no partner of it
          rw [decodeUtf16Lossy_cons_front hp hus, hpre, hhead]

/-- Whether some character satisfies `p` can be told unit by unit, when surrogates, paired or not,
satisfy it. -/
theorem exists_decode_iff {p : Char → Prop} (hrep : p replacementChar)
    (hpair : ∀ v w, isHighSurrogate v = true → isLowSurrogate w = true → p (decodePair v w))
    (us : List UInt16) : (∃ c ∈ decodeUtf16Lossy us, p c) ↔ ∃ u ∈ us, p (decodeUnit u) := by
  induction us using decodeUtf16Lossy.induct with
  | case1 => simp [decodeUtf16Lossy]
  | case2 v => simp [decodeUtf16Lossy]
  | case3 v w us hp _ =>
      rw [decodeUtf16Lossy_cons_pair hp]
      rw [Bool.and_eq_true] at hp
      have hv : decodeUnit v = replacementChar := by
        unfold decodeUnit
        rw [hp.1, Bool.true_or, if_pos rfl]
      constructor
      · intro _
        exact ⟨v, List.mem_cons_self, hv ▸ hrep⟩
      · intro _
        exact ⟨_, List.mem_cons_self, hpair v w hp.1 hp.2⟩
  | case4 v w us hp ih =>
      rw [decodeUtf16Lossy_cons_unpaired hp, List.exists_mem_cons_iff, List.exists_mem_cons_iff, ih]

end LivediskForensic.Lib
