/-
  LivediskForensic.Lib.Utf8
  ──────────────────────────
  WHERE ASCII BYTES SIT IN A UTF-8 TEXT.

  A byte below 128 in the encoding of a text is a character of its own: it is
  never part of a longer sequence (`eq_of_ascii_mem_encode`).  So a stretch of
  ASCII bytes anywhere in a decodable byte string is a stretch of characters
  of the decoded text, with decodable text on both sides
  (`split_at_ascii_run`).
-/
import Mathlib.Data.List.Basic

namespace LivediskForensic.Lib

/-- The UTF-8 bytes of a text. -/
def utf8Bytes (s : String) : List UInt8 := s.toList.flatMap String.utf8EncodeChar

/-- The character an ASCII byte stands for. -/
def asciiChar (b : UInt8) : Char := Char.ofNat b.toNat

/-! ## §1. Decoding is the inverse of encoding. -/

theorem toByteArray_utf8Bytes (s : String) : (utf8Bytes s).toByteArray = s.toByteArray :=
  String.utf8Encode_toList

/-- Decoding succeeds exactly on the encodings of texts. -/
theorem fromUTF8?_eq_some {bytes : List UInt8} {s : String} :
    String.fromUTF8? bytes.toByteArray = some s ↔ utf8Bytes s = bytes := by
  have hinj : ∀ {l l' : List UInt8}, l.toByteArray = l'.toByteArray → l = l' := by
    intro l l' h
    have hd := congrArg (fun a => a.data.toList) h
    simpa using hd
  constructor
  · intro h
    unfold String.fromUTF8? at h
    split at h
    next hv =>
      injection h with h
      apply hinj
      rw [toByteArray_utf8Bytes, ← h]
      rfl
    next => exact absurd h (by simp)
  · intro h
    have hv : bytes.toByteArray.IsValidUTF8 := by
      rw [← h, toByteArray_utf8Bytes]
      exact s.isValidUTF8
    unfold String.fromUTF8?
    rw [dif_pos hv]
    congr 1
    rw [← String.toByteArray_inj, ← toByteArray_utf8Bytes s, h]
    rfl

/-! ## §2. ASCII bytes. -/

/-- **An ASCII byte is a whole character.** -/
theorem eq_of_ascii_mem_encode {c : Char} {b : UInt8} (hmem : b ∈ String.utf8EncodeChar c)
    (hb : b.toNat < 128) : c = asciiChar b ∧ String.utf8EncodeChar c = [b] := by
  unfold String.utf8EncodeChar at hmem ⊢
  simp only at hmem ⊢
  -- lead and continuation bytes of longer sequences carry their high bit
  have hlead : ∀ m k : Nat, 128 ≤ k → m + k < 256 → b ≠ UInt8.ofNat (m + k) := by
    intro m k hk hlt he
    have := congrArg UInt8.toNat he
    rw [UInt8.toNat_ofNat'] at this
    omega
  split at hmem
  next h1 =>
    rw [if_pos h1]
    rw [List.mem_singleton] at hmem
    refine ⟨?_, by rw [hmem]⟩
    have hval : b.toNat = c.val.toNat := by
      rw [hmem, UInt8.toNat_ofNat']
      omega
    unfold asciiChar
    rw [hval]
    exact (Char.ofNat_toNat c).symm
  next h1 =>
    split at hmem
    · simp only [List.mem_cons, List.not_mem_nil, or_false] at hmem
      rcases hmem with h | h
      all_goals exact absurd h (hlead _ _ (by decide) (by omega))
    · split at hmem
      · simp only [List.mem_cons, List.not_mem_nil, or_false] at hmem
        rcases hmem with h | h | h
        all_goals exact absurd h (hlead _ _ (by decide) (by omega))
      · simp only [List.mem_cons, List.not_mem_nil, or_false] at hmem
        rcases hmem with h | h | h | h
        all_goals exact absurd h (hlead _ _ (by decide) (by omega))

/-- Only the empty text has no bytes. -/
theorem eq_nil_of_encode_eq_nil {cs : List Char} (h : cs.flatMap String.utf8EncodeChar = []) :
    cs = [] := by
  cases cs with
  | nil => rfl
  | cons c cs =>
      rw [List.flatMap_cons] at h
      exact absurd (List.append_eq_nil_iff.mp h).1 String.utf8EncodeChar_ne_nil

/-- Encoded text can be cut at an ASCII byte. -/
theorem split_at_ascii {b : UInt8} (hb : b.toNat < 128) :
    ∀ (cs : List Char) (pre post : List UInt8),
      cs.flatMap String.utf8EncodeChar = pre ++ b :: post →
      ∃ cs₁ cs₂, cs = cs₁ ++ asciiChar b :: cs₂
        ∧ cs₁.flatMap String.utf8EncodeChar = pre
        ∧ cs₂.flatMap String.utf8EncodeChar = post
  | [], pre, post, h => by
      rw [List.flatMap_nil] at h
      exact absurd h.symm (by simp)
  | c :: cs, pre, post, h => by
      rw [List.flatMap_cons] at h
      rcases List.append_eq_append_iff.mp h with ⟨pre', hpre, hrest⟩ | ⟨tail, henc, htail⟩
      · -- the byte lies behind the first character
        obtain ⟨cs₁, cs₂, hcs, h₁, h₂⟩ := split_at_ascii hb cs pre' post hrest
        refine ⟨c :: cs₁, cs₂, by rw [hcs, List.cons_append], ?_, h₂⟩
        rw [List.flatMap_cons, h₁, hpre]
      · cases tail with
        | nil =>
            -- the first character ends right before the byte
            rw [List.append_nil] at henc
            obtain ⟨cs₁, cs₂, hcs, h₁, h₂⟩ := split_at_ascii hb cs [] post htail.symm
            refine ⟨c :: cs₁, cs₂, by rw [hcs, List.cons_append], ?_, h₂⟩
            rw [List.flatMap_cons, h₁, henc, List.append_nil]
        | cons b' tail =>
            -- the byte lies in the first character, so it IS that character
            rw [List.cons_append] at htail
            injection htail with hb' hpost
            subst hb'
            obtain ⟨hc, hone⟩ := eq_of_ascii_mem_encode
              (henc ▸ List.mem_append_right _ List.mem_cons_self) hb
            have hlen := congrArg List.length (hone.symm.trans henc)
            simp only [List.length_append, List.length_cons, List.length_nil] at hlen
            have hpre : pre = [] := List.eq_nil_of_length_eq_zero (by omega)
            have htl : tail = [] := List.eq_nil_of_length_eq_zero (by omega)
            refine ⟨[], cs, by rw [hc, List.nil_append], by rw [hpre, List.flatMap_nil], ?_⟩
            rw [hpost, htl, List.nil_append]

/-- **A stretch of ASCII bytes is a stretch of characters.** -/
theorem split_at_ascii_run :
    ∀ (run : List UInt8) (cs : List Char) (pre post : List UInt8),
      run ≠ [] → (∀ b ∈ run, b.toNat < 128) →
      cs.flatMap String.utf8EncodeChar = pre ++ run ++ post →
      ∃ cs₁ cs₂, cs = cs₁ ++ run.map asciiChar ++ cs₂
        ∧ cs₁.flatMap String.utf8EncodeChar = pre
        ∧ cs₂.flatMap String.utf8EncodeChar = post
  | [], _, _, _, hne, _, _ => absurd rfl hne
  | [b], cs, pre, post, _, hrun, h => by
      rw [List.append_assoc, List.singleton_append] at h
      obtain ⟨cs₁, cs₂, hcs, h₁, h₂⟩ := split_at_ascii (hrun b List.mem_cons_self) cs pre post h
      exact ⟨cs₁, cs₂, by simp [hcs], h₁, h₂⟩
  | b :: b' :: run, cs, pre, post, _, hrun, h => by
      rw [List.append_assoc, List.cons_append] at h
      obtain ⟨cs₁, cs₂, hcs, h₁, h₂⟩ := split_at_ascii (hrun b List.mem_cons_self) cs pre _ h
      obtain ⟨ds₁, ds₂, hds, g₁, g₂⟩ := split_at_ascii_run (b' :: run) cs₂ [] post (by simp)
        (fun x hx => hrun x (List.mem_cons_of_mem _ hx)) h₂
      have hnil : ds₁ = [] := eq_nil_of_encode_eq_nil g₁
      refine ⟨cs₁, ds₂, ?_, h₁, g₂⟩
      rw [hcs, hds, hnil]
      simp

/-- The first byte of an encoding that starts with an ASCII byte is its first character. -/
theorem split_at_ascii_head {b : UInt8} (hb : b.toNat < 128) {cs : List Char}
    {post : List UInt8} (h : cs.flatMap String.utf8EncodeChar = b :: post) :
    ∃ cs₂, cs = asciiChar b :: cs₂ := by
  obtain ⟨cs₁, cs₂, hcs, h₁, _⟩ := split_at_ascii hb cs [] post h
  rw [eq_nil_of_encode_eq_nil h₁, List.nil_append] at hcs
  exact ⟨cs₂, hcs⟩

/-- The last byte of an encoding that ends in an ASCII byte is its last character. -/
theorem split_at_ascii_last {b : UInt8} (hb : b.toNat < 128) {cs : List Char}
    {pre : List UInt8} (h : cs.flatMap String.utf8EncodeChar = pre ++ [b]) :
    ∃ cs₁, cs = cs₁ ++ [asciiChar b] := by
  obtain ⟨cs₁, cs₂, hcs, _, h₂⟩ := split_at_ascii hb cs pre [] h
  rw [eq_nil_of_encode_eq_nil h₂] at hcs
  exact ⟨cs₁, hcs⟩

end LivediskForensic.Lib
