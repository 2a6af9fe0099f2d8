/-
  LivediskForensic.Windows.NameNewline — WHEN A GPT PARTITION NAME HAS A LINE
  FEED.

  The name is 36 UTF-16 units as they stand on the disk, cut at the first NUL
  and trimmed.  Trimming removes a line feed at either end; one between two
  visible units stays (`newline_mem_utf16Name_iff`), and becomes part of the
  label of the partition (`newline_mem_partitions_iff`).
-/
import LivediskForensic.Windows.Enumerate

namespace LivediskForensic.DriveLayout

open LivediskForensic.Lib

/-! ## §1. The units of a name. -/

/-- The units of a name field, up to the first NUL. -/
def nameUnits (b : List UInt8) : List UInt16 := (unitsLe b).takeWhile (fun u => u ≠ 0)

/-- A unit that is white space; a surrogate is none. -/
def IsSpaceUnit (u : UInt16) : Prop := isWhiteSpace (decodeUnit u) = true

/-- A line feed with a visible unit on either side. -/
def LineFeedInside (units : List UInt16) : Prop :=
  ∃ pre post, units = pre ++ 10 :: post
    ∧ (∃ u ∈ pre, ¬ IsSpaceUnit u) ∧ ∃ u ∈ post, ¬ IsSpaceUnit u

/-- A pair of surrogates is a character beyond the basic plane. -/
theorem le_toNat_decodePair {v w : UInt16} (hv : isHighSurrogate v = true)
    (hw : isLowSurrogate w = true) : 0x10000 ≤ (decodePair v w).toNat := by
  unfold isHighSurrogate at hv
  unfold isLowSurrogate at hw
  rw [Bool.and_eq_true, decide_eq_true_eq, decide_eq_true_eq] at hv hw
  unfold decodePair
  rw [toNat_ofNat (Or.inr (by omega))]
  omega

theorem isWhiteSpace_of_large {c : Char} (h : 0x10000 ≤ c.toNat) : isWhiteSpace c = false := by
  unfold isWhiteSpace
  simp only [Bool.or_eq_false_iff, Bool.and_eq_false_iff, decide_eq_false_iff_not,
    beq_eq_false_iff_ne]
  omega

/-- Only the unit 10 is a line feed. -/
theorem eq_of_decodeUnit_newline {v : UInt16} (h : decodeUnit v = '\n') : v = 10 := by
  have hv := v.toNat_lt
  unfold decodeUnit at h
  by_cases hs : (isHighSurrogate v || isLowSurrogate v) = true
  · rw [if_pos hs] at h
    exact absurd h (by decide)
  · rw [if_neg hs] at h
    unfold isHighSurrogate isLowSurrogate at hs
    simp only [Bool.or_eq_true, Bool.and_eq_true, decide_eq_true_eq, not_or] at hs
    have hnat := congrArg Char.toNat h
    rw [toNat_ofNat (by unfold Nat.isValidChar; omega)] at hnat
    exact UInt16.toNat_inj.mp hnat

/-- **When a decoded name has a line feed.** -/
theorem newline_mem_utf16Name_iff (b : List UInt8) :
    '\n' ∈ (utf16Name b).toList ↔ LineFeedInside (nameUnits b) := by
  have hhigh : isHighSurrogate 10 = false := by decide
  have hlow : isLowSurrogate 10 = false := by decide
  have hunit : decodeUnit 10 = '\n' := by decide
  have hpair : ∀ v w, isHighSurrogate v = true → isLowSurrogate w = true →
      isWhiteSpace (decodePair v w) = false :=
    fun v w hv hw => isWhiteSpace_of_large (le_toNat_decodePair hv hw)
  have hne : ∀ v w, isHighSurrogate v = true → isLowSurrogate w = true → decodePair v w ≠ '\n' := by
    intro v w hv hw h
    have hspace := hpair v w hv hw
    rw [h] at hspace
    exact absurd hspace (by decide)
  have hvisible : ∀ us : List UInt16, (∃ c ∈ decodeUtf16Lossy us, isWhiteSpace c = false)
      ↔ ∃ u ∈ us, ¬ IsSpaceUnit u := by
    intro us
    rw [exists_decode_iff (p := fun c => isWhiteSpace c = false) (by decide) hpair]
    unfold IsSpaceUnit
    simp only [Bool.not_eq_true]
  unfold utf16Name
  rw [String.toList_ofList, sep_mem_trimBy_iff (by decide)]
  show (∃ pre post, decodeUtf16Lossy (nameUnits b) = _ ∧ _) ↔ _
  unfold LineFeedInside
  constructor
  · rintro ⟨a, c, h, ha, hc⟩
    obtain ⟨pre, post, hus, rfl, rfl⟩ :=
      exists_of_decode_eq_append (fun v => eq_of_decodeUnit_newline) hne _ a h
    exact ⟨pre, post, hus, (hvisible pre).mp ha, (hvisible post).mp hc⟩
  · rintro ⟨pre, post, hus, hpre, hpost⟩
    refine ⟨decodeUtf16Lossy pre, decodeUtf16Lossy post, ?_, (hvisible pre).mpr hpre,
      (hvisible post).mpr hpost⟩
    rw [hus, decodeUtf16Lossy_append_unit hhigh hlow, hunit]

/-! ## §2. The name and the type of an entry. -/

/-- The entry is in use, in a GPT, and its name has a line feed. -/
def EntryForges (api : ReadApi) (style : UInt32) (entry : List UInt8) : Prop :=
  EntryInUse api style entry ∧ style = STYLE_GPT ∧ LineFeedInside (nameUnits (slice entry 72 72))

/-- Some announced entry that lies inside the buffer does. -/
def TableForges (api : ReadApi) (buf : List UInt8) : Prop :=
  8 ≤ buf.length ∧ ∃ i < (api.leU32 buf 4).toNat,
    PARTITION_ENTRY_OFFSET + i * ENTRY_SIZE + ENTRY_SIZE ≤ buf.length
      ∧ EntryForges api (api.leU32 buf 0) (entryAt buf i)

/-- **What an entry is parsed to**: in use, and described. -/
theorem parseEntry_eq_some_iff {api : ReadApi} {style : UInt32} {entry : List UInt8}
    {p : ParsedPartition} :
    parseEntry api style entry = some p
      ↔ EntryInUse api style entry ∧ ∃ d, describe api style entry = some d
        ∧ p = { number := api.leU32 entry 24
                startOffset := nonNegative (i64Le api entry 8)
                length := nonNegative (i64Le api entry 16)
                typeDesc := d.1
                name := d.2 } := by
  have hbody : parseEntry api style entry
      = if nonNegative (i64Le api entry 16) = 0 then none
        else (describe api style entry).map (fun d =>
          ⟨api.leU32 entry 24, nonNegative (i64Le api entry 8), nonNegative (i64Le api entry 16),
            d.1, d.2⟩) := rfl
  constructor
  · intro h
    have huse : EntryInUse api style entry := by
      by_contra hnot
      rw [parseEntry_eq_none_iff.mpr hnot] at h
      exact absurd h (by simp)
    rw [hbody, if_neg huse.1, Option.map_eq_some_iff] at h
    obtain ⟨d, hd, hp⟩ := h
    exact ⟨huse, d, hd, hp.symm⟩
  · rintro ⟨huse, d, hd, rfl⟩
    rw [hbody, if_neg huse.1, hd]
    rfl

/-- The texts of a description. -/
theorem describe_cases {api : ReadApi} {style : UInt32} {entry : List UInt8}
    {d : Option String × Option String} (h : describe api style entry = some d) :
    (style = STYLE_GPT ∧ d.1 = some (formatGuid api (slice entry 32 16))
        ∧ d.2 = if utf16Name (slice entry 72 72) = "" then none
          else some (utf16Name (slice entry 72 72)))
      ∨ (style ≠ STYLE_GPT ∧ d.2 = none
        ∧ (d.1 = some (formatMbrType (entry.getD 32 0)) ∨ d.1 = none)) := by
  unfold describe at h
  by_cases hgpt : style = STYLE_GPT
  · rw [if_pos hgpt] at h
    have hd := Option.some.inj h
    refine Or.inl ⟨hgpt, ?_, ?_⟩
    · rw [← hd]
    · rw [← hd]
  · rw [if_neg hgpt] at h
    by_cases hmbr : style = STYLE_MBR
    · rw [if_pos hmbr] at h
      by_cases hty : entry.getD 32 0 = 0
      · simp only [hty, if_true] at h
        exact absurd h (by simp)
      · simp only [hty, if_false, Option.some.injEq] at h
        rw [← h]
        exact Or.inr ⟨hgpt, rfl, Or.inl rfl⟩
    · rw [if_neg hmbr] at h
      have hd := Option.some.inj h
      rw [← hd]
      exact Or.inr ⟨hgpt, rfl, Or.inr rfl⟩

/-- The name of a description has a line feed. -/
theorem newline_mem_describe_iff {api : ReadApi} {style : UInt32} {entry : List UInt8}
    {d : Option String × Option String} (h : describe api style entry = some d) :
    (∃ l, d.2 = some l ∧ '\n' ∈ l.toList)
      ↔ style = STYLE_GPT ∧ LineFeedInside (nameUnits (slice entry 72 72)) := by
  rcases describe_cases h with ⟨hgpt, -, hname⟩ | ⟨hgpt, hname, -⟩
  · rw [hname, ← newline_mem_utf16Name_iff, and_iff_right hgpt]
    by_cases hempty : utf16Name (slice entry 72 72) = ""
    · rw [if_pos hempty, hempty]
      simp
    · rw [if_neg hempty]
      simp
  · rw [hname]
    simp [hgpt]

/-- The name of the partition an entry gives has a line feed. -/
theorem newline_mem_name_iff {api : ReadApi} {style : UInt32} {entry : List UInt8} :
    (∃ p, parseEntry api style entry = some p ∧ ∃ l, p.name = some l ∧ '\n' ∈ l.toList)
      ↔ EntryForges api style entry := by
  unfold EntryForges
  constructor
  · rintro ⟨p, hp, hl⟩
    obtain ⟨huse, d, hd, rfl⟩ := parseEntry_eq_some_iff.mp hp
    exact ⟨huse, (newline_mem_describe_iff hd).mp hl⟩
  · rintro ⟨huse, hforges⟩
    obtain ⟨d, hd⟩ := Option.ne_none_iff_exists'.mp
      (fun hnone => huse.2 (describe_eq_none_iff.mp hnone))
    exact ⟨_, parseEntry_eq_some_iff.mpr ⟨huse, d, hd, rfl⟩,
      (newline_mem_describe_iff hd).mpr hforges⟩

/-- **When a parsed layout names a partition with a line feed.** -/
theorem newline_mem_partitions_iff (api : ReadApi) (buf : List UInt8) :
    (∃ p ∈ (parseDriveLayout api buf).partitions, ∃ l, p.name = some l ∧ '\n' ∈ l.toList)
      ↔ TableForges api buf := by
  unfold TableForges
  by_cases h8 : 8 ≤ buf.length
  · rw [partitions_parseDriveLayout api h8]
    constructor
    · rintro ⟨p, hp, hl⟩
      obtain ⟨i, hi, hparse⟩ := List.mem_filterMap.mp hp
      rw [List.mem_range, Nat.lt_min] at hi
      exact ⟨h8, i, hi.1, entry_inside_iff.mpr hi.2, newline_mem_name_iff.mp ⟨p, hparse, hl⟩⟩
    · rintro ⟨-, i, hi, hin, hforges⟩
      obtain ⟨p, hparse, hl⟩ := newline_mem_name_iff.mpr hforges
      refine ⟨p, List.mem_filterMap.mpr ⟨i, ?_, hparse⟩, hl⟩
      exact List.mem_range.mpr (Nat.lt_min.mpr ⟨hi, entry_inside_iff.mp hin⟩)
  · rw [partitions_of_short api (by omega)]
    simp [h8]

/-! ## §3. The type of an entry. -/

theorem newline_not_mem_hexUpper (w : Nat) : ∀ n, '\n' ∉ hexUpper w n := by
  have hdigit : ∀ k < 16, hexDigit k ≠ '\n' := by decide
  induction w with
  | zero =>
      intro n
      exact List.not_mem_nil
  | succ w ih =>
      intro n
      unfold hexUpper
      rw [List.mem_append, List.mem_singleton, not_or]
      exact ⟨ih (n / 16), fun h => hdigit (n % 16) (Nat.mod_lt n (by decide)) h.symm⟩

theorem newline_not_mem_guidText (raw : List UInt8) : '\n' ∉ (guidText raw).toList := by
  have hbytes : ∀ bs : List UInt8, '\n' ∉ hexBytes bs := by
    intro bs h
    obtain ⟨b, -, hb⟩ := List.mem_flatMap.mp h
    exact newline_not_mem_hexUpper 2 b.toNat hb
  have hdash : '\n' ≠ '-' := by decide
  unfold guidText
  rw [String.toList_ofList]
  simp only [List.mem_append, List.mem_cons, hbytes, hdash, or_self, not_false_eq_true]

/-- **A partition type has no line feed**: the program spells it. -/
theorem newline_not_mem_typeDesc {api : ReadApi} (hapi : api.Lawful) {buf : List UInt8}
    {p : ParsedPartition} (hp : p ∈ (parseDriveLayout api buf).partitions) {t : String}
    (ht : p.typeDesc = some t) : '\n' ∉ t.toList := by
  have h8 : 8 ≤ buf.length := by
    by_contra h
    rw [partitions_of_short api (by omega)] at hp
    exact absurd hp List.not_mem_nil
  rw [partitions_parseDriveLayout api h8] at hp
  obtain ⟨i, -, hparse⟩ := List.mem_filterMap.mp hp
  obtain ⟨-, d, hd, rfl⟩ := parseEntry_eq_some_iff.mp hparse
  change d.1 = some t at ht
  rcases describe_cases hd with ⟨-, hty, -⟩ | ⟨-, -, hty | hty⟩
  · rw [hty, Option.some.injEq] at ht
    have hlen : ∀ b : List UInt8, (b.take 16 ++ List.replicate (16 - b.length) 0).length = 16 := by
      intro b
      rw [List.length_append, List.length_take, List.length_replicate]
      omega
    unfold formatGuid at ht
    rw [hapi.encodeUpper_eq _ (hlen _)] at ht
    rw [← ht]
    exact newline_not_mem_guidText _
  · rw [hty, Option.some.injEq] at ht
    rw [← ht]
    unfold formatMbrType
    rw [String.toList_ofList, List.mem_cons, List.mem_cons, not_or, not_or]
    exact ⟨by decide, by decide, newline_not_mem_hexUpper 2 _⟩
  · rw [hty] at ht
    exact absurd ht (by simp)

end LivediskForensic.DriveLayout
