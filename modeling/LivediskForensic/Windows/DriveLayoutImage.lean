/-
  LivediskForensic.Windows.DriveLayoutImage — WHICH LAYOUTS THE PARSER CAN
  RETURN.

  The buffer comes from a driver and is not trusted, so what `parse_drive_layout`
  makes of it is all that the rest may rely on.  `WellFormed` says what that is:
  positive lengths and offsets below 2^63, a GUID or a type byte by its digits,
  a name that is trimmed, holds no NUL and fits its field.  Nothing more: every
  well-formed layout is read from some buffer of the given length, when its
  partitions have room there.

      parseDriveLayout_image — the image of the parser, for each buffer length
-/
import LivediskForensic.Windows.DriveLayoutEncoding
import LivediskForensic.Windows.NameNewline
import Mathlib.Data.List.Flatten

namespace LivediskForensic.DriveLayout

open LivediskForensic.Lib

/-! ## §1. Decoded units. -/

/-- Only the unit 0 gives NUL. -/
theorem eq_of_decodeUnit_zero {v : UInt16} (h : decodeUnit v = Char.ofNat 0) : v = 0 := by
  have hv := v.toNat_lt
  unfold decodeUnit at h
  by_cases hs : (isHighSurrogate v || isLowSurrogate v) = true
  · rw [if_pos hs] at h
    exact absurd h (by decide)
  · rw [if_neg hs] at h
    unfold isHighSurrogate isLowSurrogate at hs
    simp only [Bool.or_eq_true, Bool.and_eq_true, decide_eq_true_eq, not_or] at hs
    have hvalid : v.toNat.isValidChar := by
      unfold Nat.isValidChar
      omega
    have hnat := congrArg Char.toNat h
    rw [toNat_ofNat hvalid] at hnat
    exact UInt16.toNat_inj.mp hnat

/-- Units without 0 give a text without NUL. -/
theorem zero_not_mem_decodeUtf16Lossy {us : List UInt16} (h : (0 : UInt16) ∉ us) :
    Char.ofNat 0 ∉ decodeUtf16Lossy us := by
  intro hmem
  obtain ⟨a, b, hsplit⟩ := List.append_of_mem hmem
  have hpair : ∀ v w, isHighSurrogate v = true → isLowSurrogate w = true →
      decodePair v w ≠ Char.ofNat 0 := by
    intro v w hv hw heq
    have hlarge := le_toNat_decodePair hv hw
    rw [heq] at hlarge
    exact absurd hlarge (by decide)
  obtain ⟨pre, post, hus, _⟩ :=
    exists_of_decode_eq_append (fun v => eq_of_decodeUnit_zero) hpair us a hsplit
  exact h (hus ▸ by simp)

/-- **The lossy text never takes more units** than it was decoded from. -/
theorem length_encodeUtf16_decode_le (us : List UInt16) :
    (encodeUtf16 (decodeUtf16Lossy us)).length ≤ us.length := by
  have hunit : ∀ v, (encodeUtf16Char (decodeUnit v)).length ≤ 1 := by
    intro v
    have hsmall : (decodeUnit v).toNat < 0x10000 := by
      have hv := v.toNat_lt
      unfold decodeUnit
      by_cases hs : (isHighSurrogate v || isLowSurrogate v) = true
      · rw [if_pos hs]
        decide
      · rw [if_neg hs]
        unfold isHighSurrogate isLowSurrogate at hs
        simp only [Bool.or_eq_true, Bool.and_eq_true, decide_eq_true_eq, not_or] at hs
        have hvalid : v.toNat.isValidChar := by
          unfold Nat.isValidChar
          omega
        rw [toNat_ofNat hvalid]
        omega
    unfold encodeUtf16Char
    rw [if_pos hsmall]
    exact Nat.le_refl 1
  have hchar : ∀ c, (encodeUtf16Char c).length ≤ 2 := by
    intro c
    unfold encodeUtf16Char
    split <;> simp
  have hcons : ∀ (c : Char) (s : List Char),
      (encodeUtf16 (c :: s)).length = (encodeUtf16Char c).length + (encodeUtf16 s).length :=
    fun _ _ => List.length_append
  induction us using decodeUtf16Lossy.induct with
  | case1 => exact Nat.le_refl 0
  | case2 v =>
      show (encodeUtf16 [decodeUnit v]).length ≤ 1
      have hv := hunit v
      rw [hcons]
      show _ + 0 ≤ 1
      omega
  | case3 v w us hp ih =>
      have hvw := hchar (decodePair v w)
      rw [decodeUtf16Lossy_cons_pair hp, hcons, List.length_cons, List.length_cons]
      omega
  | case4 v w us hp ih =>
      have hv := hunit v
      rw [decodeUtf16Lossy_cons_unpaired hp, hcons, List.length_cons]
      omega

/-! ## §2. Well-formed layouts. -/

/-- Five groups of uppercase hexadecimal digits. -/
def CanonicalGuid (text : String) : Prop :=
  ∃ a b c d e : List Char,
    text = String.ofList (a ++ '-' :: (b ++ '-' :: (c ++ '-' :: (d ++ '-' :: e))))
      ∧ HexText 8 a ∧ HexText 4 b ∧ HexText 4 c ∧ HexText 4 d ∧ HexText 12 e

theorem canonicalGuid_text (g : Guid) : CanonicalGuid g.text := by
  have hfront : (g.data4.toList.take 2).length = 2 := by simp
  have hback : (g.data4.toList.drop 2).length = 6 := by simp
  refine ⟨_, _, _, _, _, rfl, hexText_hexUpper 8 _, hexText_hexUpper 4 _, hexText_hexUpper 4 _,
    ?_, ?_⟩
  · have hhex := hexText_hexBytes (g.data4.toList.take 2)
    rwa [hfront] at hhex
  · have hhex := hexText_hexBytes (g.data4.toList.drop 2)
    rwa [hback] at hhex

/-- A name as it can stand in an entry. -/
structure FieldName (name : String) : Prop where
  ne : name ≠ ""
  no_nul : Char.ofNat 0 ∉ name.toList
  no_leading_space : ∀ c ∈ name.toList.head?, isWhiteSpace c = false
  no_trailing_space : ∀ c ∈ name.toList.getLast?, isWhiteSpace c = false
  fits : (encodeUtf16 name.toList).length ≤ 36

/-- The type and name an entry can have, by partition style. -/
def Described (style : UInt32) (typeDesc name : Option String) : Prop :=
  if style = STYLE_GPT then
    (∃ text, typeDesc = some text ∧ CanonicalGuid text) ∧ ∀ n ∈ name, FieldName n
  else if style = STYLE_MBR then
    (∃ ty : UInt8, ty ≠ 0 ∧ typeDesc = some (formatMbrType ty)) ∧ name = none
  else typeDesc = none ∧ name = none

/-- A partition of a layout of that style. -/
structure WellFormedPartition (style : UInt32) (p : ParsedPartition) : Prop where
  length_pos : 0 < p.length.toNat
  length_lt : p.length.toNat < 2 ^ 63
  start_lt : p.startOffset.toNat < 2 ^ 63
  described : Described style p.typeDesc p.name

/-! ## §3. What is returned is well formed. -/

theorem nonNegative_lt (x : Int64) : (nonNegative x).toNat < 2 ^ 63 := by
  have hlt := x.toNatClampNeg_lt
  rw [← Int64.toNat_toInt] at hlt
  rw [nonNegative_eq, UInt64.toNat_ofNat']
  omega

theorem canonicalGuid_guidText {raw : List UInt8} (h : raw.length = 16) :
    CanonicalGuid (guidText raw) := by
  have hslice : ∀ {o len : Nat}, o + len ≤ 16 → (slice raw o len).length = len := by
    intro o len hle
    exact length_slice (by omega)
  have hhex : ∀ {bs : List UInt8} {n : Nat}, bs.length = n → HexText (2 * n) (hexBytes bs) := by
    intro bs n hn
    rw [← hn]
    exact hexText_hexBytes bs
  refine ⟨_, _, _, _, _, rfl, ?_, ?_, ?_, ?_, ?_⟩
  · exact hhex (n := 4) (by rw [List.length_reverse, hslice (by decide)])
  · exact hhex (n := 2) (by rw [List.length_reverse, hslice (by decide)])
  · exact hhex (n := 2) (by rw [List.length_reverse, hslice (by decide)])
  · exact hhex (n := 2) (hslice (by decide))
  · exact hhex (n := 6) (hslice (by decide))

theorem length_unitsLe (b : List UInt8) : (unitsLe b).length = b.length / 2 := by
  induction b using unitsLe.induct with
  | case1 lo hi rest ih =>
      show (unitsLe rest).length + 1 = (rest.length + 2) / 2
      omega
  | case2 b hb =>
      cases b with
      | nil => rfl
      | cons lo b =>
          cases b with
          | nil =>
              show 0 = (0 + 1) / 2
              omega
          | cons hi rest => exact absurd rfl (hb lo hi rest)

theorem fieldName_utf16Name {b : List UInt8} (hlen : b.length = 72) (hne : utf16Name b ≠ "") :
    FieldName (utf16Name b) := by
  have hunits : (nameUnits b).length ≤ 36 := by
    have hle := (List.takeWhile_sublist (l := unitsLe b) (fun u => u ≠ 0)).length_le
    have hpairs := length_unitsLe b
    unfold nameUnits
    omega
  have hzero : (0 : UInt16) ∉ nameUnits b := by
    intro hmem
    have hpos := List.mem_takeWhile_imp hmem
    simp at hpos
  have htext : (utf16Name b).toList = trimBy isWhiteSpace (decodeUtf16Lossy (nameUnits b)) :=
    String.toList_ofList
  have hsub := trimBy_sublist isWhiteSpace (decodeUtf16Lossy (nameUnits b))
  have hends := trimBy_ends isWhiteSpace (decodeUtf16Lossy (nameUnits b))
  refine ⟨hne, ?_, ?_, ?_, ?_⟩
  · rw [htext]
    exact fun hmem => zero_not_mem_decodeUtf16Lossy hzero (hsub.subset hmem)
  · rw [htext]
    exact hends.1
  · rw [htext]
    exact hends.2
  · have hle := (hsub.flatMap encodeUtf16Char).length_le
    have hdecode := length_encodeUtf16_decode_le (nameUnits b)
    rw [htext]
    unfold encodeUtf16 at hdecode ⊢
    omega

theorem described_of_describe {api : ReadApi} (hapi : api.Lawful) {style : UInt32}
    {entry : List UInt8} (hlen : entry.length = ENTRY_SIZE) {d : Option String × Option String}
    (h : describe api style entry = some d) : Described style d.1 d.2 := by
  unfold ENTRY_SIZE at hlen
  unfold describe at h
  unfold Described
  by_cases hgpt : style = STYLE_GPT
  · rw [if_pos hgpt] at h ⊢
    rw [← Option.some.inj h]
    have hraw : (slice entry 32 16).length = 16 := length_slice (by omega)
    have hname : (slice entry 72 72).length = 72 := length_slice (by omega)
    constructor
    · refine ⟨_, rfl, ?_⟩
      unfold formatGuid
      rw [hraw, List.take_of_length_le (by omega)]
      show CanonicalGuid (api.encodeUpper (slice entry 32 16 ++ []))
      rw [List.append_nil, hapi.encodeUpper_eq _ hraw]
      exact canonicalGuid_guidText hraw
    · intro n hn
      by_cases hempty : utf16Name (slice entry 72 72) = ""
      · simp only [hempty, if_true] at hn
        exact absurd hn (by simp)
      · simp only [hempty, if_false, Option.mem_def, Option.some.injEq] at hn
        rw [← hn]
        exact fieldName_utf16Name hname hempty
  · rw [if_neg hgpt] at h ⊢
    by_cases hmbr : style = STYLE_MBR
    · rw [if_pos hmbr] at h ⊢
      by_cases hty : entry.getD 32 0 = 0
      · simp only [hty, if_true] at h
        exact absurd h (by simp)
      · simp only [hty, if_false, Option.some.injEq] at h
        rw [← h]
        exact ⟨⟨_, hty, rfl⟩, rfl⟩
    · rw [if_neg hmbr] at h ⊢
      rw [← Option.some.inj h]
      exact ⟨rfl, rfl⟩

theorem wellFormed_of_parseEntry {api : ReadApi} (hapi : api.Lawful) {style : UInt32}
    {entry : List UInt8} (hlen : entry.length = ENTRY_SIZE) {p : ParsedPartition}
    (h : parseEntry api style entry = some p) : WellFormedPartition style p := by
  obtain ⟨huse, d, hd, rfl⟩ := parseEntry_eq_some_iff.mp h
  refine ⟨?_, nonNegative_lt _, nonNegative_lt _, described_of_describe hapi hlen hd⟩
  exact Nat.pos_of_ne_zero (fun hz => huse.1 (UInt64.toNat_inj.mp hz))

/-! ## §4. What is well formed is returned. -/

/-- The GUID of a canonical text. -/
theorem exists_guid {text : String} (h : CanonicalGuid text) : ∃ g : Guid, g.text = text := by
  obtain ⟨a, b, c, d, e, rfl, ha, hb, hc, hd, he⟩ := h
  obtain ⟨data1, h1, rfl⟩ := exists_hexUpper 8 a ha
  obtain ⟨data2, h2, rfl⟩ := exists_hexUpper 4 b hb
  obtain ⟨data3, h3, rfl⟩ := exists_hexUpper 4 c hc
  obtain ⟨front, hfront, rfl⟩ := exists_hexBytes 2 d hd
  obtain ⟨back, hback, rfl⟩ := exists_hexBytes 6 e he
  have hlen : (front ++ back).toArray.size = 8 := by
    rw [List.size_toArray, List.length_append, hfront, hback]
  refine ⟨⟨UInt32.ofNat data1, UInt16.ofNat data2, UInt16.ofNat data3, ⟨_, hlen⟩⟩, ?_⟩
  have hlist : (Vector.mk (front ++ back).toArray hlen).toList = front ++ back := by simp
  unfold Guid.text
  rw [hlist, List.take_left' hfront, List.drop_left' hfront, UInt32.toNat_ofNat_of_lt' (by omega),
    UInt16.toNat_ofNat_of_lt' (by omega), UInt16.toNat_ofNat_of_lt' (by omega)]

/-- The name field of a name, or of none. -/
theorem exists_gptName {name : Option String} (h : ∀ n ∈ name, FieldName n) :
    ∃ field : GptName, (if field.name = "" then none else some field.name) = name := by
  have hzero : ∀ n, ∀ u ∈ (List.replicate n (0 : UInt16)).head?, u = 0 := by
    intro n u hu
    exact List.eq_of_mem_replicate (List.mem_of_mem_head? hu)
  cases name with
  | none =>
      refine ⟨⟨"", List.replicate 36 0, ?_, ?_, ?_, ?_, hzero 36⟩, rfl⟩
      · exact List.not_mem_nil
      · intro c hc
        exact absurd hc (by simp)
      · intro c hc
        exact absurd hc (by simp)
      · rfl
  | some n =>
      have hn := h n rfl
      have hlen := hn.fits
      refine ⟨⟨n, List.replicate (36 - (encodeUtf16 n.toList).length) 0, hn.no_nul,
        hn.no_leading_space, hn.no_trailing_space, ?_, hzero _⟩, if_neg hn.ne⟩
      rw [List.length_append, List.length_replicate]
      omega

/-- The entry of a well-formed partition, around a union arm. -/
def slotWith {style : Style} (p : ParsedPartition) (hp : p.startOffset.toNat < 2 ^ 63)
    (body : Body style) : Slot style :=
  { head := Vector.replicate 8 0
    start := p.startOffset
    start_lt := hp
    length := p.length.toInt64
    number := p.number
    flags := Vector.replicate 4 0
    body := body }

theorem parseEntry_slotWith {api : ReadApi} (hapi : api.Lawful) {code : UInt32}
    {p : ParsedPartition} (hp : WellFormedPartition code p) {style : Style} (body : Body style)
    (hd : describe api code (slotWith p hp.start_lt body).bytes = some (p.typeDesc, p.name)) :
    parseEntry api code (slotWith p hp.start_lt body).bytes = some p := by
  have hlength : i64Le api (slotWith p hp.start_lt body).bytes 16 = p.length.toInt64 :=
    length_field hapi _
  have hstart : i64Le api (slotWith p hp.start_lt body).bytes 8 = p.startOffset.toInt64 :=
    start_field hapi _
  have hnumber : api.leU32 (slotWith p hp.start_lt body).bytes 24 = p.number :=
    number_field hapi _
  have hne : p.length ≠ 0 := by
    intro hz
    have hpos := hp.length_pos
    rw [hz] at hpos
    exact absurd hpos (by decide)
  unfold parseEntry
  rw [hlength, hstart, hnumber, nonNegative_start hp.length_lt, nonNegative_start hp.start_lt, hd]
  show (if p.length = 0 then none else _) = _
  rw [if_neg hne]
  rfl

/-- **Every well-formed partition is read from some entry.** -/
theorem exists_entry {api : ReadApi} (hapi : api.Lawful) {style : UInt32} {p : ParsedPartition}
    (hp : WellFormedPartition style p) :
    ∃ entry : List UInt8, entry.length = ENTRY_SIZE ∧ parseEntry api style entry = some p := by
  have hdesc := hp.described
  unfold Described at hdesc
  by_cases hgpt : style = STYLE_GPT
  · rw [if_pos hgpt] at hdesc
    obtain ⟨⟨text, htext, hcanonical⟩, hname⟩ := hdesc
    obtain ⟨g, hg⟩ := exists_guid hcanonical
    obtain ⟨field, hfield⟩ := exists_gptName hname
    refine ⟨_, length_slot_bytes (slotWith p hp.start_lt (.gpt g (Vector.replicate 24 0) field)),
      parseEntry_slotWith hapi hp _ ?_⟩
    subst hgpt
    rw [describe_gpt hapi (slice_body _), htext, ← hg, ← hfield]
    rfl
  · rw [if_neg hgpt] at hdesc
    by_cases hmbr : style = STYLE_MBR
    · rw [if_pos hmbr] at hdesc
      obtain ⟨⟨ty, hty, htext⟩, hname⟩ := hdesc
      refine ⟨_, length_slot_bytes (slotWith p hp.start_lt (.mbr ty (Vector.replicate 111 0))),
        parseEntry_slotWith hapi hp _ ?_⟩
      subst hmbr
      rw [describe_mbr (slice_body _), htext, hname]
      exact if_neg hty
    · -- of another style nothing is described
      rw [if_neg hmbr] at hdesc
      refine ⟨_, length_slot_bytes (slotWith p hp.start_lt (.mbr 0 (Vector.replicate 111 0))),
        parseEntry_slotWith hapi hp _ ?_⟩
      unfold describe
      rw [if_neg hgpt, if_neg hmbr, hdesc.1, hdesc.2]

/-- And a list of them from as many entries. -/
theorem exists_entries {api : ReadApi} (hapi : api.Lawful) {style : UInt32}
    (ps : List ParsedPartition) (h : ∀ p ∈ ps, WellFormedPartition style p) :
    ∃ entries : List (List UInt8), entries.length = ps.length
      ∧ (∀ e ∈ entries, e.length = ENTRY_SIZE)
      ∧ entries.filterMap (parseEntry api style) = ps := by
  induction ps with
  | nil => exact ⟨[], rfl, fun e he => absurd he List.not_mem_nil, rfl⟩
  | cons p ps ih =>
      rw [List.forall_mem_cons] at h
      obtain ⟨entry, hlen, hentry⟩ := exists_entry hapi h.1
      obtain ⟨entries, hcount, hlens, hentries⟩ := ih h.2
      refine ⟨entry :: entries, by rw [List.length_cons, hcount, List.length_cons], ?_, ?_⟩
      · rw [List.forall_mem_cons]
        exact ⟨hlen, hlens⟩
      · rw [List.filterMap_cons, hentry, hentries]

/-- The header announces, and the entries follow. -/
theorem parseDriveLayout_table {api : ReadApi} (hapi : api.Lawful) (style : UInt32)
    {entries : List (List UInt8)} (hlens : ∀ e ∈ entries, e.length = ENTRY_SIZE)
    (hcount : entries.length < 2 ^ 32) (trailing : List UInt8) :
    parseDriveLayout api (leBytes 4 style.toNat ++ (leBytes 4 entries.length
        ++ (List.replicate 40 0 ++ (entries.flatten ++ trailing))))
      = { style := style, partitions := entries.filterMap (parseEntry api style) } := by
  set buf := leBytes 4 style.toNat ++ (leBytes 4 entries.length
    ++ (List.replicate 40 0 ++ (entries.flatten ++ trailing))) with hbuf
  have hlen : ¬ buf.length < 8 := by
    simp only [hbuf, List.length_append, length_leBytes]
    omega
  have hstyle : api.leU32 buf 0 = style :=
    UInt32.toNat_inj.mp
      (leU32_field hapi (show ([] : List UInt8).length = 0 from rfl) style.toNat_lt)
  have hn : (api.leU32 buf 4).toNat = entries.length :=
    leU32_field hapi (length_leBytes 4 _) hcount
  have hloop := parseEntries_flatten api style trailing entries
    (leBytes 4 style.toNat ++ (leBytes 4 entries.length ++ List.replicate 40 0)) 0
    (by simp [PARTITION_ENTRY_OFFSET]) hlens
  rw [List.append_assoc, List.append_assoc, ← hbuf] at hloop
  unfold parseDriveLayout
  rw [if_neg hlen]
  show ({ style := api.leU32 buf 0
          partitions := parseEntries api buf (api.leU32 buf 0) 0 (api.leU32 buf 4).toNat }
        : ParsedLayout) = _
  rw [hstyle, hn, hloop]

/-! ## §5. The image. -/

/-- A layout that a buffer of that length can hold. -/
structure WellFormed (length : Nat) (l : ParsedLayout) : Prop where
  /-- Without room for style and count, nothing is said. -/
  short : length < 8 → l = { style := UInt32.ofNat (2 ^ 32 - 1), partitions := [] }
  room : l.partitions.length ≤ wholeEntries length
  count_lt : l.partitions.length < 2 ^ 32
  partition : ∀ p ∈ l.partitions, WellFormedPartition l.style p

theorem wellFormed_parseDriveLayout {api : ReadApi} (hapi : api.Lawful) (buf : List UInt8) :
    WellFormed buf.length (parseDriveLayout api buf) := by
  by_cases h8 : buf.length < 8
  · have hempty : parseDriveLayout api buf
        = { style := UInt32.ofNat (2 ^ 32 - 1), partitions := [] } := if_pos h8
    rw [hempty]
    exact ⟨fun _ => rfl, Nat.zero_le _, by decide, fun p hp => absurd hp List.not_mem_nil⟩
  · have hparts := partitions_parseDriveLayout api (Nat.not_lt.mp h8)
    have hstyle : (parseDriveLayout api buf).style = api.leU32 buf 0 := by
      unfold parseDriveLayout
      rw [if_neg h8]
    have hlen := List.length_filterMap_le
      (fun k => parseEntry api (api.leU32 buf 0) (entryAt buf k))
      (List.range (min (api.leU32 buf 4).toNat (wholeEntries buf.length)))
    rw [← hparts, List.length_range] at hlen
    have hcount := (api.leU32 buf 4).toNat_lt
    refine ⟨fun hlt => absurd hlt h8, by omega, by omega, ?_⟩
    intro p hp
    rw [hparts] at hp
    obtain ⟨k, hk, hentry⟩ := List.mem_filterMap.mp hp
    have hinside : k < wholeEntries buf.length := by
      have hlt := List.mem_range.mp hk
      omega
    rw [hstyle]
    exact wellFormed_of_parseEntry hapi (length_slice (entry_inside_iff.mpr hinside)) hentry

/-- Every well-formed layout is read from some buffer. -/
theorem exists_buffer {api : ReadApi} (hapi : api.Lawful) {length : Nat} {l : ParsedLayout}
    (h : WellFormed length l) :
    ∃ buf : List UInt8, buf.length = length ∧ parseDriveLayout api buf = l := by
  by_cases h8 : length < 8
  · refine ⟨List.replicate length 0, List.length_replicate, ?_⟩
    rw [h.short h8]
    exact if_pos (by rw [List.length_replicate]; exact h8)
  · obtain ⟨style, ps⟩ := l
    obtain ⟨entries, hcount, hlens, hentries⟩ := exists_entries hapi ps h.partition
    have hroom : ps.length ≤ wholeEntries length := h.room
    by_cases hps : ps = []
    · -- no room is needed for an empty table
      set buf := leBytes 4 style.toNat ++ (leBytes 4 0 ++ List.replicate (length - 8) 0) with hbuf
      have hlen : buf.length = length := by
        simp only [hbuf, List.length_append, length_leBytes, List.length_replicate]
        omega
      have hstyle : api.leU32 buf 0 = style :=
        UInt32.toNat_inj.mp
          (leU32_field hapi (show ([] : List UInt8).length = 0 from rfl) style.toNat_lt)
      have hzero : (api.leU32 buf 4).toNat = 0 :=
        leU32_field hapi (length_leBytes 4 _) (by decide)
      refine ⟨buf, hlen, ?_⟩
      unfold parseDriveLayout
      rw [if_neg (by rw [hlen]; exact h8)]
      dsimp only
      rw [hzero, hstyle, hps]
      rfl
    · have hpos : 0 < ps.length := List.length_pos_of_ne_nil hps
      have hflat : entries.flatten.length = 144 * ps.length := by
        rw [List.length_flatten, List.map_congr_left hlens, List.map_const',
          List.sum_replicate_nat, hcount, Nat.mul_comm]
        rfl
      have hfit : 48 + 144 * ps.length ≤ length := by
        unfold wholeEntries PARTITION_ENTRY_OFFSET ENTRY_SIZE at hroom
        omega
      refine ⟨_, ?_, (parseDriveLayout_table hapi style hlens (by rw [hcount]; exact h.count_lt)
        (List.replicate (length - (48 + 144 * ps.length)) 0)).trans (by rw [hentries])⟩
      simp only [List.length_append, length_leBytes, List.length_replicate, hflat]
      omega

/-- **THE IMAGE OF THE PARSER.**  For every buffer length, the layouts returned are exactly the
    well-formed ones. -/
theorem parseDriveLayout_image (api : ReadApi) (hapi : api.Lawful) (length : Nat)
    (l : ParsedLayout) :
    (∃ buf : List UInt8, buf.length = length ∧ parseDriveLayout api buf = l)
      ↔ WellFormed length l := by
  constructor
  · rintro ⟨buf, rfl, rfl⟩
    exact wellFormed_parseDriveLayout hapi buf
  · exact exists_buffer hapi

/-- One named partition. -/
def namedLayout : ParsedLayout :=
  { style := STYLE_GPT
    partitions :=
      [{ number := 3
         startOffset := 1048576
         length := 268435456
         typeDesc := some basicData.text
         name := some basicName.name }] }

theorem wellFormed_namedLayout : WellFormed 192 namedLayout := by
  refine ⟨fun hlt => absurd hlt (by decide), by decide, by decide, ?_⟩
  intro p hp
  rw [List.mem_singleton.mp hp]
  refine ⟨by decide, by decide, by decide, ?_⟩
  show Described STYLE_GPT (some basicData.text) (some basicName.name)
  unfold Described
  rw [if_pos rfl]
  refine ⟨⟨_, rfl, canonicalGuid_text basicData⟩, ?_⟩
  intro n hn
  rw [← Option.some.inj hn]
  exact ⟨by decide, basicName.no_nul, basicName.no_leading_space, basicName.no_trailing_space,
    by decide⟩

/-- A buffer of 192 bytes holds it, one byte less is too short. -/
theorem parseDriveLayout_image_named :
    (∃ buf : List UInt8, buf.length = 192 ∧ parseDriveLayout referenceApi buf = namedLayout)
      ∧ ¬ ∃ buf : List UInt8, buf.length = 191
          ∧ parseDriveLayout referenceApi buf = namedLayout := by
  constructor
  · exact (parseDriveLayout_image referenceApi referenceApi_lawful 192 namedLayout).mpr
      wellFormed_namedLayout
  · intro h
    have hroom :=
      ((parseDriveLayout_image referenceApi referenceApi_lawful 191 namedLayout).mp h).room
    exact absurd hroom (by decide)

end LivediskForensic.DriveLayout
