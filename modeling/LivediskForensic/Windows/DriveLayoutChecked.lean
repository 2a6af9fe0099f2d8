/-
  LivediskForensic.Windows.DriveLayoutChecked — `parse_drive_layout` ON HOSTILE
  BUFFERS.

  The same parser, with every slice, index and `usize` operation of the source
  written out as a checked one: `none` stands for a panic.  The width of
  `usize` is a parameter, and the rounds of the loop that get past the bounds
  check are counted.

      parseEntriesChecked_eq  — the loop goes through, because a round is only
                                reached when the one before it lay inside
      parseDriveLayout_safe   — the parser never panics and its work is bounded
                                by the buffer, whatever the declared count
-/
import LivediskForensic.Lib.Checked
import LivediskForensic.Windows.DriveLayout

namespace LivediskForensic.DriveLayout

open LivediskForensic.Lib

/-! ## §1. The fields of an entry. -/

/-- `format_guid`, its three slices and the length check of `copy_from_slice`. -/
def formatGuidChecked (api : ReadApi) (b : List UInt8) : Option String := do
  let raw : List UInt8 := List.replicate 16 0
  let n := min b.length raw.length
  let dst ← checkedSlice raw 0 n
  let src ← checkedSlice b 0 n
  if dst.length = src.length then some (api.encodeUpper (src ++ raw.drop n)) else none

/-- `chunks_exact(2)`. -/
def chunksExact2 : List UInt8 → List (List UInt8)
  | lo :: hi :: rest => [lo, hi] :: chunksExact2 rest
  | _ => []

/-- `u16::from_le_bytes([c[0], c[1]])`. -/
def unitChecked (chunk : List UInt8) : Option UInt16 := do
  let lo ← chunk[0]?
  let hi ← chunk[1]?
  some (UInt16.ofNat (leValue [lo, hi]))

/-- `utf16_name`. -/
def utf16NameChecked (b : List UInt8) : Option String := do
  let units ← (chunksExact2 b).mapM unitChecked
  some (String.ofList
    (trimBy isWhiteSpace (decodeUtf16Lossy (units.takeWhile (fun u => u ≠ 0)))))

/-- The type and name of an entry; the inner `none` skips the entry. -/
def describeChecked (api : ReadApi) (style : UInt32) (entry : List UInt8) :
    Option (Option (Option String × Option String)) :=
  if style = STYLE_GPT then do
    let field ← checkedSlice entry 72 144
    let name ← utf16NameChecked field
    let guid ← checkedSlice entry 32 48
    let type ← formatGuidChecked api guid
    some (some (some type, if name = "" then none else some name))
  else if style = STYLE_MBR then do
    let ty ← entry[32]?
    some (if ty = 0 then none else some (some (formatMbrType ty), none))
  else some (some (none, none))

/-- One round of the loop past the bounds check; the inner `none` is a `continue`. -/
def parseEntryChecked (api : ReadApi) (style : UInt32) (entry : List UInt8) :
    Option (Option ParsedPartition) :=
  let length := nonNegative (i64Le api entry 16)
  if length = 0 then some none
  else do
    let d ← describeChecked api style entry
    some (d.map (fun d =>
      { number := api.leU32 entry 24
        startOffset := nonNegative (i64Le api entry 8)
        length := length
        typeDesc := d.1
        name := d.2 }))

/-! ## §2. The loop. -/

/-- What a run of the loop leaves: the rounds past the bounds check, and the partitions. -/
structure LoopRun where
  rounds : Nat
  partitions : List ParsedPartition

/-- The loop, in `usize` arithmetic of the given width. -/
def parseEntriesChecked (bits : Nat) (api : ReadApi) (buf : List UInt8) (style : UInt32) :
    Nat → Nat → Option LoopRun
  | _, 0 => some { rounds := 0, partitions := [] }
  | i, remaining + 1 => do
      let offset ← checkedMul bits i ENTRY_SIZE
      let e ← checkedAdd bits PARTITION_ENTRY_OFFSET offset
      let stop ← checkedAdd bits e ENTRY_SIZE
      if buf.length < stop then some { rounds := 0, partitions := [] }
      else
        let entry ← checkedSlice buf e stop
        let p ← parseEntryChecked api style entry
        let rest ← parseEntriesChecked bits api buf style (i + 1) remaining
        some { rounds := rest.rounds + 1, partitions := p.toList ++ rest.partitions }

/-- What a run of the parser leaves. -/
structure ParserRun where
  rounds : Nat
  layout : ParsedLayout

/-- **`parse_drive_layout` with all its checks.** -/
def parseDriveLayoutChecked (bits : Nat) (api : ReadApi) (buf : List UInt8) : Option ParserRun :=
  if buf.length < 8 then
    some { rounds := 0, layout := { style := UInt32.ofNat (2 ^ 32 - 1), partitions := [] } }
  else do
    let style := api.leU32 buf 0
    -- `as usize`
    let count ← checkedCast bits (api.leU32 buf 4).toNat
    let run ← parseEntriesChecked bits api buf style 0 count
    some { rounds := run.rounds, layout := { style := style, partitions := run.partitions } }

/-! ## §3. The fields never go out of range. -/

theorem formatGuidChecked_eq (api : ReadApi) (b : List UInt8) :
    formatGuidChecked api b = some (formatGuid api b) := by
  have hn : min b.length 16 ≤ b.length := Nat.min_le_left _ _
  have hraw : min b.length (List.replicate 16 (0 : UInt8)).length = min b.length 16 := by
    rw [List.length_replicate]
  have hdst := checkedSlice_eq_some (l := List.replicate 16 (0 : UInt8)) (Nat.zero_le (min b.length 16))
    (by rw [List.length_replicate]; exact Nat.min_le_right _ _)
  have hsrc := checkedSlice_eq_some (l := b) (Nat.zero_le (min b.length 16)) hn
  have hlen : (slice (List.replicate 16 (0 : UInt8)) 0 (min b.length 16 - 0)).length
      = (slice b 0 (min b.length 16 - 0)).length := by
    have h16 : 0 + (min b.length 16 - 0) ≤ (List.replicate 16 (0 : UInt8)).length := by
      rw [List.length_replicate]
      omega
    rw [length_slice h16, length_slice (by omega)]
  -- the copied prefix, and the zeros that stay behind it
  have hcopy : slice b 0 (min b.length 16 - 0) ++ (List.replicate 16 (0 : UInt8)).drop (min b.length 16)
      = b.take 16 ++ List.replicate (16 - b.length) 0 := by
    have htake : slice b 0 (min b.length 16 - 0) = b.take 16 := by
      unfold slice
      rw [List.drop_zero, Nat.sub_zero, Nat.min_comm, ← List.take_take, List.take_length]
    have hzeros : 16 - min b.length 16 = 16 - b.length := by omega
    rw [htake, List.drop_replicate, hzeros]
  unfold formatGuidChecked
  simp only [hraw, hdst, hsrc, Option.bind_eq_bind, Option.bind_some]
  rw [if_pos hlen, hcopy]
  rfl

theorem mapM_unitChecked (b : List UInt8) :
    (chunksExact2 b).mapM unitChecked = some (unitsLe b) := by
  induction b using chunksExact2.induct with
  | case1 lo hi rest ih =>
      show ([lo, hi] :: chunksExact2 rest).mapM unitChecked = _
      rw [List.mapM_cons, ih]
      rfl
  | case2 b hshort =>
      match b with
      | [] => rfl
      | [_] => rfl
      | lo :: hi :: rest => exact absurd rfl (hshort lo hi rest)

theorem utf16NameChecked_eq (b : List UInt8) : utf16NameChecked b = some (utf16Name b) := by
  unfold utf16NameChecked
  rw [mapM_unitChecked]
  rfl

theorem describeChecked_eq (api : ReadApi) (style : UInt32) {entry : List UInt8}
    (h : entry.length = ENTRY_SIZE) :
    describeChecked api style entry = some (describe api style entry) := by
  have h144 : entry.length = 144 := h
  unfold describeChecked describe
  by_cases hgpt : style = STYLE_GPT
  · have hname := checkedSlice_eq_some (l := entry) (show 72 ≤ 144 by decide) (by omega)
    have hguid := checkedSlice_eq_some (l := entry) (show 32 ≤ 48 by decide) (by omega)
    rw [if_pos hgpt, if_pos hgpt, hname, hguid]
    simp only [Option.bind_eq_bind, Option.bind_some, utf16NameChecked_eq, formatGuidChecked_eq]
  · rw [if_neg hgpt, if_neg hgpt]
    by_cases hmbr : style = STYLE_MBR
    · have hty : entry[32]? = some (entry.getD 32 0) := by
        rw [List.getD_eq_getElem?_getD, List.getElem?_eq_getElem (by omega), Option.getD_some]
      rw [if_pos hmbr, if_pos hmbr, hty]
      rfl
    · rw [if_neg hmbr, if_neg hmbr]

/-- A whole entry is parsed without a panic. -/
theorem parseEntryChecked_eq (api : ReadApi) (style : UInt32) {entry : List UInt8}
    (h : entry.length = ENTRY_SIZE) :
    parseEntryChecked api style entry = some (parseEntry api style entry) := by
  show (if nonNegative (i64Le api entry 16) = 0 then some none else
    (describeChecked api style entry).bind _) = some
      (if nonNegative (i64Le api entry 16) = 0 then none else _)
  by_cases hlen : nonNegative (i64Le api entry 16) = 0
  · rw [if_pos hlen, if_pos hlen]
  · rw [if_neg hlen, if_neg hlen, describeChecked_eq api style h, Option.bind_some]

/-! ## §4. The loop never goes out of range. -/

/-- The entry before a round that is reached ends at its start, inside the buffer. -/
theorem offset_le {i n : Nat} (h : i ≤ wholeEntries n) :
    PARTITION_ENTRY_OFFSET + i * ENTRY_SIZE ≤ max PARTITION_ENTRY_OFFSET n := by
  unfold wholeEntries PARTITION_ENTRY_OFFSET ENTRY_SIZE at *
  omega

/-- **The run of the loop.**  A round `i` is only reached when the entries before it lie inside,
so its offsets stay within one entry of the buffer's length. -/
theorem parseEntriesChecked_eq {bits : Nat} (api : ReadApi) {buf : List UInt8} (style : UInt32)
    (hroom : max PARTITION_ENTRY_OFFSET buf.length + ENTRY_SIZE < 2 ^ bits) :
    ∀ (remaining i : Nat), i ≤ wholeEntries buf.length →
      parseEntriesChecked bits api buf style i remaining
        = some { rounds := min remaining (wholeEntries buf.length - i)
                 partitions := parseEntries api buf style i remaining } := by
  intro remaining
  induction remaining with
  | zero =>
      intro i _
      rw [Nat.zero_min]
      rfl
  | succ remaining ih =>
      intro i hi
      have hstart := offset_le hi
      have hmul : i * ENTRY_SIZE < 2 ^ bits := by omega
      have hadd : PARTITION_ENTRY_OFFSET + i * ENTRY_SIZE < 2 ^ bits := by omega
      have hstop : PARTITION_ENTRY_OFFSET + i * ENTRY_SIZE + ENTRY_SIZE < 2 ^ bits := by omega
      unfold parseEntriesChecked
      simp only [checkedMul_eq_some hmul, checkedAdd_eq_some hadd, checkedAdd_eq_some hstop,
        Option.bind_eq_bind, Option.bind_some]
      by_cases hin : i < wholeEntries buf.length
      · have hbuf := entry_inside_iff.mpr hin
        have hslice := checkedSlice_eq_some (l := buf)
          (Nat.le_add_right (PARTITION_ENTRY_OFFSET + i * ENTRY_SIZE) ENTRY_SIZE) hbuf
        rw [Nat.add_sub_cancel_left] at hslice
        have hentry : (slice buf (PARTITION_ENTRY_OFFSET + i * ENTRY_SIZE) ENTRY_SIZE).length
            = ENTRY_SIZE := length_slice hbuf
        have hmin : min remaining (wholeEntries buf.length - (i + 1)) + 1
            = min (remaining + 1) (wholeEntries buf.length - i) := by omega
        have hnot : ¬ buf.length < PARTITION_ENTRY_OFFSET + i * ENTRY_SIZE + ENTRY_SIZE := by
          omega
        rw [if_neg hnot, hslice, Option.bind_some, parseEntryChecked_eq api style hentry,
          Option.bind_some, ih (i + 1) (by omega), Option.bind_some, hmin,
          parseEntries_succ hbuf]
      · have hmin : min (remaining + 1) (wholeEntries buf.length - i) = 0 := by omega
        have hout : buf.length < PARTITION_ENTRY_OFFSET + i * ENTRY_SIZE + ENTRY_SIZE := by
          rw [← entry_inside_iff] at hin
          omega
        rw [if_pos hout, parseEntries_stop hin, hmin]

/-! ## §5. The parser. -/

/-- The bound of the work: the announced entries, and those the buffer has room for. -/
def roundBound (api : ReadApi) (buf : List UInt8) : Nat :=
  min (api.leU32 buf 4).toNat ((buf.length - 48) / 144)

theorem length_partitions_le (api : ReadApi) (buf : List UInt8) :
    (parseDriveLayout api buf).partitions.length ≤ roundBound api buf := by
  by_cases h : 8 ≤ buf.length
  · rw [partitions_parseDriveLayout api h]
    refine (List.length_filterMap_le _ _).trans (Nat.le_of_eq ?_)
    exact List.length_range
  · rw [partitions_of_short api (by omega)]
    exact Nat.zero_le _

/-- **THE PARSER IS SAFE AND BOUNDED**, on every buffer a slice can be and for both widths of
`usize`: no index, slice or sum goes wrong, and neither the rounds past the bounds check nor the
partitions exceed what the buffer holds. -/
theorem parseDriveLayout_safe (bits : Nat) (hbits : bits = 32 ∨ bits = 64) (api : ReadApi)
    (buf : List UInt8) (hbuf : buf.length < 2 ^ (bits - 1)) :
    ∃ rounds, parseDriveLayoutChecked bits api buf
        = some { rounds := rounds, layout := parseDriveLayout api buf }
      ∧ rounds ≤ roundBound api buf
      ∧ (parseDriveLayout api buf).partitions.length ≤ roundBound api buf := by
  have hpow : 2 ^ 31 ≤ 2 ^ (bits - 1) ∧ 2 ^ bits = 2 * 2 ^ (bits - 1) := by
    rcases hbits with h | h
    · rw [h]
      decide
    · rw [h]
      decide
  unfold parseDriveLayoutChecked
  by_cases h : buf.length < 8
  · refine ⟨0, ?_, Nat.zero_le _, length_partitions_le api buf⟩
    unfold parseDriveLayout
    rw [if_pos h, if_pos h]
  · have hcount : (api.leU32 buf 4).toNat < 2 ^ bits := by
      have hlt := (api.leU32 buf 4).toNat_lt
      omega
    have hroom : max PARTITION_ENTRY_OFFSET buf.length + ENTRY_SIZE < 2 ^ bits := by
      unfold PARTITION_ENTRY_OFFSET ENTRY_SIZE
      omega
    refine ⟨roundBound api buf, ?_, Nat.le_refl _, length_partitions_le api buf⟩
    rw [if_neg h]
    show ((checkedCast bits (api.leU32 buf 4).toNat).bind fun count =>
      (parseEntriesChecked bits api buf (api.leU32 buf 0) 0 count).bind fun run => some
        (ParserRun.mk run.rounds (ParsedLayout.mk (api.leU32 buf 0) run.partitions))) = _
    rw [checkedCast_eq_some hcount, Option.bind_some,
      parseEntriesChecked_eq api _ hroom _ 0 (Nat.zero_le _), Option.bind_some]
    unfold parseDriveLayout
    rw [if_neg h]
    rfl

/-- A 32-bit host and a header that announces 2^32 - 1 entries in front of none. -/
theorem parseDriveLayout_safe_hostile :
    ∃ rounds, parseDriveLayoutChecked 32 referenceApi (List.replicate 48 0xFF)
        = some { rounds := rounds, layout := parseDriveLayout referenceApi (List.replicate 48 0xFF) }
      ∧ rounds ≤ roundBound referenceApi (List.replicate 48 0xFF)
      ∧ (parseDriveLayout referenceApi (List.replicate 48 0xFF)).partitions.length
        ≤ roundBound referenceApi (List.replicate 48 0xFF) :=
  parseDriveLayout_safe 32 (Or.inl rfl) referenceApi _ (by decide)

end LivediskForensic.DriveLayout
