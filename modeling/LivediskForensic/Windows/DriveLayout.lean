/-
  LivediskForensic.Windows.DriveLayout — `core/src/drive_layout.rs`: the
  `DRIVE_LAYOUT_INFORMATION_EX` byte buffer, decoded into partition records.

  Two crates do the field work and are PARAMETERS here (`ReadApi`): `safe-read`
  reads little-endian fields, `uuid` spells a GUID.  `ReadApi.Lawful` says what
  the module relies on, and `referenceApi` is an implementation that has it.

  The loop is described once, for any buffer made of whole entries:

      parseEntries_flatten — it returns what `parseEntry` makes of each entry
                             in turn, however the buffer goes on after them
-/
import LivediskForensic.Lib.LittleEndian
import LivediskForensic.Lib.Text
import LivediskForensic.Lib.Utf16

namespace LivediskForensic.DriveLayout

open LivediskForensic.Lib

/-! ## §1. The crates. -/

/-- The functions of `safe-read` and `uuid` that the module calls. -/
structure ReadApi where
  /-- `safe_read::le_u32`. -/
  leU32 : List UInt8 → Nat → UInt32
  /-- `safe_read::le_u64`. -/
  leU64 : List UInt8 → Nat → UInt64
  /-- `Uuid::from_bytes_le(raw).hyphenated().encode_upper(..)`. -/
  encodeUpper : List UInt8 → String

/-- The bytes of a GUID in the order they are spelled: three little-endian fields, then eight
bytes as they stand. -/
def guidText (raw : List UInt8) : String :=
  String.ofList (hexBytes (slice raw 0 4).reverse ++ '-' :: (hexBytes (slice raw 4 2).reverse
    ++ '-' :: (hexBytes (slice raw 6 2).reverse ++ '-' :: (hexBytes (slice raw 8 2)
    ++ '-' :: hexBytes (slice raw 10 6)))))

/-- What the crates promise: a field is little-endian and 0 out of range, a GUID is spelled in
mixed-endian order. -/
structure ReadApi.Lawful (api : ReadApi) : Prop where
  leU32_eq : ∀ b o, o + 4 ≤ b.length → api.leU32 b o = UInt32.ofNat (leValue (slice b o 4))
  leU32_out : ∀ b o, b.length < o + 4 → api.leU32 b o = 0
  leU64_eq : ∀ b o, o + 8 ≤ b.length → api.leU64 b o = UInt64.ofNat (leValue (slice b o 8))
  leU64_out : ∀ b o, b.length < o + 8 → api.leU64 b o = 0
  encodeUpper_eq : ∀ raw, raw.length = 16 → api.encodeUpper raw = guidText raw

/-- An implementation of the crates' promises. -/
def referenceApi : ReadApi :=
  { leU32 := fun b o => if o + 4 ≤ b.length then UInt32.ofNat (leValue (slice b o 4)) else 0
    leU64 := fun b o => if o + 8 ≤ b.length then UInt64.ofNat (leValue (slice b o 8)) else 0
    encodeUpper := guidText }

theorem referenceApi_lawful : referenceApi.Lawful :=
  { leU32_eq := fun _ _ h => if_pos h
    leU32_out := fun _ _ h => if_neg (by omega)
    leU64_eq := fun _ _ h => if_pos h
    leU64_out := fun _ _ h => if_neg (by omega)
    encodeUpper_eq := fun _ _ => rfl }

/-! ## §2. The parser. -/

/-- Byte offset of the first `PARTITION_INFORMATION_EX` in the layout buffer. -/
def PARTITION_ENTRY_OFFSET : Nat := 48

/-- Size of one `PARTITION_INFORMATION_EX`. -/
def ENTRY_SIZE : Nat := 144

/-- `PARTITION_STYLE` discriminants. -/
def STYLE_MBR : UInt32 := 0
def STYLE_GPT : UInt32 := 1

/-- One partition decoded from the layout buffer. -/
structure ParsedPartition where
  /-- `PartitionNumber`. -/
  number : UInt32
  /-- `StartingOffset` in bytes. -/
  startOffset : UInt64
  /-- `PartitionLength` in bytes. -/
  length : UInt64
  /-- GPT type GUID (canonical string) or MBR type byte (`0xNN`). -/
  typeDesc : Option String
  /-- GPT partition name, when non-empty. -/
  name : Option String
  deriving Repr, DecidableEq

/-- The decoded drive layout. -/
structure ParsedLayout where
  /-- `PartitionStyle` (0 = MBR, 1 = GPT, 2 = RAW). -/
  style : UInt32
  /-- Partitions with a non-zero length, in table order. -/
  partitions : List ParsedPartition
  deriving Repr, DecidableEq

/-- Read a signed 64-bit little-endian field. -/
def i64Le (api : ReadApi) (b : List UInt8) (o : Nat) : Int64 := (api.leU64 b o).toInt64

/-- `.max(0) as u64`. -/
def nonNegative (x : Int64) : UInt64 := (max x 0).toUInt64

/-- The first 16 bytes, zero-filled when there are fewer. -/
def formatGuid (api : ReadApi) (b : List UInt8) : String :=
  api.encodeUpper (b.take 16 ++ List.replicate (16 - b.length) 0)

/-- `chunks_exact(2)` read as little-endian `u16`. -/
def unitsLe : List UInt8 → List UInt16
  | lo :: hi :: rest => UInt16.ofNat (leValue [lo, hi]) :: unitsLe rest
  | _ => []

/-- Decode a UTF-16LE region up to the first NUL, trimmed. -/
def utf16Name (b : List UInt8) : String :=
  String.ofList (trimBy isWhiteSpace (decodeUtf16Lossy ((unitsLe b).takeWhile (fun u => u ≠ 0))))

/-- The MBR type byte as text. -/
def formatMbrType (ty : UInt8) : String := String.ofList ('0' :: 'x' :: hexUpper 2 ty.toNat)

/-- The type and name of an entry, by partition style; `none` skips the entry. -/
def describe (api : ReadApi) (style : UInt32) (entry : List UInt8) :
    Option (Option String × Option String) :=
  if style = STYLE_GPT then
    let name := utf16Name (slice entry 72 72)
    some (some (formatGuid api (slice entry 32 16)), if name = "" then none else some name)
  else if style = STYLE_MBR then
    let ty := entry.getD 32 0
    if ty = 0 then none else some (some (formatMbrType ty), none)
  -- RAW and unknown styles say nothing about type and name
  else some (none, none)

/-- One round of the loop: `none` is a `continue`. -/
def parseEntry (api : ReadApi) (style : UInt32) (entry : List UInt8) : Option ParsedPartition :=
  let length := nonNegative (i64Le api entry 16)
  if length = 0 then none
  else
    (describe api style entry).map (fun d =>
      { number := api.leU32 entry 24
        startOffset := nonNegative (i64Le api entry 8)
        length := length
        typeDesc := d.1
        name := d.2 })

/-- The loop from entry `i` on, with `remaining` entries still announced. -/
def parseEntries (api : ReadApi) (buf : List UInt8) (style : UInt32) :
    Nat → Nat → List ParsedPartition
  | _, 0 => []
  | i, remaining + 1 =>
    let e := PARTITION_ENTRY_OFFSET + i * ENTRY_SIZE
    -- `break`: the announced count is not trusted beyond the buffer
    if buf.length < e + ENTRY_SIZE then []
    else
      match parseEntry api style (slice buf e ENTRY_SIZE) with
      | some p => p :: parseEntries api buf style (i + 1) remaining
      -- `continue`: a skipped entry still uses up its place
      | none => parseEntries api buf style (i + 1) remaining

/-- **Parse a `DRIVE_LAYOUT_INFORMATION_EX` buffer.** -/
def parseDriveLayout (api : ReadApi) (buf : List UInt8) : ParsedLayout :=
  -- too short for style and count: `u32::MAX` is no style
  if buf.length < 8 then { style := UInt32.ofNat (2 ^ 32 - 1), partitions := [] }
  else
    let style := api.leU32 buf 0
    { style := style, partitions := parseEntries api buf style 0 (api.leU32 buf 4).toNat }

/-! ## §3. The loop on a buffer of whole entries. -/

/-- One round whose entry lies inside the buffer. -/
theorem parseEntries_succ {api : ReadApi} {buf : List UInt8} {style : UInt32} {i : Nat}
    (h : PARTITION_ENTRY_OFFSET + i * ENTRY_SIZE + ENTRY_SIZE ≤ buf.length) (remaining : Nat) :
    parseEntries api buf style i (remaining + 1)
      = (parseEntry api style (slice buf (PARTITION_ENTRY_OFFSET + i * ENTRY_SIZE) ENTRY_SIZE)).toList
        ++ parseEntries api buf style (i + 1) remaining := by
  have hlt : ¬ buf.length < PARTITION_ENTRY_OFFSET + i * ENTRY_SIZE + ENTRY_SIZE := by omega
  -- the bounds check passes, so the round is the `match`
  show (if buf.length < PARTITION_ENTRY_OFFSET + i * ENTRY_SIZE + ENTRY_SIZE then [] else _) = _
  rw [if_neg hlt]
  cases parseEntry api style (slice buf (PARTITION_ENTRY_OFFSET + i * ENTRY_SIZE) ENTRY_SIZE) with
  | none => rfl
  | some p => rfl

/-- **The run of the loop**: on whole entries, wherever they start, it returns what `parseEntry`
makes of each in turn. -/
theorem parseEntries_flatten (api : ReadApi) (style : UInt32) (trailing : List UInt8) :
    ∀ (entries : List (List UInt8)) (pre : List UInt8) (i : Nat),
      pre.length = PARTITION_ENTRY_OFFSET + i * ENTRY_SIZE →
      (∀ e ∈ entries, e.length = ENTRY_SIZE) →
      parseEntries api (pre ++ (entries.flatten ++ trailing)) style i entries.length
        = entries.filterMap (parseEntry api style)
  | [], _, _, _, _ => rfl
  | entry :: entries, pre, i, hpre, hlen => by
      have hentry : entry.length = ENTRY_SIZE := hlen entry List.mem_cons_self
      have hbuf : pre ++ ((entry :: entries).flatten ++ trailing)
          = pre ++ (entry ++ (entries.flatten ++ trailing)) := by
        rw [List.flatten_cons, List.append_assoc]
      -- the next entry starts where this one ends
      have ih := parseEntries_flatten api style trailing entries (pre ++ entry) (i + 1)
        (by rw [List.length_append, hpre, hentry, Nat.add_mul, Nat.one_mul, Nat.add_assoc])
        (fun e he => hlen e (List.mem_cons_of_mem _ he))
      rw [List.append_assoc] at ih
      rw [hbuf, List.length_cons, parseEntries_succ (by simp only [List.length_append]; omega),
        slice_append hpre hentry, ih, List.filterMap_cons]
      cases parseEntry api style entry with
      | none => rfl
      | some p => rfl

/-! ## §4. The loop on any buffer. -/

/-- Entry `i` of the buffer, where it lies inside. -/
def entryAt (buf : List UInt8) (i : Nat) : List UInt8 :=
  slice buf (PARTITION_ENTRY_OFFSET + i * ENTRY_SIZE) ENTRY_SIZE

/-- How many whole entries a buffer of that length has room for. -/
def wholeEntries (length : Nat) : Nat := (length - PARTITION_ENTRY_OFFSET) / ENTRY_SIZE

theorem entry_inside_iff {length i : Nat} :
    PARTITION_ENTRY_OFFSET + i * ENTRY_SIZE + ENTRY_SIZE ≤ length ↔ i < wholeEntries length := by
  unfold wholeEntries PARTITION_ENTRY_OFFSET ENTRY_SIZE
  omega

/-- A round whose entry does not lie inside ends the loop. -/
theorem parseEntries_stop {api : ReadApi} {buf : List UInt8} {style : UInt32} {i : Nat}
    (h : ¬ i < wholeEntries buf.length) (remaining : Nat) :
    parseEntries api buf style i remaining = [] := by
  rw [← entry_inside_iff] at h
  cases remaining with
  | zero => rfl
  | succ remaining =>
      show (if buf.length < PARTITION_ENTRY_OFFSET + i * ENTRY_SIZE + ENTRY_SIZE then [] else _) = []
      exact if_pos (by omega)

/-- **The run of the loop on any buffer**: the announced entries that lie inside, in order. -/
theorem parseEntries_eq (api : ReadApi) (buf : List UInt8) (style : UInt32) :
    ∀ (remaining i : Nat),
      parseEntries api buf style i remaining
        = (List.range' i (min remaining (wholeEntries buf.length - i))).filterMap
            (fun k => parseEntry api style (entryAt buf k)) := by
  intro remaining
  induction remaining with
  | zero =>
      intro i
      rw [Nat.zero_min]
      rfl
  | succ remaining ih =>
      intro i
      by_cases h : i < wholeEntries buf.length
      · have hmin : min (remaining + 1) (wholeEntries buf.length - i)
            = min remaining (wholeEntries buf.length - (i + 1)) + 1 := by omega
        rw [parseEntries_succ (entry_inside_iff.mpr h), ih, hmin, List.range'_succ,
          List.filterMap_cons]
        show (parseEntry api style (entryAt buf i)).toList ++ _ = _
        cases parseEntry api style (entryAt buf i) with
        | none => rfl
        | some p => rfl
      · have hmin : min (remaining + 1) (wholeEntries buf.length - i) = 0 := by omega
        rw [parseEntries_stop h, hmin]
        rfl

/-- The entries of a layout buffer that are looked at. -/
theorem partitions_parseDriveLayout (api : ReadApi) {buf : List UInt8} (h : 8 ≤ buf.length) :
    (parseDriveLayout api buf).partitions
      = (List.range (min (api.leU32 buf 4).toNat (wholeEntries buf.length))).filterMap
          (fun k => parseEntry api (api.leU32 buf 0) (entryAt buf k)) := by
  unfold parseDriveLayout
  rw [if_neg (by omega)]
  show parseEntries api buf (api.leU32 buf 0) 0 (api.leU32 buf 4).toNat = _
  rw [parseEntries_eq, Nat.sub_zero, List.range_eq_range']

/-- A buffer without a header has no partitions. -/
theorem partitions_of_short (api : ReadApi) {buf : List UInt8} (h : buf.length < 8) :
    (parseDriveLayout api buf).partitions = [] := by
  unfold parseDriveLayout
  rw [if_pos h]

/-! ## §5. Tables without a partition. -/

/-- The entry is in use: a positive length and, in an MBR table, a type. -/
def EntryInUse (api : ReadApi) (style : UInt32) (entry : List UInt8) : Prop :=
  nonNegative (i64Le api entry 16) ≠ 0 ∧ ¬ (style = STYLE_MBR ∧ entry.getD 32 0 = 0)

/-- Some announced entry that lies inside the buffer is in use. -/
def TableInUse (api : ReadApi) (buf : List UInt8) : Prop :=
  8 ≤ buf.length ∧ ∃ i < (api.leU32 buf 4).toNat,
    PARTITION_ENTRY_OFFSET + i * ENTRY_SIZE + ENTRY_SIZE ≤ buf.length
      ∧ EntryInUse api (api.leU32 buf 0) (entryAt buf i)

/-- Only an MBR entry of type zero is skipped for its type. -/
theorem describe_eq_none_iff {api : ReadApi} {style : UInt32} {entry : List UInt8} :
    describe api style entry = none ↔ style = STYLE_MBR ∧ entry.getD 32 0 = 0 := by
  unfold describe
  by_cases hgpt : style = STYLE_GPT
  · rw [if_pos hgpt, hgpt]
    have hne : STYLE_GPT ≠ STYLE_MBR := by decide
    simp [hne]
  · rw [if_neg hgpt]
    by_cases hmbr : style = STYLE_MBR
    · rw [if_pos hmbr]
      show (if entry.getD 32 0 = 0 then none
        else some (some (formatMbrType (entry.getD 32 0)), none)) = none ↔ _
      by_cases hty : entry.getD 32 0 = 0
      · rw [if_pos hty]
        exact ⟨fun _ => ⟨hmbr, hty⟩, fun _ => rfl⟩
      · rw [if_neg hty]
        exact ⟨fun h => absurd h (by simp), fun h => absurd h.2 hty⟩
    · rw [if_neg hmbr]
      simp [hmbr]

/-- An entry is skipped exactly when it is not in use. -/
theorem parseEntry_eq_none_iff {api : ReadApi} {style : UInt32} {entry : List UInt8} :
    parseEntry api style entry = none ↔ ¬ EntryInUse api style entry := by
  unfold EntryInUse
  show (if nonNegative (i64Le api entry 16) = 0 then none else _) = none ↔ _
  by_cases hlen : nonNegative (i64Le api entry 16) = 0
  · rw [if_pos hlen]
    simp [hlen]
  · rw [if_neg hlen, Option.map_eq_none_iff, describe_eq_none_iff]
    simp [hlen]

/-- **A layout has no partition exactly when no entry of its table is in use.** -/
theorem partitions_eq_nil_iff (api : ReadApi) (buf : List UInt8) :
    (parseDriveLayout api buf).partitions = [] ↔ ¬ TableInUse api buf := by
  unfold TableInUse
  by_cases h8 : 8 ≤ buf.length
  · rw [partitions_parseDriveLayout api h8, List.filterMap_eq_nil_iff]
    constructor
    · intro h hused
      obtain ⟨_, i, hi, hin, huse⟩ := hused
      have hmem : i ∈ List.range (min (api.leU32 buf 4).toNat (wholeEntries buf.length)) :=
        List.mem_range.mpr (Nat.lt_min.mpr ⟨hi, entry_inside_iff.mp hin⟩)
      exact parseEntry_eq_none_iff.mp (h i hmem) huse
    · intro h i hi
      rw [List.mem_range, Nat.lt_min] at hi
      rw [parseEntry_eq_none_iff]
      intro huse
      exact h ⟨h8, i, hi.1, entry_inside_iff.mpr hi.2, huse⟩
  · rw [partitions_of_short api (by omega)]
    simp [h8]

end LivediskForensic.DriveLayout
