/-
  LivediskForensic.Windows.DriveLayoutEncoding — THE WRITER'S SIDE of
  `DRIVE_LAYOUT_INFORMATION_EX`, and that the parser recovers what was laid
  out.

  A `Slot` is one entry of the table with every byte accounted for: the six
  fields the parser reads and the bytes it does not, which are arbitrary.  The
  record types carry the format's own limits (a start offset below 2^63, a name
  of at most 36 units), so only encodable layouts can be written down.

      parseEntry_encode       — one entry is read back
      parseDriveLayout_encode — the whole layout is, used and empty slots mixed
-/
import LivediskForensic.Windows.DriveLayout

namespace LivediskForensic.DriveLayout

open LivediskForensic.Lib

/-! ## §1. Layouts. -/

/-- The two partition styles with a union arm of their own. -/
inductive Style where
  | mbr
  | gpt
  deriving Repr, DecidableEq

/-- The discriminant written at the front of the buffer. -/
def Style.code : Style → UInt32
  | .mbr => STYLE_MBR
  | .gpt => STYLE_GPT

/-- A GUID by its fields. -/
structure Guid where
  data1 : UInt32
  data2 : UInt16
  data3 : UInt16
  data4 : Vector UInt8 8

/-- The on-disk bytes: the first three fields little-endian, the last as it stands. -/
def Guid.bytes (g : Guid) : List UInt8 :=
  leBytes 4 g.data1.toNat ++ (leBytes 2 g.data2.toNat ++ (leBytes 2 g.data3.toNat
    ++ g.data4.toList))

/-- The canonical text: the fields as hexadecimal numbers. -/
def Guid.text (g : Guid) : String :=
  String.ofList (hexUpper 8 g.data1.toNat ++ '-' :: (hexUpper 4 g.data2.toNat
    ++ '-' :: (hexUpper 4 g.data3.toNat ++ '-' :: (hexBytes (g.data4.toList.take 2)
    ++ '-' :: hexBytes (g.data4.toList.drop 2)))))

/-- A GPT partition name with the units that fill up its field: none, or from the
terminating NUL on anything. -/
structure GptName where
  name : String
  fill : List UInt16
  no_nul : Char.ofNat 0 ∉ name.toList
  no_leading_space : ∀ c ∈ name.toList.head?, isWhiteSpace c = false
  no_trailing_space : ∀ c ∈ name.toList.getLast?, isWhiteSpace c = false
  fits : (encodeUtf16 name.toList ++ fill).length = 36
  terminated : ∀ u ∈ fill.head?, u = 0

/-- The 72 bytes of the name field. -/
def GptName.bytes (n : GptName) : List UInt8 :=
  (encodeUtf16 n.name.toList ++ n.fill).flatMap (fun u => leBytes 2 u.toNat)

/-- The union at offset 32 of an entry. -/
inductive Body : Style → Type where
  | mbr (type : UInt8) (unread : Vector UInt8 111) : Body .mbr
  | gpt (type : Guid) (unread : Vector UInt8 24) (name : GptName) : Body .gpt

def Body.bytes {style : Style} : Body style → List UInt8
  | .mbr type unread => type :: unread.toList
  | .gpt type unread name => type.bytes ++ (unread.toList ++ name.bytes)

/-- One `PARTITION_INFORMATION_EX`. -/
structure Slot (style : Style) where
  /-- The entry's own style field and padding, not read. -/
  head : Vector UInt8 8
  start : UInt64
  start_lt : start.toNat < 2 ^ 63
  length : Int64
  number : UInt32
  /-- The flags after the number, not read. -/
  flags : Vector UInt8 4
  body : Body style

/-- The 144 bytes of an entry. -/
def Slot.bytes {style : Style} (s : Slot style) : List UInt8 :=
  s.head.toList ++ (leBytes 8 s.start.toNat ++ (leBytes 8 s.length.toUInt64.toNat
    ++ (leBytes 4 s.number.toNat ++ (s.flags.toList ++ s.body.bytes))))

/-- A whole buffer. -/
structure Layout (style : Style) where
  /-- Bytes 8 to 48, not read. -/
  header : Vector UInt8 40
  slots : List (Slot style)
  count_lt : slots.length < 2 ^ 32
  /-- Whatever follows the table. -/
  trailing : List UInt8

/-- The byte buffer of a layout. -/
def encode {style : Style} (l : Layout style) : List UInt8 :=
  leBytes 4 style.code.toNat ++ (leBytes 4 l.slots.length ++ (l.header.toList
    ++ ((l.slots.map Slot.bytes).flatten ++ l.trailing)))

/-! ## §2. What a slot stands for. -/

/-- The type and name a body announces; none for an MBR entry of type zero. -/
def Body.described {style : Style} : Body style → Option (Option String × Option String)
  | .mbr type _ => if type = 0 then none else some (some (formatMbrType type), none)
  | .gpt type _ name => some (some type.text, if name.name = "" then none else some name.name)

/-- The partition a slot holds, if its length is positive and its type in use. -/
def Slot.partition {style : Style} (s : Slot style) : Option ParsedPartition :=
  if 0 < s.length.toInt then
    s.body.described.map (fun d =>
      { number := s.number
        startOffset := s.start
        length := UInt64.ofNat s.length.toInt.toNat
        typeDesc := d.1
        name := d.2 })
  else none

/-! ## §3. The union arms read back. -/

@[simp] theorem length_guid_bytes (g : Guid) : g.bytes.length = 16 := by
  simp [Guid.bytes]

theorem length_units_bytes (units : List UInt16) :
    (units.flatMap (fun u => leBytes 2 u.toNat)).length = 2 * units.length := by
  induction units with
  | nil => rfl
  | cons u units ih =>
      rw [List.flatMap_cons, List.length_append, ih, length_leBytes, List.length_cons]
      omega

@[simp] theorem length_gptName_bytes (n : GptName) : n.bytes.length = 72 := by
  unfold GptName.bytes
  rw [length_units_bytes, n.fits]

@[simp] theorem length_body_bytes {style : Style} (b : Body style) : b.bytes.length = 112 := by
  cases b with
  | mbr type unread => simp [Body.bytes]
  | gpt type unread name => simp [Body.bytes]

@[simp] theorem length_slot_bytes {style : Style} (s : Slot style) :
    s.bytes.length = ENTRY_SIZE := by
  simp [Slot.bytes, ENTRY_SIZE]

/-- Units are read back. -/
theorem unitsLe_bytes (units : List UInt16) :
    unitsLe (units.flatMap (fun u => leBytes 2 u.toNat)) = units := by
  induction units with
  | nil => rfl
  | cons u units ih =>
      show UInt16.ofNat (leValue (leBytes 2 u.toNat))
        :: unitsLe (units.flatMap (fun u => leBytes 2 u.toNat)) = u :: units
      rw [ih, leValue_leBytes 2 _ u.toNat_lt, UInt16.ofNat_toNat]

/-- The units in front of the terminator are the name's. -/
theorem takeWhile_units (n : GptName) :
    (encodeUtf16 n.name.toList ++ n.fill).takeWhile (fun u => u ≠ 0)
      = encodeUtf16 n.name.toList := by
  have hname : ∀ u ∈ encodeUtf16 n.name.toList, decide (u ≠ 0) = true := by
    intro u hu
    apply decide_eq_true
    intro h
    rw [h] at hu
    exact zero_not_mem_encodeUtf16 n.no_nul hu
  rw [List.takeWhile_append_of_pos hname]
  cases hf : n.fill with
  | nil => simp
  | cons u fill =>
      have hu : u = 0 := n.terminated u (by rw [hf]; rfl)
      rw [hu]
      simp

theorem utf16Name_bytes (n : GptName) : utf16Name n.bytes = n.name := by
  unfold utf16Name GptName.bytes
  rw [unitsLe_bytes, takeWhile_units, decodeUtf16Lossy_encodeUtf16,
    trimBy_eq_self n.no_leading_space n.no_trailing_space, String.ofList_toList]

/-- A GUID is spelled by its fields. -/
theorem guidText_bytes (g : Guid) : guidText g.bytes = g.text := by
  have h1 : slice g.bytes 0 4 = leBytes 4 g.data1.toNat :=
    slice_append (show ([] : List UInt8).length = 0 from rfl) (length_leBytes 4 _)
  have h2 : slice g.bytes 4 2 = leBytes 2 g.data2.toNat :=
    slice_append (length_leBytes 4 _) (length_leBytes 2 _)
  have h3 : slice g.bytes 6 2 = leBytes 2 g.data3.toNat := by
    unfold Guid.bytes
    rw [← List.append_assoc]
    exact slice_append (by simp) (length_leBytes 2 _)
  have hlast : g.bytes.drop 8 = g.data4.toList := by
    unfold Guid.bytes
    rw [← List.append_assoc, ← List.append_assoc]
    exact List.drop_left' (by simp)
  have h4 : slice g.bytes 8 2 = g.data4.toList.take 2 := by
    unfold slice
    rw [hlast]
  have h5 : slice g.bytes 10 6 = g.data4.toList.drop 2 := by
    unfold slice
    rw [show 10 = 8 + 2 from rfl, ← List.drop_drop, hlast]
    exact List.take_of_length_le (by simp)
  unfold guidText Guid.text
  rw [h1, h2, h3, h4, h5, ← hexUpper_leBytes, ← hexUpper_leBytes, ← hexUpper_leBytes]

/-! ## §4. One entry read back. -/

section Fields

variable {api : ReadApi} (hapi : api.Lawful)
include hapi

/-- A 4-byte field inside a record. -/
theorem leU32_field {pre post : List UInt8} {o n : Nat} (ho : pre.length = o) (hn : n < 2 ^ 32) :
    (api.leU32 (pre ++ (leBytes 4 n ++ post)) o).toNat = n := by
  have hlen : o + 4 ≤ (pre ++ (leBytes 4 n ++ post)).length := by
    simp only [List.length_append, length_leBytes]
    omega
  rw [hapi.leU32_eq _ _ hlen, slice_append ho (length_leBytes 4 n), leValue_leBytes 4 n (by omega),
    UInt32.toNat_ofNat']
  omega

/-- An 8-byte field inside a record. -/
theorem leU64_field {pre post : List UInt8} {o : Nat} (ho : pre.length = o) (n : UInt64) :
    api.leU64 (pre ++ (leBytes 8 n.toNat ++ post)) o = n := by
  have hn := n.toNat_lt
  have hlen : o + 8 ≤ (pre ++ (leBytes 8 n.toNat ++ post)).length := by
    simp only [List.length_append, length_leBytes]
    omega
  rw [hapi.leU64_eq _ _ hlen, slice_append ho (length_leBytes 8 _),
    leValue_leBytes 8 _ (by omega), UInt64.ofNat_toNat]

variable {style : Style} (s : Slot style)

theorem start_field : i64Le api s.bytes 8 = s.start.toInt64 := by
  unfold i64Le Slot.bytes
  rw [leU64_field hapi (by simp)]

theorem length_field : i64Le api s.bytes 16 = s.length := by
  unfold i64Le Slot.bytes
  rw [← List.append_assoc, leU64_field hapi (by simp)]
  exact Int64.toInt64_toUInt64 s.length

theorem number_field : api.leU32 s.bytes 24 = s.number := by
  unfold Slot.bytes
  rw [← List.append_assoc, ← List.append_assoc]
  exact UInt32.toNat_inj.mp (leU32_field hapi (by simp) s.number.toNat_lt)

end Fields

/-- The union of an entry. -/
theorem slice_body {style : Style} (s : Slot style) : s.bytes.drop 32 = s.body.bytes := by
  have hsplit : s.bytes = (s.head.toList ++ (leBytes 8 s.start.toNat
      ++ (leBytes 8 s.length.toUInt64.toNat ++ (leBytes 4 s.number.toNat ++ s.flags.toList))))
      ++ s.body.bytes := by
    simp [Slot.bytes]
  rw [hsplit]
  exact List.drop_left' (by simp)

/-- The MBR arm is read as its type byte. -/
theorem describe_mbr {api : ReadApi} {entry : List UInt8} {type : UInt8}
    {unread : Vector UInt8 111} (hbody : entry.drop 32 = (Body.mbr type unread).bytes) :
    describe api STYLE_MBR entry = (Body.mbr type unread).described := by
  have htype : entry.getD 32 0 = type := by
    rw [List.getD_eq_getElem?_getD, show 32 = 32 + 0 from rfl, ← List.getElem?_drop, hbody]
    rfl
  show (let ty := entry.getD 32 0
    if ty = 0 then none else some (some (formatMbrType ty), none)) = _
  rw [htype]
  rfl

/-- The GUID of an entry comes out as its canonical text. -/
theorem formatGuid_bytes {api : ReadApi} (hapi : api.Lawful) (g : Guid) :
    formatGuid api g.bytes = g.text := by
  unfold formatGuid
  rw [length_guid_bytes, List.take_of_length_le (by simp)]
  show api.encodeUpper (g.bytes ++ []) = g.text
  rw [List.append_nil, hapi.encodeUpper_eq _ (length_guid_bytes g), guidText_bytes]

/-- The GPT arm is read as its GUID and its name. -/
theorem describe_gpt {api : ReadApi} (hapi : api.Lawful) {entry : List UInt8} {type : Guid}
    {unread : Vector UInt8 24} {name : GptName}
    (hbody : entry.drop 32 = (Body.gpt type unread name).bytes) :
    describe api STYLE_GPT entry = (Body.gpt type unread name).described := by
  have hguid : slice entry 32 16 = type.bytes := by
    unfold slice
    rw [hbody]
    exact List.take_left' (length_guid_bytes type)
  have hname : slice entry 72 72 = name.bytes := by
    unfold slice
    rw [show 72 = 32 + 40 from rfl, ← List.drop_drop, hbody]
    show ((type.bytes ++ (unread.toList ++ name.bytes)).drop 40).take 72 = name.bytes
    rw [← List.append_assoc, List.drop_left' (by simp)]
    exact List.take_of_length_le (by simp)
  show some (some (formatGuid api (slice entry 32 16)),
    if utf16Name (slice entry 72 72) = "" then none
    else some (utf16Name (slice entry 72 72))) = _
  rw [hguid, hname, formatGuid_bytes hapi, utf16Name_bytes]
  rfl

/-- The union arm is read as what it says, for the style of the layout. -/
theorem describe_bytes {api : ReadApi} (hapi : api.Lawful) {style : Style} (s : Slot style) :
    describe api style.code s.bytes = s.body.described := by
  have hbody := slice_body s
  cases hb : s.body with
  | mbr type unread =>
      rw [hb] at hbody
      exact describe_mbr hbody
  | gpt type unread name =>
      rw [hb] at hbody
      exact describe_gpt hapi hbody

/-- A signed field, clamped below at zero. -/
theorem nonNegative_eq (x : Int64) : nonNegative x = UInt64.ofNat x.toInt.toNat := by
  have hzero : (0 : Int64).toInt = 0 := rfl
  show (if x ≤ 0 then (0 : Int64) else x).toUInt64 = UInt64.ofNat x.toInt.toNat
  by_cases h : x ≤ 0
  · have hx : x.toInt.toNat = 0 := by
      have hle := Int64.le_iff_toInt_le.mp h
      omega
    rw [if_pos h, hx]
    rfl
  · have hnn : 0 ≤ x := by
      rw [Int64.le_iff_toInt_le] at h ⊢
      omega
    rw [if_neg h, ← UInt64.toNat_inj, Int64.toNat_toUInt64_of_le hnn, Int64.toNat_toInt,
      UInt64.toNat_ofNat']
    have hlt := x.toNatClampNeg_lt
    omega

/-- Clamped to zero exactly when not positive. -/
theorem nonNegative_eq_zero_iff (x : Int64) : nonNegative x = 0 ↔ ¬ 0 < x.toInt := by
  have hlt := x.toNatClampNeg_lt
  rw [← Int64.toNat_toInt] at hlt
  rw [nonNegative_eq, ← UInt64.toNat_inj, UInt64.toNat_ofNat']
  show x.toInt.toNat % 2 ^ 64 = 0 ↔ _
  omega

/-- An offset below 2^63 survives the signed field. -/
theorem nonNegative_start {start : UInt64} (h : start.toNat < 2 ^ 63) :
    nonNegative start.toInt64 = start := by
  have hint : start.toInt64.toInt.toNat = start.toNat := by
    rw [Int64.toNat_toInt]
    have hofNat := Int64.toNatClampNeg_ofNat_of_lt h
    rw [← UInt64.toInt64_ofNat', UInt64.ofNat_toNat] at hofNat
    exact hofNat
  rw [nonNegative_eq, hint, UInt64.ofNat_toNat]

/-- **One entry read back**: kept or skipped as its length and type say. -/
theorem parseEntry_encode {api : ReadApi} (hapi : api.Lawful) {style : Style} (s : Slot style) :
    parseEntry api style.code s.bytes = s.partition := by
  unfold parseEntry Slot.partition
  rw [length_field hapi, start_field hapi, number_field hapi, describe_bytes hapi,
    nonNegative_start s.start_lt]
  by_cases h : 0 < s.length.toInt
  · have hne : ¬ nonNegative s.length = 0 := fun hz => (nonNegative_eq_zero_iff _).mp hz h
    rw [if_pos h]
    show (if nonNegative s.length = 0 then none else _) = _
    rw [if_neg hne, nonNegative_eq]
  · have hz : nonNegative s.length = 0 := (nonNegative_eq_zero_iff _).mpr h
    rw [if_neg h]
    show (if nonNegative s.length = 0 then none else _) = _
    rw [if_pos hz]

/-! ## §5. The layout read back. -/

theorem length_encode {style : Style} (l : Layout style) :
    (encode l).length
      = PARTITION_ENTRY_OFFSET + l.slots.length * ENTRY_SIZE + l.trailing.length := by
  have hslots : (l.slots.map Slot.bytes).flatten.length = l.slots.length * ENTRY_SIZE := by
    induction l.slots with
    | nil => rfl
    | cons s slots ih =>
        rw [List.map_cons, List.flatten_cons, List.length_append, length_slot_bytes, ih,
          List.length_cons, Nat.succ_mul, Nat.add_comm]
  unfold encode PARTITION_ENTRY_OFFSET
  simp only [List.length_append, length_leBytes, Vector.length_toList, hslots]
  omega

section Layout

variable {api : ReadApi} (hapi : api.Lawful) {style : Style} (l : Layout style)
include hapi

theorem style_field : api.leU32 (encode l) 0 = style.code :=
  UInt32.toNat_inj.mp
    (leU32_field hapi (show ([] : List UInt8).length = 0 from rfl) style.code.toNat_lt)

theorem count_field : (api.leU32 (encode l) 4).toNat = l.slots.length :=
  leU32_field hapi (length_leBytes 4 _) l.count_lt

theorem parseDriveLayout_fields :
    parseDriveLayout api (encode l)
      = { style := style.code
          partitions := parseEntries api (encode l) style.code 0 l.slots.length } := by
  have hlen : ¬ (encode l).length < 8 := by
    rw [length_encode]
    unfold PARTITION_ENTRY_OFFSET
    omega
  unfold parseDriveLayout
  rw [if_neg hlen]
  show ({ style := api.leU32 (encode l) 0
          partitions := parseEntries api (encode l) (api.leU32 (encode l) 0) 0
            (api.leU32 (encode l) 4).toNat } : ParsedLayout) = _
  rw [style_field hapi, count_field hapi]

/-- The loop returns what the slots hold. -/
theorem partitions_encode :
    (parseDriveLayout api (encode l)).partitions = l.slots.filterMap Slot.partition := by
  -- the table starts after the 48 bytes in front of it
  have hloop := parseEntries_flatten api style.code l.trailing (l.slots.map Slot.bytes)
    (leBytes 4 style.code.toNat ++ (leBytes 4 l.slots.length ++ l.header.toList)) 0
    (by simp [PARTITION_ENTRY_OFFSET])
    (by
      intro e he
      obtain ⟨s, _, hs⟩ := List.mem_map.mp he
      rw [← hs]
      exact length_slot_bytes s)
  rw [List.append_assoc, List.append_assoc, List.length_map] at hloop
  rw [parseDriveLayout_fields hapi]
  unfold encode
  rw [hloop, List.filterMap_map]
  apply List.filterMap_congr
  intro s _
  exact parseEntry_encode hapi s

end Layout

/-- **EVERY PARTITION IS RECOVERED.**  For both styles and every table of slots, the parser
returns the style and, in table order, exactly the partitions the slots hold. -/
theorem parseDriveLayout_encode (api : ReadApi) (hapi : api.Lawful) (style : Style)
    (l : Layout style) :
    parseDriveLayout api (encode l)
      = { style := style.code, partitions := l.slots.filterMap Slot.partition } := by
  have hparts := partitions_encode hapi l
  have hfields := parseDriveLayout_fields hapi l
  rw [hfields] at hparts ⊢
  rw [← hparts]

/-- A name of 5 units, a terminator, and 30 stale units after it. -/
def basicName : GptName :=
  { name := "Basic"
    fill := 0 :: List.replicate 30 0xFFFF
    no_nul := by decide
    no_leading_space := by
      intro c hc
      injection hc with hc
      rw [← hc]
      decide
    no_trailing_space := by
      intro c hc
      injection hc with hc
      rw [← hc]
      decide
    fits := by decide
    terminated := by
      intro u hu
      injection hu with hu
      exact hu.symm }

/-- The GUID of a Basic Data Partition. -/
def basicData : Guid :=
  { data1 := 0xEBD0A0A2
    data2 := 0xB9E5
    data3 := 0x4433
    data4 := #v[0x87, 0xC0, 0x68, 0xB6, 0xB7, 0x26, 0x99, 0xC7] }

/-- A slot for `basicName`. -/
def basicSlot (length : Int64) (number : UInt32) : Slot .gpt :=
  { head := Vector.replicate 8 0
    start := 1048576
    start_lt := by decide
    length := length
    number := number
    flags := Vector.replicate 4 0
    body := .gpt basicData (Vector.replicate 24 0) basicName }

/-- An empty slot, a negative length and a used slot, with a byte left over. -/
def sampleLayout : Layout .gpt :=
  { header := Vector.replicate 40 7
    slots := [basicSlot 0 1, basicSlot (-1) 2, basicSlot 268435456 3]
    count_lt := by decide
    trailing := [1] }

theorem parseDriveLayout_encode_sample :
    parseDriveLayout referenceApi (encode sampleLayout)
      = { style := STYLE_GPT
          partitions :=
            [{ number := 3
               startOffset := 1048576
               length := 268435456
               typeDesc := some "EBD0A0A2-B9E5-4433-87C0-68B6B72699C7"
               name := some "Basic" }] } :=
  (parseDriveLayout_encode referenceApi referenceApi_lawful .gpt sampleLayout).trans (by decide)

end LivediskForensic.DriveLayout
