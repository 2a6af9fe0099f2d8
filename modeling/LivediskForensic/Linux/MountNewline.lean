/-
  LivediskForensic.Linux.MountNewline — WHEN A MOUNT POINT HAS A LINE FEED.

  A field of the table holds no white space, but the octal escape `\012` stands
  for a line feed and is decoded to one.  It is the only text that is
  (`newline_mem_decodeOctalLoop_iff`), so whether the mount point of a partition
  holds a line feed can be read off the table itself (`newline_mem_mountPoint_iff`).
-/
import LivediskForensic.Linux.MountLookup

namespace LivediskForensic.Sysfs

open LivediskForensic.Lib

/-! ## §1. The escape of a line feed. -/

/-- `\012`. -/
def NEWLINE_ESCAPE : List Char := ['\\', '0', '1', '2']

theorem isOctalDigit_spec {d : Char} (h : isOctalDigit d = true) :
    48 ≤ d.toNat ∧ d.toNat ≤ 55 ∧ d.utf8Size = 1 ∧ d ≠ '\\' := by
  unfold isOctalDigit at h
  rw [Bool.and_eq_true, decide_eq_true_eq, decide_eq_true_eq] at h
  have hlo : 48 ≤ d.toNat := h.1
  have hhi : d.toNat ≤ 55 := h.2
  have hsize : d.utf8Size = 1 := by
    unfold Char.utf8Size
    rw [if_pos]
    show d.toNat ≤ 127
    omega
  refine ⟨hlo, hhi, hsize, ?_⟩
  intro hbs
  rw [hbs] at hhi
  exact absurd hhi (by decide)

/-- An escape is three octal digits, and the byte they spell. -/
theorem decodedEscape_eq_some {ahead : List Char} {byte : Char}
    (h : decodedEscape ahead = some byte) :
    ∃ a b c rest, ahead = a :: b :: c :: rest ∧ isOctalDigit a = true ∧ isOctalDigit b = true
      ∧ isOctalDigit c = true
      ∧ byte = Char.ofNat (64 * (a.toNat - 48) + 8 * (b.toNat - 48) + (c.toNat - 48))
      ∧ 64 * (a.toNat - 48) + 8 * (b.toNat - 48) + (c.toNat - 48) < 256 := by
  have hbranch : ((ahead.take 3).map Char.utf8Size).sum = 3
      ∧ (ahead.take 3).all isOctalDigit = true := by
    by_contra hnot
    unfold decodedEscape at h
    rw [if_neg hnot] at h
    exact absurd h (by simp)
  -- every octal digit is one byte long, so there are three of them
  have hlen : (ahead.take 3).length = 3 := by
    have hone : (ahead.take 3).map Char.utf8Size = (ahead.take 3).map (fun _ => 1) := by
      apply List.map_congr_left
      intro d hd
      exact (isOctalDigit_spec (List.all_eq_true.mp hbranch.2 d hd)).2.2.1
    have hsum := hbranch.1
    rw [hone, List.map_const', List.sum_replicate_nat, Nat.mul_one] at hsum
    exact hsum
  rw [List.length_take] at hlen
  match ahead, hlen with
  | a :: b :: c :: rest, _ =>
      have hall : isOctalDigit a = true ∧ isOctalDigit b = true ∧ isOctalDigit c = true := by
        simpa using hbranch.2
      unfold decodedEscape at h
      rw [if_pos hbranch] at h
      have hvalue : ((a :: b :: c :: rest).take 3).foldl
            (fun acc d => 8 * acc + (d.toNat - '0'.toNat)) 0
          = 64 * (a.toNat - 48) + 8 * (b.toNat - 48) + (c.toNat - 48) := by
        show 8 * (8 * (8 * 0 + (a.toNat - 48)) + (b.toNat - 48)) + (c.toNat - 48) = _
        omega
      simp only [hvalue] at h
      by_cases hlt : 64 * (a.toNat - 48) + 8 * (b.toNat - 48) + (c.toNat - 48) < 256
      · rw [if_pos hlt, Option.some.injEq] at h
        exact ⟨a, b, c, rest, rfl, hall.1, hall.2.1, hall.2.2, h.symm, hlt⟩
      · rw [if_neg hlt] at h
        exact absurd h (by simp)

/-- Among the escapes only `012` stands for a line feed. -/
theorem decodedEscape_newline_iff {ahead : List Char} :
    decodedEscape ahead = some '\n' ↔ ['0', '1', '2'] <+: ahead := by
  constructor
  · intro h
    obtain ⟨a, b, c, rest, rfl, ha, hb, hc, hbyte, hlt⟩ := decodedEscape_eq_some h
    have hv := congrArg Char.toNat hbyte.symm
    rw [toNat_ofNat (Or.inl (by omega))] at hv
    change _ = 10 at hv
    obtain ⟨ha0, ha7, -, -⟩ := isOctalDigit_spec ha
    obtain ⟨hb0, hb7, -, -⟩ := isOctalDigit_spec hb
    obtain ⟨hc0, hc7, -, -⟩ := isOctalDigit_spec hc
    have ha : a = '0' := Char.toNat_inj.mp (by show a.toNat = 48; omega)
    have hb : b = '1' := Char.toNat_inj.mp (by show b.toNat = 49; omega)
    have hc : c = '2' := Char.toNat_inj.mp (by show c.toNat = 50; omega)
    rw [ha, hb, hc]
    exact ⟨rest, rfl⟩
  · rintro ⟨rest, rfl⟩
    rfl

/-- The digits of an escape are no backslashes. -/
theorem backslash_not_mem_take {ahead : List Char} {byte : Char}
    (h : decodedEscape ahead = some byte) : '\\' ∉ ahead.take 3 := by
  obtain ⟨x, y, z, rest, hs, hx, hy, hz, -, -⟩ := decodedEscape_eq_some h
  rw [hs]
  show '\\' ∉ [x, y, z]
  simp only [List.mem_cons, List.not_mem_nil, or_false, not_or]
  exact ⟨fun h => (isOctalDigit_spec hx).2.2.2 h.symm, fun h => (isOctalDigit_spec hy).2.2.2 h.symm,
    fun h => (isOctalDigit_spec hz).2.2.2 h.symm⟩

/-- The escape of a line feed stands in front, or in the rest. -/
theorem escape_infix_cons_iff {c : Char} {s : List Char} : NEWLINE_ESCAPE <:+: c :: s
    ↔ (c = '\\' ∧ decodedEscape s = some '\n') ∨ NEWLINE_ESCAPE <:+: s := by
  have hfirst : NEWLINE_ESCAPE <+: c :: s ↔ c = '\\' ∧ ['0', '1', '2'] <+: s := by
    unfold NEWLINE_ESCAPE
    rw [List.cons_prefix_cons, eq_comm]
  rw [List.infix_cons_iff, hfirst, decodedEscape_newline_iff]

/-- **Only the escape `\012` is decoded to a line feed.** -/
theorem newline_mem_decodeOctalLoop_iff (s : List Char) : ∀ skip : Nat, '\n' ∉ s →
    '\\' ∉ s.take skip → ('\n' ∈ decodeOctalLoop skip s ↔ NEWLINE_ESCAPE <:+: s) := by
  induction s with
  | nil =>
      intro skip _ _
      have hnil : decodeOctalLoop skip [] = [] := by
        cases skip <;> rfl
      rw [hnil]
      decide
  | cons c s ih =>
      intro skip hnl hbs
      rw [List.mem_cons, not_or] at hnl
      rw [escape_infix_cons_iff]
      cases skip with
      | succ skip =>
          -- a digit of the escape before is no backslash
          rw [List.take_succ_cons, List.mem_cons, not_or] at hbs
          show '\n' ∈ decodeOctalLoop skip s ↔ _
          rw [ih skip hnl.2 hbs.2]
          exact ⟨Or.inr, fun h => h.resolve_left (fun h' => hbs.1 h'.1.symm)⟩
      | zero =>
          have hrest := ih 0 hnl.2 (by simp)
          by_cases hc : c = '\\'
          · subst hc
            cases hesc : decodedEscape s with
            | some byte =>
                rw [decodeOctalLoop_decode hesc, List.mem_cons,
                  ih 3 hnl.2 (backslash_not_mem_take hesc), Option.some.injEq, eq_comm,
                  and_iff_right rfl]
            | none =>
                rw [decodeOctalLoop_keep hesc, List.mem_cons, hrest]
                simp
          · rw [decodeOctalLoop_copy hc, List.mem_cons, hrest]
            simp [hc, hnl.1]

theorem newline_mem_decodeOctal_iff {field : List Char} (h : '\n' ∉ field) :
    '\n' ∈ (decodeOctal (String.ofList field)).toList ↔ NEWLINE_ESCAPE <:+: field := by
  unfold decodeOctal
  rw [String.toList_ofList, String.toList_ofList]
  exact newline_mem_decodeOctalLoop_iff field 0 h (by simp)

/-! ## §2. The field of a device. -/

/-- The mount-point field of a line for the device, as it stands in the table. -/
def fieldOfLine (name : String) (line : List Char) : Option (List Char) :=
  match wordsBy isWhiteSpace line with
  | dev :: mount :: _ :: _ => if dev = ("/dev/" ++ name).toList then some mount else none
  | _ => none

/-- The mount-point field of the first line for a device. -/
def mountField (content name : String) : Option (List Char) :=
  (lines content.toList).findSome? (fieldOfLine name)

theorem fieldOfLine_eq_some {name : String} {line mount : List Char} :
    fieldOfLine name line = some mount
      ↔ ∃ fs rest, wordsBy isWhiteSpace line = ("/dev/" ++ name).toList :: mount :: fs :: rest := by
  unfold fieldOfLine
  match wordsBy isWhiteSpace line with
  | [] => simp
  | [_] => simp
  | [_, _] => simp
  | dev :: mount' :: fs :: rest =>
      show (if dev = ("/dev/" ++ name).toList then some mount' else none) = some mount ↔ _
      by_cases hdev : dev = ("/dev/" ++ name).toList
      · rw [if_pos hdev, hdev]
        simp
      · rw [if_neg hdev]
        constructor
        · intro h
          exact absurd h (by simp)
        · rintro ⟨fs', rest', h⟩
          injection h with hhead
          exact absurd hhead hdev

/-- A line gives its field exactly when the parser takes it as an entry of the device. -/
theorem fieldOfLine_eq_of_parse {name : String} {line : List Char} :
    (fieldOfLine name line).map (fun field => decodeOctal (String.ofList field))
      = ((parseMountLine line).filter (fun m => m.1 == name)).map (fun m => m.2.1) := by
  cases hf : fieldOfLine name line with
  | some mount =>
      obtain ⟨fs, rest, hwords⟩ := fieldOfLine_eq_some.mp hf
      rw [parseMountLine_of_words hwords, Option.filter_some, if_pos (beq_self_eq_true name)]
      rfl
  | none =>
      cases hp : parseMountLine line with
      | none => rfl
      | some m =>
          obtain ⟨mount, fs, rest, hwords, -, -⟩ := words_of_parseMountLine hp
          have hne : ¬ (m.1 == name) = true := by
            intro heq
            rw [beq_iff_eq] at heq
            rw [heq] at hwords
            have hsome := fieldOfLine_eq_some.mpr ⟨fs, rest, hwords⟩
            rw [hf] at hsome
            exact absurd hsome (by simp)
          rw [Option.filter_some, if_neg hne]
          rfl

/-- **The lookup decodes the field of the first line for the device.** -/
theorem lookup_parseMounts (content name : String) :
    (lookup (parseMounts content) name).map Prod.fst
      = (mountField content name).map (fun field => decodeOctal (String.ofList field)) := by
  unfold lookup parseMounts mountField
  -- both sides are the first of a list, line by line the same
  rw [Option.map_map, ← List.head?_filter, ← List.head?_map, List.filter_filterMap,
    List.map_filterMap, ← List.head?_filterMap, ← List.head?_map, List.map_filterMap]
  congr 2
  funext line
  exact fieldOfLine_eq_of_parse.symm

/-- A field of the table holds no line feed. -/
theorem newline_not_mem_mountField {content name : String} {field : List Char}
    (h : mountField content name = some field) : '\n' ∉ field := by
  obtain ⟨line, -, hline⟩ := List.exists_of_findSome?_eq_some h
  obtain ⟨fs, rest, hwords⟩ := fieldOfLine_eq_some.mp hline
  intro hnl
  have hmem : field ∈ wordsBy isWhiteSpace line := by
    rw [hwords]
    exact List.mem_cons_of_mem _ List.mem_cons_self
  exact absurd (eq_false_of_mem_wordsBy hmem '\n' hnl) (by decide)

/-- **When a mount point has a line feed**: its field in the table has the escape of one. -/
theorem newline_mem_mountPoint_iff {content : String} {p : RawPart} :
    (∃ m, (buildPartition (parseMounts content) p).mountPoint = some m ∧ '\n' ∈ m.toList)
      ↔ ∃ field, mountField content p.name = some field ∧ NEWLINE_ESCAPE <:+: field := by
  show (∃ m, (lookup (parseMounts content) p.name).map Prod.fst = some m ∧ _) ↔ _
  rw [lookup_parseMounts]
  cases hf : mountField content p.name with
  | none => simp
  | some field =>
      have hiff := newline_mem_decodeOctal_iff (newline_not_mem_mountField hf)
      simp only [Option.map_some, Option.some.injEq, exists_eq_left', hiff]

end LivediskForensic.Sysfs
