/-
  LivediskForensic.Linux.MountEncoding — THE KERNEL'S SIDE OF `/proc/mounts`,
  and what the parser recovers of it.

  The kernel writes one line per mount, the fields separated by one space,
  and in every field exactly space, tab, newline, backslash and '#' as a
  backslash with three octal digits.  `parse_mounts` splits at every Unicode
  white space and decodes the mount point only.  Hence:

      decodeOctalLoop_escapeWith  — decoding undoes the escaping of ANY set of
                                    byte-sized characters with the backslash
      parseMounts_renderTable     — the table is recovered, the mount points
                                    in their original spelling, device and
                                    fstype in their escaped spelling, as long
                                    as no white space stands unescaped
-/
import LivediskForensic.Linux.MountLookup
import Mathlib.Data.Bool.AllAny

namespace LivediskForensic.Sysfs

open LivediskForensic.Lib

/-! ## §1. Octal escaping and its decoder. -/

def octalDigit (n : Nat) : Char := Char.ofNat ('0'.toNat + n)

/-- A backslash and the three-digit octal code. -/
def octalEscape (c : Char) : List Char :=
  ['\\', octalDigit (c.toNat / 64), octalDigit (c.toNat / 8 % 8), octalDigit (c.toNat % 8)]

/-- Escape the characters of `E`, copy the others. -/
def escapeWith (E : Char → Bool) (s : List Char) : List Char :=
  s.flatMap (fun c => if E c then octalEscape c else [c])

theorem escapeWith_cons_pos {E : Char → Bool} {c : Char} (h : E c = true) (s : List Char) :
    escapeWith E (c :: s) = octalEscape c ++ escapeWith E s := by
  simp [escapeWith, h]

theorem escapeWith_cons_neg {E : Char → Bool} {c : Char} (h : E c = false) (s : List Char) :
    escapeWith E (c :: s) = c :: escapeWith E s := by
  simp [escapeWith, h]

/-- What the decoder needs to know of an octal digit. -/
theorem octalDigit_spec : ∀ k : Nat, k < 8 →
    (octalDigit k).utf8Size = 1 ∧ isOctalDigit (octalDigit k) = true
      ∧ (octalDigit k).toNat - '0'.toNat = k ∧ isWhiteSpace (octalDigit k) = false
      ∧ octalDigit k ≠ '\n' := by
  decide

/-- The lookahead recognises an escape written by `octalEscape`. -/
theorem decodedEscape_octal {c : Char} (hc : c.toNat < 256) (rest : List Char) :
    decodedEscape (octalDigit (c.toNat / 64) :: octalDigit (c.toNat / 8 % 8)
      :: octalDigit (c.toNat % 8) :: rest) = some c := by
  obtain ⟨s₂, o₂, v₂, _, _⟩ := octalDigit_spec (c.toNat / 64) (by omega)
  obtain ⟨s₁, o₁, v₁, _, _⟩ := octalDigit_spec (c.toNat / 8 % 8) (by omega)
  obtain ⟨s₀, o₀, v₀, _, _⟩ := octalDigit_spec (c.toNat % 8) (by omega)
  have hvalue : 8 * (8 * (8 * 0 + c.toNat / 64) + c.toNat / 8 % 8) + c.toNat % 8 = c.toNat := by
    omega
  unfold decodedEscape
  simp only [List.take_succ_cons, List.take_zero, List.map_cons, List.map_nil, List.sum_cons,
    List.sum_nil, List.all_cons, List.all_nil, List.foldl_cons, List.foldl_nil, s₀, s₁, s₂,
    o₀, o₁, o₂, v₀, v₁, v₂, hvalue]
  rw [if_pos ⟨rfl, rfl⟩, if_pos hc, Char.ofNat_toNat]

/-- **Decoding undoes escaping**, each escape once: lookahead and consumption stay aligned. -/
theorem decodeOctalLoop_escapeWith {E : Char → Bool} (hbs : E '\\' = true)
    (hbyte : ∀ c, E c = true → c.toNat < 256) :
    ∀ s : List Char, decodeOctalLoop 0 (escapeWith E s) = s
  | [] => rfl
  | c :: s => by
      have ih := decodeOctalLoop_escapeWith hbs hbyte s
      cases hE : E c with
      | true =>
          rw [escapeWith_cons_pos hE]
          show decodeOctalLoop 0 ('\\' :: octalDigit (c.toNat / 64)
            :: octalDigit (c.toNat / 8 % 8) :: octalDigit (c.toNat % 8) :: escapeWith E s) = _
          rw [decodeOctalLoop_decode (decodedEscape_octal (hbyte c hE) _)]
          -- the three digits are passed over
          show c :: decodeOctalLoop 0 (escapeWith E s) = c :: s
          rw [ih]
      | false =>
          have hne : c ≠ '\\' := by
            intro h
            rw [h, hbs] at hE
            exact absurd hE (by simp)
          rw [escapeWith_cons_neg hE, decodeOctalLoop_copy hne, ih]

/-- Text without a backslash is copied. -/
theorem decodeOctalLoop_of_no_backslash :
    ∀ s : List Char, '\\' ∉ s → decodeOctalLoop 0 s = s
  | [], _ => rfl
  | c :: s, h => by
      have hc : c ≠ '\\' := fun he => h (by rw [he]; exact List.mem_cons_self)
      have ih := decodeOctalLoop_of_no_backslash s (fun hm => h (List.mem_cons_of_mem c hm))
      rw [decodeOctalLoop_copy hc, ih]

/-- The escaped backslash is consumed as a whole; the decoder goes on behind it. -/
theorem decodeOctalLoop_backslash (t : List Char) :
    decodeOctalLoop 0 ('\\' :: '1' :: '3' :: '4' :: t) = '\\' :: decodeOctalLoop 0 t := by
  have hahead : decodedEscape ('1' :: '3' :: '4' :: t) = some '\\' :=
    decodedEscape_octal (c := '\\') (by decide) t
  rw [decodeOctalLoop_decode hahead]
  rfl

/-- **`decode_octal` UNDOES OCTAL ESCAPING, AND DECODES EACH ESCAPE ONCE.**  For every set `E`
of byte-sized characters with the backslash the text comes back; what follows an escaped
backslash is decoded on its own, and octal digits there stay literal. -/
theorem decodeOctal_escapeWith (E : Char → Bool) (hbs : E '\\' = true)
    (hbyte : ∀ c, E c = true → c.toNat ≤ 0xff) :
    (∀ s : String, decodeOctal (String.ofList (escapeWith E s.toList)) = s)
      ∧ (∀ t : String, decodeOctal ("\\134" ++ t) = "\\" ++ decodeOctal t)
      ∧ (∀ digits : String, (∀ d ∈ digits.toList, isOctalDigit d = true) →
          decodeOctal ("\\134" ++ digits) = "\\" ++ digits) := by
  have honce : ∀ t : String, decodeOctal ("\\134" ++ t) = "\\" ++ decodeOctal t := by
    intro t
    have htext : ("\\134" ++ t).toList = '\\' :: '1' :: '3' :: '4' :: t.toList :=
      String.toList_append
    unfold decodeOctal
    rw [htext, decodeOctalLoop_backslash, ← String.toList_inj, String.toList_append]
    simp
  refine ⟨?_, honce, ?_⟩
  · intro s
    unfold decodeOctal
    rw [String.toList_ofList, decodeOctalLoop_escapeWith hbs
      (fun c hc => Nat.lt_succ_of_le (hbyte c hc)), String.ofList_toList]
  · intro digits hdigits
    have hno : '\\' ∉ digits.toList := by
      intro hm
      exact absurd (hdigits '\\' hm) (by decide)
    have hcopy : decodeOctal digits = digits := by
      unfold decodeOctal
      rw [decodeOctalLoop_of_no_backslash _ hno, String.ofList_toList]
    rw [honce, hcopy]

/-- Every byte-sized character escaped, and an escaped backslash in front of `040`. -/
theorem decodeOctal_escapeWith_bytes :
    decodeOctal (String.ofList (escapeWith (fun x => decide (x.toNat ≤ 0xff)) "a\\040 é".toList))
        = "a\\040 é"
      ∧ decodeOctal ("\\134" ++ "040") = "\\" ++ "040" := by
  have h := decodeOctal_escapeWith (fun x => decide (x.toNat ≤ 0xff)) (by decide)
    (fun x hx => of_decide_eq_true hx)
  exact ⟨h.1 _, h.2.2 "040" (List.all_iff_forall_prop.mp (by decide))⟩

/-- A prefix that needs no escaping is seen through the escaping. -/
theorem stripPrefix_escapeWith {E : Char → Bool} :
    ∀ (pre : List Char), (∀ c ∈ pre, E c = false ∧ c ≠ '\\') → ∀ s : List Char,
      stripPrefix pre (escapeWith E s) = (stripPrefix pre s).map (escapeWith E)
  | [], _, s => rfl
  | p :: pre, h, [] => rfl
  | p :: pre, h, c :: s => by
      obtain ⟨hp, hbs⟩ := h p List.mem_cons_self
      have ih := stripPrefix_escapeWith pre (fun x hx => h x (List.mem_cons_of_mem _ hx)) s
      cases hE : E c with
      | true =>
          have hne : p ≠ c := by
            intro he
            rw [he, hE] at hp
            exact absurd hp (by simp)
          rw [escapeWith_cons_pos hE]
          show (if p = '\\' then _ else none) = Option.map _ (if p = c then _ else none)
          rw [if_neg hbs, if_neg hne]
          rfl
      | false =>
          rw [escapeWith_cons_neg hE]
          show (if p = c then stripPrefix pre (escapeWith E s) else none)
            = Option.map _ (if p = c then stripPrefix pre s else none)
          by_cases hpc : p = c
          · rw [if_pos hpc, if_pos hpc, ih]
          · rw [if_neg hpc, if_neg hpc]
            rfl

/-! ## §2. The kernel's table. -/

/-- The characters the kernel escapes in a field. -/
def mangled (c : Char) : Bool := c == ' ' || c == '\t' || c == '\n' || c == '\\' || c == '#'

/-- One mount, as the kernel knows it. -/
structure MountEntry where
  device : String
  mountPoint : String
  fstype : String
  options : String
  device_ne : device ≠ ""
  mountPoint_ne : mountPoint ≠ ""
  fstype_ne : fstype ≠ ""
  options_ne : options ≠ ""

/-- A field as the kernel writes it. -/
def renderField (s : String) : List Char := escapeWith mangled s.toList

/-- A line of the table, without its newline. -/
def renderLine (e : MountEntry) : List Char :=
  renderField e.device ++ ' ' :: (renderField e.mountPoint ++ ' '
    :: (renderField e.fstype ++ ' ' :: renderField e.options))

/-- The text of `/proc/mounts`. -/
def renderTable (entries : List MountEntry) : String :=
  String.ofList (entries.flatMap (fun e => renderLine e ++ ['\n']))

/-- Every white space of the field is one the kernel escapes. -/
def SpacesEscaped (s : String) : Prop :=
  ∀ c ∈ s.toList, isWhiteSpace c = true → mangled c = true

theorem mangled_byte {c : Char} (h : mangled c = true) : c.toNat < 256 := by
  simp only [mangled, Bool.or_eq_true, beq_iff_eq] at h
  rcases h with (((h | h) | h) | h) | h <;> subst h <;> decide

/-- The characters an escape consists of are no separators. -/
theorem mem_octalEscape {c x : Char} (hc : c.toNat < 256) (hx : x ∈ octalEscape c) :
    isWhiteSpace x = false ∧ x ≠ '\n' := by
  obtain ⟨_, _, _, w₂, n₂⟩ := octalDigit_spec (c.toNat / 64) (by omega)
  obtain ⟨_, _, _, w₁, n₁⟩ := octalDigit_spec (c.toNat / 8 % 8) (by omega)
  obtain ⟨_, _, _, w₀, n₀⟩ := octalDigit_spec (c.toNat % 8) (by omega)
  simp only [octalEscape, List.mem_cons, List.not_mem_nil, or_false] at hx
  rcases hx with h | h | h | h
  · subst h
    decide
  · exact h ▸ ⟨w₂, n₂⟩
  · exact h ▸ ⟨w₁, n₁⟩
  · exact h ▸ ⟨w₀, n₀⟩

/-- A character of a rendered field comes from an escape, or was copied. -/
theorem mem_renderField {s : String} {x : Char} (hx : x ∈ renderField s) :
    (isWhiteSpace x = false ∧ x ≠ '\n') ∨ (x ∈ s.toList ∧ mangled x = false) := by
  obtain ⟨c, hc, hxc⟩ := List.mem_flatMap.mp hx
  cases hm : mangled c with
  | true =>
      rw [hm, if_pos rfl] at hxc
      exact Or.inl (mem_octalEscape (mangled_byte hm) hxc)
  | false =>
      rw [hm, if_neg (by simp), List.mem_singleton] at hxc
      exact Or.inr (hxc ▸ ⟨hc, hm⟩)

theorem newline_not_mem_renderField (s : String) : '\n' ∉ renderField s := by
  intro h
  rcases mem_renderField h with hesc | hcopy
  · exact hesc.2 rfl
  · exact absurd hcopy.2 (by decide)

theorem renderField_ne_nil {s : String} (h : s ≠ "") : renderField s ≠ [] := by
  intro he
  cases hs : s.toList with
  | nil => exact h (String.toList_inj.mp (hs.trans (by decide)))
  | cons c cs =>
      unfold renderField at he
      rw [hs] at he
      cases hm : mangled c with
      | true =>
          rw [escapeWith_cons_pos hm] at he
          exact absurd he (by simp [octalEscape])
      | false =>
          rw [escapeWith_cons_neg hm] at he
          exact absurd he (by simp)

theorem renderField_no_space {s : String} (h : SpacesEscaped s) :
    ∀ x ∈ renderField s, isWhiteSpace x = false := by
  intro x hx
  rcases mem_renderField hx with hesc | hcopy
  · exact hesc.1
  · cases hw : isWhiteSpace x with
    | false => rfl
    | true =>
        have hm := h x hcopy.1 hw
        rw [hcopy.2] at hm
        exact absurd hm (by simp)

/-- The lines of the rendered table, up to a carriage return at the end of the options. -/
theorem lines_renderTable (entries : List MountEntry) :
    lines (renderTable entries).toList = entries.map (fun e => dropCr (renderLine e)) := by
  have hflat : (renderTable entries).toList
      = (entries.map renderLine).flatMap (fun l => l ++ ['\n']) := by
    unfold renderTable
    rw [String.toList_ofList, List.flatMap_map]
  rw [hflat, lines_flatMap_newline, List.map_map]
  · rfl
  · intro l hl
    obtain ⟨e, _, he⟩ := List.mem_map.mp hl
    subst he
    have hd := newline_not_mem_renderField e.device
    have hm := newline_not_mem_renderField e.mountPoint
    have hf := newline_not_mem_renderField e.fstype
    have ho := newline_not_mem_renderField e.options
    simp [renderLine, hd, hm, hf, ho]

/-! ## §3. What the parser recovers. -/

/-- The parse of a line depends on its words only. -/
theorem parseMountLine_dropCr (l : List Char) : parseMountLine (dropCr l) = parseMountLine l := by
  unfold parseMountLine
  rw [words_dropCr]

/-- No white space of the device stands unescaped, nor of the other two fields that are read
when the device lies under `/dev/`. -/
def Parseable (e : MountEntry) : Prop :=
  SpacesEscaped e.device
    ∧ ("/dev/".toList <+: e.device.toList → SpacesEscaped e.mountPoint ∧ SpacesEscaped e.fstype)

/-- The entry as `parse_mounts` reports it: device and fstype still escaped. -/
def reported (e : MountEntry) : Option (String × String × String) :=
  (stripPrefix "/dev/".toList e.device.toList).map (fun dev =>
    (String.ofList (escapeWith mangled dev), e.mountPoint, String.ofList (renderField e.fstype)))

theorem decodeOctal_renderField (s : String) :
    decodeOctal (String.ofList (renderField s)) = s := by
  unfold decodeOctal renderField
  rw [String.toList_ofList,
    decodeOctalLoop_escapeWith (by decide) (fun c hc => mangled_byte hc), String.ofList_toList]

theorem stripPrefix_renderField (s : String) :
    stripPrefix "/dev/".toList (renderField s)
      = (stripPrefix "/dev/".toList s.toList).map (escapeWith mangled) :=
  stripPrefix_escapeWith _ (List.all_iff_forall_prop.mp (by decide)) _

/-- One line of the table, read back. -/
theorem parseMountLine_renderLine (e : MountEntry) (h : Parseable e) :
    parseMountLine (renderLine e) = reported e := by
  have hdev : wordsBy isWhiteSpace (renderLine e) = renderField e.device
      :: wordsBy isWhiteSpace (renderField e.mountPoint ++ ' '
        :: (renderField e.fstype ++ ' ' :: renderField e.options)) :=
    wordsBy_cons_word (renderField_ne_nil e.device_ne) (renderField_no_space h.1)
      isWhiteSpace_space _
  unfold reported
  cases hstrip : stripPrefix "/dev/".toList e.device.toList with
  | none =>
      -- the first field is not under `/dev/`, so the line is skipped whatever follows
      have hfield : stripPrefix "/dev/".toList (renderField e.device) = none := by
        rw [stripPrefix_renderField, hstrip]
        rfl
      unfold parseMountLine
      rw [hdev]
      show ((stripPrefix "/dev/".toList (renderField e.device)).bind _) = _
      rw [hfield]
      rfl
  | some dev =>
      have hpre : "/dev/".toList <+: e.device.toList := ⟨dev, (stripPrefix_eq_some.mp hstrip).symm⟩
      obtain ⟨hmp, hfs⟩ := h.2 hpre
      have hname : renderField e.device
          = ("/dev/" ++ String.ofList (escapeWith mangled dev)).toList := by
        have hs := stripPrefix_renderField e.device
        rw [hstrip, Option.map_some, stripPrefix_eq_some] at hs
        rw [hs, String.toList_append]
        simp
      have hwords := hdev
      rw [hname, wordsBy_cons_word (renderField_ne_nil e.mountPoint_ne) (renderField_no_space hmp)
          isWhiteSpace_space,
        wordsBy_cons_word (renderField_ne_nil e.fstype_ne) (renderField_no_space hfs)
          isWhiteSpace_space] at hwords
      rw [parseMountLine_of_words hwords, decodeOctal_renderField]
      rfl

/-- **THE TABLE READ BACK.**  When no white space of the fields that are read stands unescaped,
`parse_mounts` returns, in order, exactly the entries whose device lies under `/dev/`: the mount
point in its original spelling, the device (without the prefix) and the fstype as the kernel
wrote them. -/
theorem parseMounts_renderTable (entries : List MountEntry) (h : ∀ e ∈ entries, Parseable e) :
    parseMounts (renderTable entries) = entries.filterMap reported := by
  unfold parseMounts
  rw [lines_renderTable, List.filterMap_map]
  apply List.filterMap_congr
  intro e he
  show parseMountLine (dropCr (renderLine e)) = reported e
  rw [parseMountLine_dropCr, parseMountLine_renderLine e (h e he)]

/-- An escaped mount point, next to a mount that is not under `/dev/`. -/
def sampleTable : List MountEntry :=
  [⟨"tmpfs", "/run", "tmpfs", "rw", by decide, by decide, by decide, by decide⟩,
   ⟨"/dev/sdb1", "/mnt/my disk#1", "xfs", "rw", by decide, by decide, by decide, by decide⟩]

theorem parseMounts_renderTable_sample :
    parseMounts (renderTable sampleTable) = sampleTable.filterMap reported :=
  parseMounts_renderTable sampleTable (by
    intro e he
    rcases List.mem_cons.mp he with h | h
    · subst h
      exact ⟨List.all_iff_forall_prop.mp (by decide), fun _ =>
        ⟨List.all_iff_forall_prop.mp (by decide), List.all_iff_forall_prop.mp (by decide)⟩⟩
    · rw [List.mem_singleton.mp h]
      exact ⟨List.all_iff_forall_prop.mp (by decide), fun _ =>
        ⟨List.all_iff_forall_prop.mp (by decide), List.all_iff_forall_prop.mp (by decide)⟩⟩)

/-- The entry in the spelling the kernel was given. -/
def original (e : MountEntry) : Option (String × String × String) :=
  (stripPrefix "/dev/".toList e.device.toList).map (fun dev =>
    (String.ofList dev, e.mountPoint, e.fstype))

/-- A mount point with a no-break space. -/
def nbspEntry : MountEntry :=
  ⟨"/dev/sda1", "/mnt/My\u00a0Disk", "ext4", "rw", by decide, by decide, by decide, by decide⟩

/-- A device name with a character the kernel escapes. -/
def hashEntry : MountEntry :=
  ⟨"/dev/disk#1", "/mnt", "ext4", "rw", by decide, by decide, by decide, by decide⟩

/-- **The original spelling is not always recovered**: a no-break space shortens the mount point
and shifts the fstype, and an escaped device name stays escaped. -/
theorem original_spelling_lost :
    parseMounts (renderTable [nbspEntry]) = [("sda1", "/mnt/My", "Disk")]
      ∧ [nbspEntry].filterMap original = [("sda1", "/mnt/My\u00a0Disk", "ext4")]
      ∧ parseMounts (renderTable [hashEntry]) = [("disk\\0431", "/mnt", "ext4")]
      ∧ [hashEntry].filterMap original = [("disk#1", "/mnt", "ext4")] := by
  decide

end LivediskForensic.Sysfs
