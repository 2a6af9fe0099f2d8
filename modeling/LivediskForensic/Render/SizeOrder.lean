/-
  LivediskForensic.Render.SizeOrder — WHAT A PRINTED SIZE CAN BE USED FOR.

  Sizes are compared by reading them off the listing.  The text of every `u64`
  stands for one number of bytes (`Reads`), a larger size never reads as a
  smaller number, also across units and past the last one, and the number is
  off by a twentieth of the size at most.  As in `humanSize`, the divisions
  are read as exact and the decimal as the nearest tenth.

      humanSize_ordered — for all sizes
-/
import LivediskForensic.Render.HumanSize

namespace LivediskForensic.Render

open LivediskForensic.Lib

/-! ## §1. Reading a size. -/

/-- The number of bytes a text stands for. -/
inductive Reads (text : String) : ℚ → Prop
  | bytes (n : Nat) (h : text = Nat.repr n ++ " B") : Reads text n
  | tenths (tenths unit : Nat) (hunit : 1 ≤ unit) (h : Shows text tenths unit) :
      Reads text ((tenths : ℚ) / 10 * 1000 ^ unit)

/-- A number of bytes is no number of tenths. -/
theorem not_shows_bytes {n tenths unit : Nat} (hunit : 1 ≤ unit) :
    ¬ Shows (Nat.repr n ++ " B") tenths unit := by
  rintro ⟨name, hname, htext⟩
  have hblank := not_mem_tenthsText (show (' ').isDigit = false by decide) (by decide) tenths
  have hdigits := not_mem_toDigits (show (' ').isDigit = false by decide) n
  have hlist := congrArg String.toList htext
  unfold Nat.repr at hlist
  simp only [String.toList_append, String.toList_ofList, List.append_assoc] at hlist
  have hrest := (append_sep_injective hdigits hblank hlist).2
  have hB : "B" = name := String.toList_inj.mp hrest
  have hzero : UNITS[0]? = some "B" := rfl
  have hlt : unit < UNITS.length := (List.getElem?_eq_some_iff.mp hname).1
  rw [← hB] at hname
  have heq := (List.getElem?_inj hlt (by decide)).mp (hname.trans hzero.symm)
  omega

/-- **A text is read in one way**, with or without a decimal. -/
theorem Reads.unique {text : String} {v w : ℚ} (hv : Reads text v) (hw : Reads text w) :
    v = w := by
  cases hv with
  | bytes n h =>
      cases hw with
      | bytes n' h' =>
          have hlist := congrArg String.toList (h.symm.trans h')
          unfold Nat.repr at hlist
          simp only [String.toList_append, String.toList_ofList] at hlist
          rw [toDigits_injective (List.append_cancel_right hlist)]
      | tenths tenths unit hunit h' =>
          rw [h] at h'
          exact absurd h' (not_shows_bytes hunit)
  | tenths tenths unit hunit h =>
      cases hw with
      | bytes n' h' =>
          rw [h'] at h
          exact absurd h (not_shows_bytes hunit)
      | tenths tenths' unit' hunit' h' =>
          obtain ⟨htenths, heq⟩ := h.unique h'
          rw [htenths, heq]

/-! ## §2. What is printed. -/

/-- The unit of a size: below a thousand of it, or the last one. -/
structure UnitOf (bytes unit : Nat) : Prop where
  pos : 1 ≤ unit
  le_last : unit ≤ 5
  fills : 1000 ^ unit ≤ bytes
  below : bytes < 1000 ^ (unit + 1) ∨ unit = 5

/-- Any size from 1000 on is printed in its unit. -/
theorem humanSize_shows_unit {bytes : UInt64} (h : 1000 ≤ bytes.toNat) :
    ∃ unit, UnitOf bytes.toNat unit
      ∧ Shows (humanSize bytes) (tenthsOf bytes.toNat unit) unit := by
  have hone : (1 : ℚ) ≤ (bytes.toNat : ℚ) := by exact_mod_cast (show 1 ≤ bytes.toNat by omega)
  obtain ⟨unit, hunit, hloop, hle, hend⟩ := unitLoop_spec (UNITS.length - 1) bytes.toNat 0 hone
  have hlast : unit ≤ 5 := hunit
  have hbelow : bytes.toNat < 1000 ^ (unit + 1) ∨ unit = 5 := by
    rcases hend with hlt | hlast
    · exact Or.inl (by exact_mod_cast hlt)
    · exact Or.inr hlast
  have hpos : 1 ≤ unit := by
    rcases Nat.eq_zero_or_pos unit with hzero | hpos
    · rw [hzero] at hbelow
      omega
    · exact hpos
  obtain ⟨name, hname⟩ : ∃ name, UNITS[unit]? = some name :=
    ⟨_, List.getElem?_eq_getElem (show unit < UNITS.length by show unit < 6; omega)⟩
  refine ⟨unit, ⟨hpos, hlast, by exact_mod_cast hle, hbelow⟩, name, hname, ?_⟩
  have hnot : ¬ bytes < 1000 := by
    rw [UInt64.lt_iff_toNat_lt]
    exact Nat.not_lt.mpr h
  unfold humanSize
  rw [if_neg hnot, hloop, zero_add]
  show oneDecimal _ ++ " " ++ UNITS.getD unit "" = _
  rw [List.getD_eq_getElem?_getD, hname]
  rfl

/-- A larger size has no smaller unit. -/
theorem UnitOf.le {bytes bytes' unit unit' : Nat} (h : UnitOf bytes unit)
    (h' : UnitOf bytes' unit') (hle : bytes ≤ bytes') : unit ≤ unit' := by
  rcases h'.below with hlt | hlast
  · have hpow : 1000 ^ unit < 1000 ^ (unit' + 1) := by
      have hfills := h.fills
      omega
    have hunit := (Nat.pow_lt_pow_iff_right (show 1 < 1000 by decide)).mp hpow
    omega
  · have hle5 := h.le_last
    omega

/-! ## §3. Order. -/

/-- More bytes are no fewer tenths of one unit. -/
theorem tenthsOf_mono {bytes bytes' : Nat} (h : bytes ≤ bytes') (unit : Nat) :
    tenthsOf bytes unit ≤ tenthsOf bytes' unit := by
  have hself := tenthsOf_le_iff.mp (le_refl (tenthsOf bytes' unit))
  rw [tenthsOf_le_iff]
  rcases hself with hlt | ⟨heq, heven⟩
  · exact Or.inl (by omega)
  · rcases Nat.lt_or_ge bytes bytes' with hlt | hge
    · exact Or.inl (by omega)
    · exact Or.inr ⟨by omega, heven⟩

/-- The number of bytes that is printed for a size in that unit. -/
def printedIn (unit bytes : Nat) : ℚ := (tenthsOf bytes unit : ℚ) / 10 * 1000 ^ unit

/-- What is printed fills the unit too. -/
theorem le_printedIn {bytes unit : Nat} (h : 1000 ^ unit ≤ bytes) :
    (1000 : ℚ) ^ unit ≤ printedIn unit bytes := by
  have hpos : (0 : ℚ) < 1000 ^ unit := by positivity
  have hten : (10 : ℚ) ≤ tenthsOf bytes unit := by exact_mod_cast ten_le_tenthsOf h
  have hone : (1 : ℚ) ≤ (tenthsOf bytes unit : ℚ) / 10 := by
    rw [le_div_iff₀ (by norm_num)]
    linarith
  unfold printedIn
  calc (1000 : ℚ) ^ unit = 1 * 1000 ^ unit := (one_mul _).symm
    _ ≤ (tenthsOf bytes unit : ℚ) / 10 * 1000 ^ unit :=
        mul_le_mul_of_nonneg_right hone (le_of_lt hpos)

/-- And it does not pass a thousand of it, when the size is below. -/
theorem printedIn_le {bytes unit : Nat} (h : bytes < 1000 ^ (unit + 1)) :
    printedIn unit bytes ≤ (1000 : ℚ) ^ (unit + 1) := by
  have hpos : (0 : ℚ) < 1000 ^ unit := by positivity
  have htenths : tenthsOf bytes unit ≤ 10000 := by
    have hpow : 1000 ^ (unit + 1) = 1000 ^ unit * 1000 := pow_succ 1000 unit
    rw [tenthsOf_le_iff]
    exact Or.inl (by omega)
  have hcast : (tenthsOf bytes unit : ℚ) ≤ 10000 := by exact_mod_cast htenths
  have hthousand : (tenthsOf bytes unit : ℚ) / 10 ≤ 1000 := by
    rw [div_le_iff₀ (by norm_num)]
    linarith
  unfold printedIn
  calc (tenthsOf bytes unit : ℚ) / 10 * 1000 ^ unit ≤ 1000 * 1000 ^ unit :=
        mul_le_mul_of_nonneg_right hthousand (le_of_lt hpos)
    _ = (1000 : ℚ) ^ (unit + 1) := (pow_succ' 1000 unit).symm

/-- **Across units**: the sizes of a smaller unit are printed as no more. -/
theorem printedIn_mono {bytes bytes' unit unit' : Nat} (h : UnitOf bytes unit)
    (h' : UnitOf bytes' unit') (hle : bytes ≤ bytes') :
    printedIn unit bytes ≤ printedIn unit' bytes' := by
  rcases Nat.lt_or_ge unit unit' with hlt | hge
  -- a thousand of the smaller unit lies between
  · have hbelow : bytes < 1000 ^ (unit + 1) := by
      rcases h.below with hlt' | hlast
      · exact hlt'
      · have hle5 := h'.le_last
        omega
    calc printedIn unit bytes ≤ (1000 : ℚ) ^ (unit + 1) := printedIn_le hbelow
      _ ≤ (1000 : ℚ) ^ unit' := pow_le_pow_right₀ (by norm_num) hlt
      _ ≤ printedIn unit' bytes' := le_printedIn h'.fills
  · have heq : unit = unit' := Nat.le_antisymm (h.le h' hle) hge
    have hmono : (tenthsOf bytes unit' : ℚ) ≤ tenthsOf bytes' unit' := by
      exact_mod_cast tenthsOf_mono hle unit'
    rw [heq]
    unfold printedIn
    exact mul_le_mul_of_nonneg_right (div_le_div_of_nonneg_right hmono (by norm_num))
      (by positivity)

/-! ## §4. All sizes. -/

/-- What the text of a size says, with what it is worth. -/
theorem exists_printed (bytes : UInt64) : ∃ v : ℚ, Reads (humanSize bytes) v
    ∧ ((bytes.toNat < 1000 ∧ v = bytes.toNat)
      ∨ ∃ unit, UnitOf bytes.toNat unit ∧ v = printedIn unit bytes.toNat) := by
  by_cases h : bytes.toNat < 1000
  · refine ⟨bytes.toNat, .bytes bytes.toNat ?_, Or.inl ⟨h, rfl⟩⟩
    unfold humanSize
    rw [if_pos (UInt64.lt_iff_toNat_lt.mpr h)]
  · obtain ⟨unit, hunit, hshows⟩ := humanSize_shows_unit (Nat.not_lt.mp h)
    exact ⟨_, .tenths _ unit hunit.pos hshows, Or.inr ⟨unit, hunit, rfl⟩⟩

/-- **PRINTED SIZES CAN BE COMPARED.**  Each text reads as one number of bytes, a larger size reads
as no smaller number, and every number is within a twentieth of its size. -/
theorem humanSize_ordered : ∃ shown : UInt64 → ℚ,
    (∀ bytes bytes', bytes ≤ bytes' → shown bytes ≤ shown bytes')
    ∧ ∀ bytes, (∀ v, Reads (humanSize bytes) v ↔ v = shown bytes)
      ∧ 20 * |shown bytes - bytes.toNat| ≤ bytes.toNat := by
  choose shown hreads hworth using exists_printed
  refine ⟨shown, ?_, ?_⟩
  · intro bytes bytes' h
    have hle : bytes.toNat ≤ bytes'.toNat := UInt64.le_iff_toNat_le.mp h
    rcases hworth bytes with ⟨hsmall, hv⟩ | ⟨unit, hunit, hv⟩
    · rcases hworth bytes' with ⟨hsmall', hv'⟩ | ⟨unit', hunit', hv'⟩
      · rw [hv, hv']
        exact_mod_cast hle
      -- bytes end below the first unit
      · have hkilo : (1000 : ℚ) ^ 1 ≤ 1000 ^ unit' := pow_le_pow_right₀ (by norm_num) hunit'.pos
        have hfills := le_printedIn hunit'.fills
        have hcast : (bytes.toNat : ℚ) ≤ 1000 := by exact_mod_cast hsmall.le
        rw [hv, hv']
        linarith
    · rcases hworth bytes' with ⟨hsmall', -⟩ | ⟨unit', hunit', hv'⟩
      · have hkilo : 1000 ^ 1 ≤ 1000 ^ unit := Nat.pow_le_pow_right (by decide) hunit.pos
        have hfills := hunit.fills
        omega
      · rw [hv, hv']
        exact printedIn_mono hunit hunit' hle
  · intro bytes
    refine ⟨?_, ?_⟩
    · intro v
      constructor
      · intro hv
        exact hv.unique (hreads bytes)
      · intro hv
        rw [hv]
        exact hreads bytes
    · rcases hworth bytes with ⟨-, hv⟩ | ⟨unit, hunit, hv⟩
      · rw [hv, sub_self, abs_zero, mul_zero]
        exact Nat.cast_nonneg _
      · have hclose := abs_tenthsOf_sub_le bytes.toNat unit
        have hfills : (1000 : ℚ) ^ unit ≤ bytes.toNat := by exact_mod_cast hunit.fills
        rw [hv]
        show 20 * |(tenthsOf bytes.toNat unit : ℚ) / 10 * 1000 ^ unit - bytes.toNat| ≤ _
        linarith

end LivediskForensic.Render
