/-
  LivediskForensic.Render.HumanSize — THE TEXT OF A SIZE.

  `human_size` divides by 1000 until what is left is below 1000, and prints it
  with one decimal.  The divisions are read as exact, and the decimal as the
  nearest tenth.

  The loop stops at the largest unit the size fills, but it looks at the value
  before it is rounded: from half a tenth below a thousand on, the text says
  1000.0 of the unit instead of 1.0 of the next.

      unitLoop_spec             — the loop
      Shows.unique              — a text is read in one way
      humanSize_normalised_iff  — when the printed value is below 1000
-/
import LivediskForensic.Lib.Rounding
import LivediskForensic.Render.TableRows
import Mathlib.Data.Rat.Floor
import Mathlib.Tactic.FieldSimp
import Mathlib.Tactic.Positivity

namespace LivediskForensic.Render

open LivediskForensic.Lib

/-! ## §1. The function. -/

def UNITS : List String := ["B", "KB", "MB", "GB", "TB", "PB"]

/-- `while value >= 1000.0 && unit < UNITS.len() - 1`, by the number of units left. -/
def unitLoop : Nat → ℚ → Nat → ℚ × Nat
  | 0, value, unit => (value, unit)
  | left + 1, value, unit =>
      if 1000 ≤ value then unitLoop left (value / 1000) (unit + 1) else (value, unit)

/-- A number of tenths with its decimal point. -/
def tenthsText (tenths : Nat) : String := Nat.repr (tenths / 10) ++ "." ++ Nat.repr (tenths % 10)

/-- `{:.1}` of a value that is not negative. -/
def oneDecimal (value : ℚ) : String := tenthsText (roundHalfEven (10 * value)).toNat

def humanSize (bytes : UInt64) : String :=
  if bytes < 1000 then Nat.repr bytes.toNat ++ " B"
  else
    let (value, unit) := unitLoop (UNITS.length - 1) bytes.toNat 0
    -- the loop stops at the last unit, so the index is in range
    oneDecimal value ++ " " ++ UNITS.getD unit ""

/-! ## §2. Reading a text. -/

theorem toList_tenthsText (tenths : Nat) : (tenthsText tenths).toList
    = Nat.toDigits 10 (tenths / 10) ++ '.' :: Nat.toDigits 10 (tenths % 10) := by
  unfold tenthsText Nat.repr
  simp only [String.toList_append, String.toList_ofList, List.append_assoc]
  rfl

/-- A character that is no digit is in no spelling. -/
theorem not_mem_toDigits {c : Char} (hc : c.isDigit = false) (n : Nat) :
    c ∉ Nat.toDigits 10 n := by
  intro h
  rw [Nat.isDigit_of_mem_toDigits (by decide) (by decide) h] at hc
  exact absurd hc (by decide)

theorem not_mem_tenthsText {c : Char} (hc : c.isDigit = false) (hpoint : c ≠ '.') (tenths : Nat) :
    c ∉ (tenthsText tenths).toList := by
  rw [toList_tenthsText, List.mem_append, List.mem_cons]
  rintro (h | h | h)
  · exact not_mem_toDigits hc _ h
  · exact hpoint h
  · exact not_mem_toDigits hc _ h

theorem tenthsText_injective {tenths tenths' : Nat}
    (h : (tenthsText tenths).toList = (tenthsText tenths').toList) : tenths = tenths' := by
  have hpoint := not_mem_toDigits (show ('.').isDigit = false by decide)
  rw [toList_tenthsText, toList_tenthsText] at h
  obtain ⟨hwhole, htenth⟩ := append_sep_injective (hpoint _) (hpoint _) h
  have hdiv := toDigits_injective hwhole
  have hmod := toDigits_injective htenth
  omega

/-- A text shows a number of tenths of a unit. -/
def Shows (text : String) (tenths unit : Nat) : Prop :=
  ∃ name, UNITS[unit]? = some name ∧ text = tenthsText tenths ++ " " ++ name

/-- **A text is read in one way.** -/
theorem Shows.unique {text : String} {tenths tenths' unit unit' : Nat}
    (h : Shows text tenths unit) (h' : Shows text tenths' unit') :
    tenths = tenths' ∧ unit = unit' := by
  obtain ⟨name, hname, rfl⟩ := h
  obtain ⟨name', hname', htext⟩ := h'
  have hblank := not_mem_tenthsText (show (' ').isDigit = false by decide) (by decide)
  have hlist := congrArg String.toList htext
  simp only [String.toList_append, List.append_assoc] at hlist
  obtain ⟨hnumber, hunit⟩ := append_sep_injective (hblank _) (hblank _) hlist
  have hlt : unit < UNITS.length := (List.getElem?_eq_some_iff.mp hname).1
  have hnames : name = name' := String.toList_inj.mp hunit
  refine ⟨tenthsText_injective hnumber, (List.getElem?_inj hlt (by decide)).mp ?_⟩
  rw [hname, hname', hnames]

/-- What the table asks of the text of a size. -/
theorem clean_humanSize (bytes : UInt64) : Clean (humanSize bytes).toList := by
  have hdigit : ('\n').isDigit = false := by decide
  have hblank : Clean " ".toList := by decide
  have hunit : ∀ unit, Clean (UNITS.getD unit "").toList := by
    intro unit
    have hall : ∀ name ∈ UNITS, Clean name.toList := by decide
    rw [List.getD_eq_getElem?_getD]
    cases h : UNITS[unit]? with
    | none => decide
    | some name => exact hall name (List.mem_of_getElem? h)
  unfold humanSize
  split
  · unfold Nat.repr
    rw [String.toList_append, String.toList_ofList, clean_append]
    exact ⟨not_mem_toDigits hdigit _, by decide⟩
  · rw [String.toList_append, String.toList_append, clean_append, clean_append]
    exact ⟨⟨not_mem_tenthsText hdigit (by decide) _, hblank⟩, hunit _⟩

/-! ## §3. The loop. -/

/-- The unit is the largest that the size fills. -/
def Fills (unit bytes : Nat) : Prop := 1000 ^ unit ≤ bytes ∧ bytes < 1000 ^ (unit + 1)

theorem Fills.unique {unit unit' bytes : Nat} (h : Fills unit bytes) (h' : Fills unit' bytes) :
    unit = unit' := by
  have hlt : unit < unit' + 1 :=
    (Nat.pow_lt_pow_iff_right (show 1 < 1000 by decide)).mp (lt_of_le_of_lt h.1 h'.2)
  have hgt : unit' < unit + 1 :=
    (Nat.pow_lt_pow_iff_right (show 1 < 1000 by decide)).mp (lt_of_le_of_lt h'.1 h.2)
  omega

/-- **The loop** takes one step for each unit the value fills, while there are units left. -/
theorem unitLoop_spec (left : Nat) : ∀ (value : ℚ) (unit : Nat), 1 ≤ value →
    ∃ steps ≤ left, unitLoop left value unit = (value / 1000 ^ steps, unit + steps)
      ∧ 1000 ^ steps ≤ value ∧ (value < 1000 ^ (steps + 1) ∨ steps = left) := by
  induction left with
  | zero =>
      intro value unit hone
      refine ⟨0, le_refl 0, ?_, by rwa [pow_zero], Or.inr rfl⟩
      rw [pow_zero, div_one]
      rfl
  | succ left ih =>
      intro value unit hone
      unfold unitLoop
      by_cases hge : 1000 ≤ value
      · have hone' : 1 ≤ value / 1000 := by
          rw [le_div_iff₀ (by norm_num)]
          linarith
        obtain ⟨steps, hsteps, hloop, hle, hend⟩ := ih (value / 1000) (unit + 1) hone'
        rw [if_pos hge, hloop]
        refine ⟨steps + 1, by omega, ?_, ?_, ?_⟩
        · rw [div_div, ← pow_succ', Nat.add_assoc, Nat.add_comm 1 steps]
        · rw [le_div_iff₀ (by norm_num), ← pow_succ] at hle
          exact hle
        · rcases hend with hlt | hlast
          · rw [div_lt_iff₀ (by norm_num), ← pow_succ] at hlt
            exact Or.inl hlt
          · exact Or.inr (by rw [hlast])
      · rw [if_neg hge]
        have hlt : value < 1000 ^ (0 + 1) := by
          rw [zero_add, pow_one]
          linarith
        refine ⟨0, Nat.zero_le _, ?_, by rwa [pow_zero], Or.inl hlt⟩
        rw [pow_zero, div_one]
        rfl

/-! ## §4. The rounded number. -/

/-- The tenths of a unit in a size, rounded. -/
def tenthsOf (bytes unit : Nat) : Nat := (roundHalfEven (10 * ((bytes : ℚ) / 1000 ^ unit))).toNat

theorem natCast_tenthsOf (bytes unit : Nat) :
    (tenthsOf bytes unit : ℤ) = roundHalfEven (10 * ((bytes : ℚ) / 1000 ^ unit)) := by
  refine Int.toNat_of_nonneg (le_roundHalfEven ?_)
  rw [Int.cast_zero]
  positivity

theorem tenthsOf_le_iff {bytes unit m : Nat} : tenthsOf bytes unit ≤ m
    ↔ 20 * bytes < (2 * m + 1) * 1000 ^ unit
      ∨ (20 * bytes = (2 * m + 1) * 1000 ^ unit ∧ Even m) := by
  have hpos : (0 : ℚ) < 1000 ^ unit := by positivity
  have htwice : 2 * (10 * ((bytes : ℚ) / 1000 ^ unit)) = 20 * bytes / 1000 ^ unit := by ring
  rw [← Int.ofNat_le, natCast_tenthsOf, roundHalfEven_le_iff, htwice, div_lt_iff₀ hpos,
    div_eq_iff (ne_of_gt hpos), Int.even_coe_nat]
  norm_cast

theorem ten_le_tenthsOf {bytes unit : Nat} (h : 1000 ^ unit ≤ bytes) :
    10 ≤ tenthsOf bytes unit := by
  have hpos : 0 < 1000 ^ unit := by positivity
  by_contra hlt
  have hle : tenthsOf bytes unit ≤ 9 := by omega
  rw [tenthsOf_le_iff] at hle
  omega

/-- The printed number is off by at most half a tenth. -/
theorem abs_tenthsOf_sub_le (bytes unit : Nat) :
    |(tenthsOf bytes unit : ℚ) / 10 * 1000 ^ unit - bytes| ≤ 1000 ^ unit / 20 := by
  have hpos : (0 : ℚ) < 1000 ^ unit := by positivity
  have hround := two_mul_abs_sub_roundHalfEven_le (10 * ((bytes : ℚ) / 1000 ^ unit))
  rw [← natCast_tenthsOf, Int.cast_natCast] at hround
  have hscale : (tenthsOf bytes unit : ℚ) / 10 * 1000 ^ unit - bytes
      = -((10 * ((bytes : ℚ) / 1000 ^ unit) - tenthsOf bytes unit) * (1000 ^ unit / 10)) := by
    field_simp
    ring
  rw [hscale, abs_neg, abs_mul, abs_of_pos (show (0 : ℚ) < 1000 ^ unit / 10 by positivity)]
  calc |10 * ((bytes : ℚ) / 1000 ^ unit) - tenthsOf bytes unit| * (1000 ^ unit / 10)
      ≤ 1 / 2 * (1000 ^ unit / 10) :=
        mul_le_mul_of_nonneg_right (by linarith) (by positivity)
    _ = 1000 ^ unit / 20 := by ring

/-- **What is printed**: the largest unit the size fills, and the nearest tenth of it. -/
theorem humanSize_shows {bytes : UInt64} (hlo : 1000 ≤ bytes.toNat)
    (hhi : bytes.toNat < 10 ^ 18) :
    ∃ unit, 1 ≤ unit ∧ unit ≤ 5 ∧ Fills unit bytes.toNat
      ∧ Shows (humanSize bytes) (tenthsOf bytes.toNat unit) unit := by
  have hone : (1 : ℚ) ≤ (bytes.toNat : ℚ) := by exact_mod_cast (show 1 ≤ bytes.toNat by omega)
  obtain ⟨unit, hunit, hloop, hle, hend⟩ := unitLoop_spec (UNITS.length - 1) bytes.toNat 0 hone
  have hle5 : unit ≤ 5 := hunit
  have hfills : Fills unit bytes.toNat := by
    refine ⟨by exact_mod_cast hle, ?_⟩
    rcases hend with hlt | hlast
    · exact_mod_cast hlt
    · have hfive : unit = 5 := hlast
      rw [hfive]
      omega
  have hpos : 1 ≤ unit := by
    rcases Nat.eq_zero_or_pos unit with hzero | hpos
    · have hlt := hfills.2
      rw [hzero] at hlt
      omega
    · exact hpos
  obtain ⟨name, hname⟩ : ∃ name, UNITS[unit]? = some name :=
    ⟨_, List.getElem?_eq_getElem (show unit < UNITS.length by show unit < 6; omega)⟩
  refine ⟨unit, hpos, hle5, hfills, name, hname, ?_⟩
  have hnot : ¬ bytes < 1000 := by
    rw [UInt64.lt_iff_toNat_lt]
    exact Nat.not_lt.mpr hlo
  unfold humanSize
  rw [if_neg hnot, hloop, zero_add]
  show oneDecimal _ ++ " " ++ UNITS.getD unit "" = _
  rw [List.getD_eq_getElem?_getD, hname]
  rfl

/-! ## §5. Normalised texts. -/

/-- **A normalised text** of a size: from 1.0 to 999.9 of one of KB to PB, and within one
twentieth of that unit. -/
structure Normalised (text : String) (bytes tenths unit : Nat) : Prop where
  shows : Shows text tenths unit
  one_le : 10 ≤ tenths
  le : tenths ≤ 9999
  unit_pos : 1 ≤ unit
  unit_le : unit ≤ 5
  close : |(tenths : ℚ) / 10 * 1000 ^ unit - bytes| ≤ 1000 ^ unit / 20

/-- At most 50 thousandths of a unit below a thousand of it, from KB to PB. -/
def RoundsUp (bytes : Nat) : Prop :=
  ∃ unit < 5, 1000 ^ (unit + 2) ≤ bytes + 50 * 1000 ^ unit ∧ bytes < 1000 ^ (unit + 2)

theorem roundsUp_iff {bytes unit : Nat} (hpos : 1 ≤ unit) (hle : unit ≤ 5)
    (hfills : Fills unit bytes) : RoundsUp bytes ↔ 9999 < tenthsOf bytes unit := by
  have hodd : ¬ Even 9999 := by decide
  rw [← Nat.not_le, tenthsOf_le_iff]
  constructor
  · rintro ⟨k, -, hge, hlt⟩
    have hone : 1000 ^ (k + 1) = 1000 * 1000 ^ k := pow_succ' 1000 k
    have htwo : 1000 ^ (k + 2) = 1000 * 1000 ^ (k + 1) := pow_succ' 1000 (k + 1)
    have hunit : unit = k + 1 := hfills.unique ⟨by omega, hlt⟩
    rw [hunit]
    rintro (h | ⟨-, h⟩)
    · omega
    · exact hodd h
  · intro hnot
    obtain ⟨k, rfl⟩ : ∃ k, unit = k + 1 := ⟨unit - 1, by omega⟩
    have hone : 1000 ^ (k + 1) = 1000 * 1000 ^ k := pow_succ' 1000 k
    have htwo : 1000 ^ (k + 2) = 1000 * 1000 ^ (k + 1) := pow_succ' 1000 (k + 1)
    have hge : ¬ 20 * bytes < (2 * 9999 + 1) * 1000 ^ (k + 1) := fun h => hnot (Or.inl h)
    exact ⟨k, by omega, by omega, hfills.2⟩

/-- **WHEN A SIZE IS PRINTED NORMALISED**: exactly when it does not round up to a thousand of its
unit.  The unit is the largest the size fills in any case. -/
theorem humanSize_normalised_iff {bytes : UInt64} (hlo : 1000 ≤ bytes.toNat)
    (hhi : bytes.toNat < 10 ^ 18) :
    ((∃ tenths unit, Normalised (humanSize bytes) bytes.toNat tenths unit)
        ↔ ¬ RoundsUp bytes.toNat)
      ∧ ∀ tenths unit, Shows (humanSize bytes) tenths unit → Fills unit bytes.toNat := by
  obtain ⟨unit, hpos, hle, hfills, hshows⟩ := humanSize_shows hlo hhi
  rw [roundsUp_iff hpos hle hfills, Nat.not_lt]
  refine ⟨⟨?_, ?_⟩, ?_⟩
  · rintro ⟨tenths', unit', h⟩
    rw [(hshows.unique h.shows).1]
    exact h.le
  · intro hrounds
    exact ⟨_, _, hshows, ten_le_tenthsOf hfills.1, hrounds, hpos, hle, abs_tenthsOf_sub_le _ _⟩
  · intro tenths' unit' h
    rw [← (hshows.unique h).2]
    exact hfills

/-- A size in the middle of a band. -/
theorem humanSize_normalised_iff_twentyFour :
    ((∃ tenths unit, Normalised (humanSize 24576) 24576 tenths unit) ↔ ¬ RoundsUp 24576)
      ∧ ∀ tenths unit, Shows (humanSize 24576) tenths unit → Fills unit 24576 :=
  humanSize_normalised_iff (by decide) (by decide)

/-- **One byte below a megabyte** prints a thousand kilobytes. -/
theorem humanSize_thousand :
    humanSize 999999 = "1000.0 KB"
      ∧ ¬ ∃ tenths unit, Normalised (humanSize 999999) 999999 tenths unit := by
  have htext : humanSize 999999 = "1000.0 KB" := by decide +kernel
  refine ⟨htext, ?_⟩
  rintro ⟨tenths, unit, h⟩
  have hshows : Shows (humanSize 999999) 10000 1 := ⟨"KB", rfl, htext⟩
  have htenths := (hshows.unique h.shows).1
  have hle := h.le
  omega

end LivediskForensic.Render
