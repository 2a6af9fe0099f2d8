/-
  LivediskForensic.Render.OverviewRows — THE ROWS OF THE OVERVIEW COMPARE.

  The columns of a row go through a floor, a bump to one and a clamp
  (`barFill`).  Each is monotone in the size, and the clamp is the width of the
  row, so the blanks behind the filled columns are a difference that exists.
  What a row shows is read off its text, in both modes, as the terminal shows
  it.

      barFill_le, barFill_mono, …  — the three steps together
      overview_comparable          — the chart, row by row
-/
import LivediskForensic.Render.OverviewTotal
import LivediskForensic.Render.Views

namespace LivediskForensic.Render

open LivediskForensic.Lib
open LivediskForensic.Lib.Ansi

/-! ## §1. The filled columns. -/

/-- The filled columns and the blanks of a row in machine integers: the product is a `u128`, the
quotient goes back into a `usize`, and the blanks are a difference. -/
def fillChecked (bits width : Nat) (largest size : UInt64) : Option (Nat × Nat) := do
  let product ← checkedMul 128 size.toNat width
  let quotient ← checkedCast bits (product / largest.toNat)
  let fill := min (if 0 < size ∧ quotient = 0 then 1 else quotient) width
  let blanks ← checkedSub width fill
  some (fill, blanks)

/-- A disk that is not empty: the floor, at least one, at most the width. -/
theorem barFill_of_pos (width : Nat) (largest : UInt64) {size : UInt64} (h : 0 < size) :
    barFill width largest size = min (max 1 (size.toNat * width / largest.toNat)) width := by
  show min (if 0 < size ∧ size.toNat * width / largest.toNat = 0 then 1
    else size.toNat * width / largest.toNat) width = _
  by_cases hz : size.toNat * width / largest.toNat = 0
  · rw [if_pos ⟨h, hz⟩, hz]
    rfl
  · rw [if_neg (fun hb => hz hb.2), max_eq_right (Nat.one_le_iff_ne_zero.mpr hz)]

theorem barFill_zero (width : Nat) (largest : UInt64) : barFill width largest 0 = 0 := by
  have hnot : ¬ ((0 : UInt64) < 0 ∧ 0 * width / largest.toNat = 0) :=
    fun hb => absurd hb.1 (by decide)
  show min (if (0 : UInt64) < 0 ∧ 0 * width / largest.toNat = 0 then 1
    else 0 * width / largest.toNat) width = 0
  rw [if_neg hnot, Nat.zero_mul, Nat.zero_div, Nat.zero_min]

theorem barFill_le (width : Nat) (largest size : UInt64) : barFill width largest size ≤ width :=
  Nat.min_le_right _ _

theorem eq_zero_or_pos (size : UInt64) : size = 0 ∨ 0 < size := by
  rw [← UInt64.toNat_inj, UInt64.lt_iff_toNat_lt]
  exact Nat.eq_zero_or_pos size.toNat

/-- A larger disk has no fewer columns. -/
theorem barFill_mono (width : Nat) (largest : UInt64) {size size' : UInt64} (h : size ≤ size') :
    barFill width largest size ≤ barFill width largest size' := by
  have hle := UInt64.le_iff_toNat_le.mp h
  rcases eq_zero_or_pos size with hzero | hpos
  · rw [hzero, barFill_zero]
    exact Nat.zero_le _
  · have hpos' : 0 < size' := by
      rw [UInt64.lt_iff_toNat_lt] at hpos ⊢
      omega
    have hquot : size.toNat * width / largest.toNat ≤ size'.toNat * width / largest.toNat :=
      Nat.div_le_div_right (Nat.mul_le_mul_right width hle)
    rw [barFill_of_pos width largest hpos, barFill_of_pos width largest hpos']
    omega

/-- The largest disk fills the row. -/
theorem barFill_self (width : Nat) {size : UInt64} (h : 0 < size) :
    barFill width size size = width := by
  have hquot : size.toNat * width / size.toNat = width :=
    Nat.mul_div_cancel_left width (UInt64.lt_iff_toNat_lt.mp h)
  rw [barFill_of_pos width size h, hquot]
  omega

theorem barFill_pos {width : Nat} (largest : UInt64) {size : UInt64} (h : 0 < size)
    (hwidth : 1 ≤ width) : 1 ≤ barFill width largest size := by
  rw [barFill_of_pos width largest h]
  omega

/-- **The machine computes the columns**: no operation overflows, and the difference exists. -/
theorem fillChecked_eq {bits width : Nat} (hbits : bits ≤ 64) (hwidth : width < 2 ^ bits)
    {largest size : UInt64} (hsize : size ≤ largest) :
    fillChecked bits width largest size
      = some (barFill width largest size, width - barFill width largest size) := by
  have hle := UInt64.le_iff_toNat_le.mp hsize
  have hmul : size.toNat * width < 2 ^ 128 := by
    have hw : width < 2 ^ 64 := lt_of_lt_of_le hwidth (Nat.pow_le_pow_right (by decide) hbits)
    calc size.toNat * width < 2 ^ 64 * 2 ^ 64 := Nat.mul_lt_mul'' size.toNat_lt hw
      _ = 2 ^ 128 := by decide
  -- the quotient is a part of the width
  have hquot : size.toNat * width / largest.toNat ≤ width := by
    rcases Nat.eq_zero_or_pos largest.toNat with hz | hpos
    · rw [hz, Nat.div_zero]
      exact Nat.zero_le width
    · calc size.toNat * width / largest.toNat
          ≤ largest.toNat * width / largest.toNat :=
            Nat.div_le_div_right (Nat.mul_le_mul_right width hle)
        _ = width := Nat.mul_div_cancel_left width hpos
  show ((checkedMul 128 size.toNat width).bind fun product =>
    (checkedCast bits (product / largest.toNat)).bind fun quotient => _) = _
  rw [checkedMul_eq_some hmul, Option.bind_some,
    checkedCast_eq_some (lt_of_le_of_lt hquot hwidth), Option.bind_some]
  show (checkedSub width (barFill width largest size)).bind _ = _
  rw [checkedSub_eq_some (barFill_le width largest size)]
  rfl

/-! ## §2. The largest disk. -/

instance lawfulOrderMaxUInt64 : Std.LawfulOrderMax UInt64 where
  max_le_iff a b c := by
    show (if a ≤ b then b else a) ≤ c ↔ _
    simp only [UInt64.le_iff_toNat_le]
    split_ifs <;> omega
  max_eq_or a b := by
    show (if a ≤ b then b else a) = a ∨ (if a ≤ b then b else a) = b
    split_ifs
    · exact Or.inr rfl
    · exact Or.inl rfl

theorem le_maxSize {physical : List PhysicalDisk} {d : PhysicalDisk} (hd : d ∈ physical) :
    d.sizeBytes ≤ maxSize physical := by
  have hmem : d.sizeBytes ∈ physical.map PhysicalDisk.sizeBytes := List.mem_map_of_mem hd
  unfold maxSize
  cases hmax : (physical.map PhysicalDisk.sizeBytes).max? with
  | none =>
      rw [List.max?_eq_none_iff] at hmax
      rw [hmax] at hmem
      exact absurd hmem List.not_mem_nil
  | some m =>
      have hle : max m 1 ≤ max m 1 := UInt64.le_refl _
      rw [Std.LawfulOrderSup.max_le_iff] at hle
      exact UInt64.le_trans ((List.max?_eq_some_iff.mp hmax).2 _ hmem) hle.1

theorem maxSize_eq {physical : List PhysicalDisk} {d : PhysicalDisk} (hd : d ∈ physical)
    (hpos : 0 < d.sizeBytes) (hmax : ∀ d' ∈ physical, d'.sizeBytes ≤ d.sizeBytes) :
    maxSize physical = d.sizeBytes := by
  have hsome : (physical.map PhysicalDisk.sizeBytes).max? = some d.sizeBytes := by
    rw [List.max?_eq_some_iff]
    refine ⟨List.mem_map_of_mem hd, ?_⟩
    intro size hsize
    obtain ⟨d', hd', rfl⟩ := List.mem_map.mp hsize
    exact hmax d' hd'
  unfold maxSize
  rw [hsome, Option.getD_some]
  show (if d.sizeBytes ≤ 1 then 1 else d.sizeBytes) = d.sizeBytes
  rw [UInt64.lt_iff_toNat_lt] at hpos
  by_cases h1 : d.sizeBytes ≤ 1
  · have h1' := UInt64.le_iff_toNat_le.mp h1
    rw [if_pos h1, ← UInt64.toNat_inj]
    change 0 < _ at hpos
    change _ ≤ 1 at h1'
    show 1 = _
    omega
  · rw [if_neg h1]

/-! ## §3. The text of a row. -/

/-- What stands in the brackets. -/
def barColumns (color : Bool) (pen : Pen) (fill blanks : Nat) : List Char :=
  pushSlice color pen.ansi pen.glyph fill ++ List.replicate blanks ' '

/-- What a filled column shows. -/
def filledCell (color : Bool) (pen : Pen) : Rendition × Char :=
  if color then (pen.rendition, BLOCK) else (['0'], pen.glyph)

theorem slot_glyph_spec : ∀ k : Fin 8,
    (Pen.slot k).glyph ≠ ' ' ∧ (Pen.slot k).glyph ≠ ESC := by
  decide

theorem filledCell_ne_blank (color : Bool) (k : Fin 8) :
    (filledCell color (.slot k)).2 ≠ ' ' := by
  cases color with
  | false => exact (slot_glyph_spec k).1
  | true =>
      show BLOCK ≠ ' '
      decide

/-- **The brackets show the filled columns, then the blanks.** -/
theorem shown_barColumns (color : Bool) (k : Fin 8) (fill blanks : Nat) :
    shown (barColumns color (.slot k) fill blanks)
      = List.replicate fill (filledCell color (.slot k))
        ++ List.replicate blanks (['0'], ' ') := by
  have hblanks : ESC ∉ List.replicate blanks ' ' := by
    intro h
    exact absurd (List.eq_of_mem_replicate h) (by decide)
  have hrest : scan .text ['0'] (List.replicate blanks ' ')
      = List.replicate blanks (['0'], ' ') := by
    have hrun := scan_append_run ['0'] [] (List.replicate blanks ' ') hblanks
    rw [List.append_nil, List.map_replicate] at hrun
    rw [hrun]
    exact List.append_nil _
  unfold shown barColumns
  cases color with
  | true =>
      rw [scan_pushSlice, hrest]
      rfl
  | false =>
      have hglyphs : ESC ∉ List.replicate fill (Pen.slot k).glyph := by
        intro h
        exact (slot_glyph_spec k).2 (List.eq_of_mem_replicate h).symm
      rw [pushSlice_ascii, scan_append_run _ _ _ hglyphs, hrest, List.map_replicate]
      rfl

/-- The row of a disk: its name, and in brackets `width` columns, `fill` of them filled. -/
def RowShows (width fill : Nat) (d : PhysicalDisk) (row : List Char) : Prop :=
  ∃ pad bar rest : List Char, row = ' ' :: d.name.toList ++ pad ++ '[' :: bar ++ ']' :: rest
    ∧ (∀ x ∈ pad, x = ' ') ∧ ']' ∉ bar
    ∧ (shown bar).length = width ∧ (shown bar).countP (fun x => x.2 ≠ ' ') = fill

theorem rowShows_overviewRow (fmt : NumberFormat) (width : Nat) (color : Bool)
    (physical : List PhysicalDisk) (total : UInt64) (k : Fin 8) (d : PhysicalDisk) :
    RowShows width (barFill width (maxSize physical) d.sizeBytes) d
      (overviewRow fmt width color physical total
        ((Pen.slot k).ansi, (Pen.slot k).glyph) d) := by
  have hle := barFill_le width (maxSize physical) d.sizeBytes
  set fill := barFill width (maxSize physical) d.sizeBytes with hfill
  have hshown := shown_barColumns color k fill (width - fill)
  refine ⟨List.replicate (nameWidth physical - d.name.toList.length) ' ' ++ "  ".toList,
    barColumns color (.slot k) fill (width - fill),
    ' ' :: padLeft 10 (fmt.humanSize d.sizeBytes).toList ++ "  ".toList
      ++ padLeft 4 (fmt.percent d.sizeBytes (max total 1)).toList ++ ['%', '\n'],
    ?_, ?_, ?_, ?_, ?_⟩
  · unfold overviewRow barColumns padRight
    rw [← hfill]
    simp
  · intro x hx
    rcases List.mem_append.mp hx with hpad | hgap
    · exact List.eq_of_mem_replicate hpad
    · exact List.eq_of_mem_replicate (n := 2) hgap
  · intro h
    rcases List.mem_append.mp h with hslice | hblank
    · exact bracket_not_mem_pushSlice color (.slot k) fill hslice
    · exact absurd (List.eq_of_mem_replicate hblank) (by decide)
  · rw [hshown, List.length_append, List.length_replicate, List.length_replicate]
    omega
  · rw [hshown, List.countP_append, List.countP_replicate, List.countP_replicate,
      if_pos (by rw [decide_eq_true_eq]; exact filledCell_ne_blank color k), if_neg (by simp),
      Nat.add_zero]

/-! ## §4. The chart. -/

/-- The filled columns of a disk's row. -/
def filledOf (disks : List PhysicalDisk) (width : Nat) (d : PhysicalDisk) : Nat :=
  barFill width (maxSize (physicalDisks disks)) d.sizeBytes

/-- The chart of the disks, by its rows. -/
structure Comparable (fmt : NumberFormat) (width : Nat) (color : Bool) (disks : List PhysicalDisk)
    (rows : List (List Char)) : Prop where
  /-- A checked build gets through the total; the chart is its title and the rows. -/
  drawn : ∃ total : UInt64, checkedSum 64 0 (physicalSizes disks) = some total.toNat
    ∧ renderOverview fmt disks width color = some (String.ofList
        (overviewHeader fmt (physicalDisks disks).length total ++ rows.flatten))
  /-- One row for each physical disk, in order, with `width` columns in its brackets. -/
  rows_shown : List.Forall₂ (fun d row => RowShows width (filledOf disks width d) d row)
    (physicalDisks disks) rows
  /-- On no machine does the arithmetic of a row overflow, or the difference underflow. -/
  no_underflow : ∀ bits ≤ 64, width < 2 ^ bits → ∀ d ∈ physicalDisks disks,
    fillChecked bits width (maxSize (physicalDisks disks)) d.sizeBytes
      = some (filledOf disks width d, width - filledOf disks width d)
  fits : ∀ d ∈ physicalDisks disks, filledOf disks width d ≤ width
  mono : ∀ d ∈ physicalDisks disks, ∀ d' ∈ physicalDisks disks, d.sizeBytes ≤ d'.sizeBytes →
    filledOf disks width d ≤ filledOf disks width d'
  largest : ∀ d ∈ physicalDisks disks, 0 < d.sizeBytes →
    (∀ d' ∈ physicalDisks disks, d'.sizeBytes ≤ d.sizeBytes) → filledOf disks width d = width
  nonempty : ∀ d ∈ physicalDisks disks, 0 < d.sizeBytes → 1 ≤ width →
    1 ≤ filledOf disks width d
  empty : ∀ d ∈ physicalDisks disks, d.sizeBytes = 0 → filledOf disks width d = 0

/-- **THE ROWS OF THE OVERVIEW ARE COMPARABLE.** -/
theorem overview_comparable (fmt : NumberFormat) (width : Nat) (color : Bool)
    (disks : List PhysicalDisk) (h : 2 ≤ (physicalDisks disks).length)
    (hsum : (physicalSizes disks).sum < 2 ^ 64) :
    ∃ rows, Comparable fmt width color disks rows := by
  have htotal : checkedSum 64 0 (physicalSizes disks)
      = some (totalSize (physicalDisks disks)).toNat := by
    rw [checkedSum_eq_some (by omega), Nat.zero_add, toNat_totalSize, Nat.mod_eq_of_lt hsum]
  refine ⟨overviewLines fmt width color (physicalDisks disks), ?_⟩
  refine
    { drawn := ⟨_, htotal, renderOverview_eq fmt width color h⟩
      rows_shown := ?_
      no_underflow := fun bits hbits hwidth d hd => fillChecked_eq hbits hwidth (le_maxSize hd)
      fits := fun d _ => barFill_le width _ d.sizeBytes
      mono := fun d _ d' _ hle => barFill_mono width _ hle
      largest := ?_
      nonempty := fun d _ hpos hwidth => barFill_pos _ hpos hwidth
      empty := ?_ }
  · have hnumbers : (physicalDisks disks).zipIdx.map Prod.fst = physicalDisks disks :=
      List.zipIdx_map_fst 0 _
    conv => arg 2; rw [← hnumbers]
    unfold overviewLines
    rw [List.forall₂_map_left_iff, List.forall₂_map_right_iff, List.forall₂_same]
    intro x _
    exact rowShows_overviewRow fmt width color _ _ ⟨x.2 % 8, _⟩ x.1
  · intro d hd hpos hmax
    unfold filledOf
    rw [maxSize_eq hd hpos hmax, barFill_self width hpos]
  · intro d _ hzero
    unfold filledOf
    rw [hzero, barFill_zero]

/-- Sizes that divide nothing evenly, an empty disk, and a container between them. -/
def unevenDisks : List PhysicalDisk :=
  [ diskWith 1000 [], { diskWith 5000 [] with synthesized := true }, diskWith 333 [],
    diskWith 0 [], diskWith 1 [] ]

theorem overview_comparable_uneven :
    2 ≤ (physicalDisks unevenDisks).length ∧ (physicalSizes unevenDisks).sum < 2 ^ 64
      ∧ ∃ rows, Comparable byteFormat 20 true unevenDisks rows :=
  ⟨by decide, by decide, overview_comparable byteFormat 20 true unevenDisks (by decide) (by decide)⟩

end LivediskForensic.Render
