/-
  LivediskForensic.Render.SlotWindow — NEIGHBOURS ARE DRAWN APART.

  The counter of `partition_slots` runs past the palette and steps over the
  accent's class, and the largest partition interrupts it at an arbitrary
  place.  What it has written so far is a round robin (`Lib.RoundRobin`): the
  counter stays aligned with the number of partitions in front that are not the
  largest (`visit`), so partition `i` gets the slot `slotOf` (`slotLoop_run`).

      slotOf_window              — any seven consecutive partitions differ
      partitionSlots_keepsApart  — table, accent, window and pens in one
-/
import LivediskForensic.Lib.RoundRobin
import LivediskForensic.Render.BarAgreement

namespace LivediskForensic.Render

open LivediskForensic.Lib

/-! ## §1. The slot of a partition. -/

/-- How many partitions in front of `i` are not the largest one, `L`. -/
def visit (L i : Nat) : Nat := i - 1 - (if L < i then 1 else 0)

/-- The slot of partition `i`, when `L` is the largest. -/
def slotOf (accent L i : Nat) : Nat :=
  if i = L then accent else other PALETTE.length accent (visit L i)

theorem slotOf_eq_accent_iff (accent L i : Nat) : slotOf accent L i = accent ↔ i = L := by
  unfold slotOf
  by_cases h : i = L
  · rw [if_pos h]
    exact ⟨fun _ => h, fun _ => rfl⟩
  · rw [if_neg h]
    exact ⟨fun he => absurd he (other_ne _), fun he => absurd he h⟩

/-- **Seven consecutive partitions have seven slots.** -/
theorem slotOf_window (accent : Nat) {L i j : Nat} (hL : 1 ≤ L) (hi : 1 ≤ i) (hij : i < j)
    (hj : j < i + 7) :
    slotOf accent L i ≠ slotOf accent L j := by
  intro heq
  by_cases hiL : i = L
  -- the accent is one partition's only
  · have hacc : slotOf accent L j = accent := heq ▸ (slotOf_eq_accent_iff accent L i).mpr hiL
    have hjL := (slotOf_eq_accent_iff accent L j).mp hacc
    omega
  · by_cases hjL : j = L
    · have hacc : slotOf accent L i = accent := heq ▸ (slotOf_eq_accent_iff accent L j).mpr hjL
      exact hiL ((slotOf_eq_accent_iff accent L i).mp hacc)
    · unfold slotOf at heq
      rw [if_neg hiL, if_neg hjL] at heq
      -- the largest may stand between the two, the visits are still in order
      have hlt : visit L i < visit L j := by
        unfold visit
        split_ifs <;> omega
      have hwindow : visit L j < visit L i + (PALETTE.length - 1) := by
        show visit L j < visit L i + 7
        unfold visit
        split_ifs <;> omega
      exact other_window hlt hwindow heq

/-! ## §2. The run of the loop. -/

/-- An aligned counter gets past the accent to the slot of its visit. -/
theorem skipAccent_aligned {accent next k : Nat}
    (h : Aligned PALETTE.length accent next k) {n : Nat} (hn : skipAccent accent 2 next = some n) :
    n % PALETTE.length = other PALETTE.length accent k := by
  unfold skipAccent at hn
  rcases h with hvisit | ⟨hacc, hvisit⟩
  · have hne : ¬ next % PALETTE.length = accent := by
      rw [hvisit]
      exact other_ne k
    rw [if_neg hne] at hn
    injection hn with hn
    rw [← hn, hvisit]
  · have hne : ¬ (next + 1) % PALETTE.length = accent := by
      rw [hvisit]
      exact other_ne k
    rw [if_pos hacc] at hn
    change (if (next + 1) % PALETTE.length = accent then none else some (next + 1)) = some n at hn
    rw [if_neg hne] at hn
    injection hn with hn
    rw [← hn, hvisit]

/-- The largest partition is no visit. -/
theorem visit_succ_self (L : Nat) : visit L (L + 1) = visit L L := by
  unfold visit
  split_ifs <;> omega

theorem visit_succ {L i : Nat} (hL : 1 ≤ L) (hi : 1 ≤ i) (h : i ≠ L) :
    visit L (i + 1) = visit L i + 1 := by
  unfold visit
  split_ifs <;> omega

/-- **The run of the loop**, from partition `b` on: every partition gets its slot. -/
theorem slotLoop_run {accent L : Nat} (hacc : accent < PALETTE.length) (hL : 1 ≤ L) :
    ∀ (parts : List (Nat × UInt64)) (b next : Nat) {slots out : List Nat}, 1 ≤ b →
      parts.map Prod.fst = List.range' b parts.length →
      Aligned PALETTE.length accent next (visit L b) →
      slotLoop accent (some L) parts next slots = some out →
      ∀ i, b ≤ i → i < b + parts.length → out[i]? = some (slotOf accent L i) := by
  have hp : 2 ≤ PALETTE.length := by decide
  intro parts
  induction parts with
  | nil =>
      intro b next slots out _ _ _ _ i hbi hib
      rw [List.length_nil] at hib
      omega
  | cons part parts ih =>
      intro b next slots out hb hnum halign hrun i hbi hib
      rw [List.map_cons, List.length_cons, List.range'_succ, List.cons.injEq] at hnum
      obtain ⟨hhead, htail⟩ := hnum
      obtain ⟨s, next', hlt, hs, hrest⟩ := slotLoop_cons hrun
      rw [hhead] at hlt hs
      -- the slot that is written, and where it leaves the counter
      have hstep : s = slotOf accent L b
          ∧ Aligned PALETTE.length accent next' (visit L (b + 1)) := by
        unfold slotOf
        rcases hs with ⟨hbL, hs, hnext⟩ | ⟨hbL, k, hk, hs, hnext⟩
        · injection hbL with hbL
          have hvisit : visit L (b + 1) = visit L b := by
            rw [hbL, visit_succ_self]
          rw [if_pos hbL, hs, hnext, hvisit]
          exact ⟨rfl, halign⟩
        · have hne : b ≠ L := fun h => hbL (congrArg some h)
          have hclass := skipAccent_aligned halign hk
          rw [if_neg hne, hs, hnext, visit_succ hL hb hne]
          exact ⟨hclass, aligned_succ hp hacc hclass⟩
      by_cases hib' : i = b
      · have hfresh : i ∉ parts.map Prod.fst := by
          rw [htail, List.mem_range'_1]
          omega
        rw [slotLoop_frame parts hrest hfresh, hhead, hib', List.getElem?_set_self hlt, hstep.1]
      · rw [List.length_cons] at hib
        exact ih (b + 1) next' (by omega) htail hstep.2 hrest i (by omega) (by omega)

/-! ## §3. The table. -/

section Numbered

variable {segs : List Segment} {m : Nat} (hsegs : segs.filterMap Segment.index = List.range' 1 m)

include hsegs

theorem partsOf_number {k : Nat} {part : Nat × UInt64} (h : (partsOf segs)[k]? = some part) :
    part.1 = k + 1 ∧ k < m := by
  have hfst : ((partsOf segs).map Prod.fst)[k]? = some part.1 := by
    rw [List.getElem?_map, h, Option.map_some]
  rw [map_fst_partsOf, hsegs] at hfst
  obtain ⟨hk, hval⟩ := List.getElem?_eq_some_iff.mp hfst
  rw [List.getElem_range'] at hval
  rw [List.length_range'] at hk
  omega

/-- A partition's segment stands in the list of parts at its number. -/
theorem getElem?_partsOf {seg : Segment} (hseg : seg ∈ segs) {idx : Nat}
    (hidx : seg.index = some idx) :
    1 ≤ idx ∧ idx ≤ m ∧ (partsOf segs)[idx - 1]? = some (idx, seg.sizeBytes) := by
  have hmem : (idx, seg.sizeBytes) ∈ partsOf segs :=
    List.mem_filterMap.mpr ⟨seg, hseg, by rw [hidx, Option.map_some]⟩
  obtain ⟨k, hk⟩ := List.getElem?_of_mem hmem
  have hnum := partsOf_number hsegs hk
  have hk' : idx = k + 1 := hnum.1
  rw [hk', Nat.add_sub_cancel]
  exact ⟨by omega, by omega, hk' ▸ hk⟩

/-- The partition with the accent: the last of the largest. -/
theorem exists_largest (hm : 1 ≤ m) :
    ∃ part, maxByKey (fun p => p.2.toNat) (partsOf segs) = some part
    ∧ 1 ≤ part.1 ∧ part.1 ≤ m ∧ (∃ seg ∈ segs, seg.index = some part.1 ∧ seg.sizeBytes = part.2)
    ∧ ∀ seg ∈ segs, ∀ idx, seg.index = some idx →
        seg.sizeBytes ≤ part.2 ∧ (part.1 < idx → seg.sizeBytes < part.2) := by
  have hne : partsOf segs ≠ [] := by
    intro hnil
    have hlen := length_partsOf hsegs
    rw [hnil, List.length_nil] at hlen
    omega
  obtain ⟨part, hpart⟩ :=
    Option.ne_none_iff_exists'.mp (fun hnone => hne (maxByKey_eq_none.mp hnone))
  obtain ⟨k, hk, hmax⟩ := maxByKey_spec hpart
  have hnum := partsOf_number hsegs hk
  refine ⟨part, hpart, by omega, by omega, ?_, ?_⟩
  · obtain ⟨seg, hseg, hmap⟩ := List.mem_filterMap.mp (List.mem_of_getElem? hk)
    obtain ⟨idx, hidx, hpair⟩ := Option.map_eq_some_iff.mp hmap
    exact ⟨seg, hseg, by rw [hidx, ← hpair], by rw [← hpair]⟩
  · intro seg hseg idx hidx
    obtain ⟨h1, -, hget⟩ := getElem?_partsOf hsegs hseg hidx
    obtain ⟨hle, hlt⟩ := hmax (idx - 1) (idx, seg.sizeBytes) hget
    exact ⟨UInt64.le_iff_toNat_le.mpr hle, fun h => UInt64.lt_iff_toNat_lt.mpr (hlt (by omega))⟩

/-- Every partition's place in the table, in terms of the largest. -/
theorem partitionSlots_slotOf {accent : Nat} (hacc : accent < PALETTE.length) {slots : List Nat}
    (hslots : partitionSlots segs accent = some slots) {part : Nat × UInt64}
    (hpart : maxByKey (fun p => p.2.toNat) (partsOf segs) = some part) (hL : 1 ≤ part.1) :
    ∀ i, 1 ≤ i → i ≤ m → slots[i]? = some (slotOf accent part.1 i) := by
  intro i hi him
  have hlen := length_partsOf hsegs
  have hnum : (partsOf segs).map Prod.fst = List.range' 1 (partsOf segs).length := by
    rw [map_fst_partsOf, hsegs, hlen]
  have hstart : Aligned PALETTE.length accent 0 (visit part.1 1) := by
    have hzero : visit part.1 1 = 0 := by
      unfold visit
      omega
    rw [hzero]
    exact aligned_zero (by decide)
  have hrun : slotLoop accent ((maxByKey (fun p => p.2.toNat) (partsOf segs)).map Prod.fst)
      (partsOf segs) 0 (List.replicate ((partsOf segs).length + 1) 0) = some slots := hslots
  rw [hpart, Option.map_some] at hrun
  exact slotLoop_run hacc hL (partsOf segs) 1 0 (Nat.le_refl 1) hnum hstart hrun i hi (by omega)

end Numbered

/-- Different slots are different pens. -/
theorem slot_pens : ∀ j k : Fin 8, j ≠ k →
    (Pen.slot j).ansi ≠ (Pen.slot k).ansi ∧ (Pen.slot j).glyph ≠ (Pen.slot k).glyph := by
  decide

/-- So are the pens of two partitions with different entries. -/
theorem penAt_ne {slots : List Nat} {seg seg' : Segment} {i j s s' : Nat}
    (hi : seg.index = some i) (hj : seg'.index = some j) (hs : slots[i]? = some s)
    (hs' : slots[j]? = some s') (hslt : s < PALETTE.length) (hslt' : s' < PALETTE.length)
    (hne : s ≠ s') : (penAt slots seg).ansi ≠ (penAt slots seg').ansi
      ∧ (penAt slots seg).glyph ≠ (penAt slots seg').glyph := by
  have hfin : (Fin.ofNat 8 (slots.getD i 0)) ≠ Fin.ofNat 8 (slots.getD j 0) := by
    rw [List.getD_eq_getElem?_getD, List.getD_eq_getElem?_getD, hs, hs', Option.getD_some,
      Option.getD_some]
    intro h
    have hval : s % 8 = s' % 8 := congrArg Fin.val h
    change s < 8 at hslt
    change s' < 8 at hslt'
    omega
  unfold penAt
  rw [hi, hj]
  exact slot_pens _ _ hfin

/-- What the table of partitions numbered 1 to `m` promises. -/
structure KeepsApart (segs : List Segment) (m accent : Nat) (slots : List Nat) : Prop where
  /-- Every entry is a slot of the palette. -/
  palette : ∀ s ∈ slots, s < PALETTE.length
  /-- Every read, of the table and of the palettes through it, is in range. -/
  read : ∀ seg ∈ segs, (penOf slots seg).isSome = true
  /-- One partition has the accent: of maximal size, and the last such. -/
  accent_one : 1 ≤ m → ∃ largest ∈ segs, ∃ L, largest.index = some L
    ∧ (∀ seg ∈ segs, ∀ idx, seg.index = some idx →
        seg.sizeBytes ≤ largest.sizeBytes ∧ (L < idx → seg.sizeBytes < largest.sizeBytes))
    ∧ ∀ i, 1 ≤ i → i ≤ m → (slots[i]? = some accent ↔ i = L)
  /-- Seven consecutive partitions have pairwise distinct slots. -/
  window : ∀ i j, 1 ≤ i → i < j → j < i + 7 → j ≤ m → slots[i]? ≠ slots[j]?
  /-- So they are drawn in distinct colours and glyphs. -/
  pens : ∀ seg ∈ segs, ∀ seg' ∈ segs, ∀ i j, seg.index = some i → seg'.index = some j →
    i < j → j < i + 7 → ∃ pen pen', penOf slots seg = some pen ∧ penOf slots seg' = some pen'
      ∧ pen.1 ≠ pen'.1 ∧ pen.2 ≠ pen'.2

/-- **`partition_slots` KEEPS NEIGHBOURS APART**, over every segment list whose partitions are
numbered 1 to `m` in order (what `segments` produces, `indices_segments`). -/
theorem partitionSlots_keepsApart (segs : List Segment) (m accent : Nat)
    (hsegs : segs.filterMap Segment.index = List.range' 1 m) (hacc : accent < PALETTE.length) :
    ∃ slots, partitionSlots segs accent = some slots ∧ KeepsApart segs m accent slots := by
  obtain ⟨slots, hslots, hlen, htable⟩ := partitionSlots_numbered hsegs hacc
  have hread : ∀ seg ∈ segs, ∀ idx, seg.index = some idx →
      ∃ s, slots[idx]? = some s ∧ s < PALETTE.length := by
    intro seg hseg idx hidx
    have hlt : idx < slots.length := by
      have := getElem?_partsOf hsegs hseg hidx
      omega
    exact ⟨slots[idx], List.getElem?_eq_getElem hlt, htable _ (List.getElem_mem hlt)⟩
  have hpen : ∀ seg ∈ segs,
      penOf slots seg = some ((penAt slots seg).ansi, (penAt slots seg).glyph) :=
    fun seg hseg => penOf_eq (hread seg hseg)
  have hwindow : ∀ i j, 1 ≤ i → i < j → j < i + 7 → j ≤ m → slots[i]? ≠ slots[j]? := by
    intro i j hi hij hj hjm heq
    obtain ⟨part, hpart, hL, -⟩ := exists_largest hsegs (by omega)
    have hslot := partitionSlots_slotOf hsegs hacc hslots hpart hL
    rw [hslot i hi (by omega), hslot j (by omega) hjm] at heq
    exact slotOf_window accent hL hi hij hj (Option.some.inj heq)
  refine ⟨slots, hslots, ?_⟩
  refine
    { palette := htable
      read := fun seg hseg => by rw [hpen seg hseg]; rfl
      accent_one := ?_
      window := hwindow
      pens := ?_ }
  · intro hm
    obtain ⟨part, hpart, hL, hLm, ⟨largest, hmem, hidx, hsize⟩, hmax⟩ := exists_largest hsegs hm
    refine ⟨largest, hmem, part.1, hidx, hsize ▸ hmax, ?_⟩
    intro i hi him
    rw [partitionSlots_slotOf hsegs hacc hslots hpart hL i hi him, Option.some.injEq]
    exact slotOf_eq_accent_iff accent part.1 i
  · intro seg hseg seg' hseg' i j hi hj hij hj7
    have hi1 := (getElem?_partsOf hsegs hseg hi).1
    have hjm := (getElem?_partsOf hsegs hseg' hj).2.1
    obtain ⟨s, hs, hslt⟩ := hread seg hseg i hi
    obtain ⟨s', hs', hslt'⟩ := hread seg' hseg' j hj
    have hne : s ≠ s' := by
      intro h
      exact hwindow i j hi1 hij hj7 hjm (by rw [hs, hs', h])
    exact ⟨_, _, hpen seg hseg, hpen seg' hseg', penAt_ne hi hj hs hs' hslt hslt' hne⟩

/-- Nine partitions, the fourth the largest: the counter wraps and is interrupted. -/
def nineSegments : List Segment :=
  [10, 10, 10, 90, 10, 10, 10, 10, 10].zipIdx.map
    (fun x => { sizeBytes := x.1, index := some (x.2 + 1), label := "" })

theorem partitionSlots_keepsApart_nine :
    nineSegments.filterMap Segment.index = List.range' 1 9 ∧ 2 < PALETTE.length
      ∧ ∃ slots, partitionSlots nineSegments 2 = some slots ∧ KeepsApart nineSegments 9 2 slots :=
  ⟨by decide, by decide, partitionSlots_keepsApart nineSegments 9 2 (by decide) (by decide)⟩

example : partitionSlots nineSegments 2 = some [0, 0, 1, 3, 2, 4, 5, 6, 7, 0] := by decide

end LivediskForensic.Render
