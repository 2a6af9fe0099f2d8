/-
  LivediskForensic.Render.Slots — THE SLOT TABLE STAYS IN RANGE.

  `segments` numbers the partitions 1, 2, … in order (`indices_segments`), the
  table has one place more than there are partitions, and every slot written
  is one of the palette (`slotLoop_spec`).  So every later read of the table,
  and of the palette through it, succeeds (`partitionSlots_spec`).  No index is
  written twice, so the largest partition keeps the accent
  (`partitionSlots_largest`).
-/
import LivediskForensic.Render.Widths

namespace LivediskForensic.Render

open LivediskForensic.Lib

/-! ## §1. The numbering of the partitions. -/

/-- The partitions in stable order of their start offset. -/
def byOffset (disk : PhysicalDisk) : List Partition :=
  sortByKey (fun p => p.startOffset.toNat) disk.partitions

/-- A gap has no number. -/
theorem filter_gap (c : Prop) [Decidable c] (size : UInt64) :
    (if c then [freeSegment size] else []).filter (fun s => s.index.isSome) = [] := by
  by_cases h : c
  · rw [if_pos h]
    rfl
  · rw [if_neg h]
    rfl

/-- Without the gaps the segments are the partitions, numbered. -/
theorem filter_segmentLoop (size : UInt64) : ∀ (ps : List Partition) (i : Nat) (cursor : UInt64),
    (segmentLoop size i cursor ps).filter (fun s => s.index.isSome)
      = (ps.zipIdx i).map (fun pi => partitionSegment pi.2 pi.1) := by
  intro ps
  induction ps with
  | nil =>
      intro i cursor
      exact filter_gap (size > cursor) (size - cursor)
  | cons p ps ih =>
      intro i cursor
      unfold segmentLoop
      rw [List.filter_append, filter_gap, List.nil_append, List.filter_cons_of_pos rfl, ih,
        List.zipIdx_cons, List.map_cons]

/-- The partitions by index and size, in start-offset order. -/
theorem partsOf_segments (disk : PhysicalDisk) :
    partsOf (segments disk) = (byOffset disk).zipIdx.map (fun x => (x.2 + 1, x.1.sizeBytes)) := by
  have hfilter : partsOf (segments disk)
      = partsOf ((segments disk).filter (fun s => s.index.isSome)) := by
    unfold partsOf
    rw [List.filterMap_filter]
    congr 1
    funext s
    cases s.index <;> rfl
  rw [hfilter]
  show partsOf ((segmentLoop disk.sizeBytes 0 0 (byOffset disk)).filter _) = _
  rw [filter_segmentLoop]
  unfold partsOf
  rw [List.filterMap_map, ← List.filterMap_eq_map]
  rfl

theorem map_fst_partsOf (segs : List Segment) :
    (partsOf segs).map Prod.fst = segs.filterMap Segment.index := by
  unfold partsOf
  rw [List.map_filterMap]
  congr 1
  funext s
  rw [Option.map_map]
  exact Option.map_id'

/-- The partitions are numbered 1, 2, … in order. -/
theorem indices_segments (disk : PhysicalDisk) :
    (segments disk).filterMap Segment.index = List.range' 1 disk.partitions.length := by
  have hnumbers : (partsOf (segments disk)).map Prod.fst
      = ((byOffset disk).zipIdx.map Prod.snd).map (fun i => i + 1) := by
    rw [partsOf_segments, List.map_map, List.map_map]
    rfl
  rw [← map_fst_partsOf, hnumbers, List.zipIdx_map_snd, ← List.range'_succ_left]
  unfold byOffset
  rw [length_sortByKey]

/-! ## §2. The loop. -/

theorem slot_lt (k : Nat) : k % PALETTE.length < PALETTE.length := Nat.mod_lt k (by decide)

/-- Two rounds get past the accent. -/
theorem skipAccent_spec (accent next : Nat) :
    ∃ k, skipAccent accent 2 next = some k ∧ k % PALETTE.length ≠ accent := by
  have hlen : PALETTE.length = 8 := rfl
  unfold skipAccent
  by_cases h0 : next % PALETTE.length = accent
  -- the next number is in another class modulo eight
  · have h1 : (next + 1) % PALETTE.length ≠ accent := by
      rw [hlen] at *
      omega
    refine ⟨next + 1, ?_, h1⟩
    rw [if_pos h0]
    show (if (next + 1) % PALETTE.length = accent then none else some (next + 1)) = _
    rw [if_neg h1]
  · exact ⟨next, if_neg h0, h0⟩

/-- A table of palette slots. -/
def SlotTable (slots : List Nat) : Prop := ∀ s ∈ slots, s < PALETTE.length

/-- One write. -/
theorem setSlot_spec {slots : List Nat} {i s : Nat} (hi : i < slots.length)
    (hs : s < PALETTE.length) (h : SlotTable slots) :
    ∃ slots', setSlot slots i s = some slots' ∧ slots'.length = slots.length ∧ SlotTable slots' := by
  refine ⟨slots.set i s, if_pos hi, List.length_set, ?_⟩
  intro t ht
  rcases List.mem_or_eq_of_mem_set ht with hold | hnew
  · exact h t hold
  · exact hnew ▸ hs

/-- **The run of the loop**: no write is out of range, and only palette slots are written. -/
theorem slotLoop_spec {accent : Nat} (hacc : accent < PALETTE.length) (largest : Option Nat) :
    ∀ (parts : List (Nat × UInt64)) (next : Nat) (slots : List Nat),
      (∀ p ∈ parts, p.1 < slots.length) → SlotTable slots →
      ∃ out, slotLoop accent largest parts next slots = some out
        ∧ out.length = slots.length ∧ SlotTable out
  | [], _, slots, _, htable => ⟨slots, rfl, rfl, htable⟩
  | (i, size) :: parts, next, slots, hparts, htable => by
      have hi : i < slots.length := hparts (i, size) List.mem_cons_self
      -- what a write with a palette slot leaves to do
      have hrest : ∀ s next', s < PALETTE.length →
          ∃ out, (setSlot slots i s).bind (slotLoop accent largest parts next') = some out
            ∧ out.length = slots.length ∧ SlotTable out := by
        intro s next' hs
        obtain ⟨slots', hset, hlen, htable'⟩ := setSlot_spec hi hs htable
        obtain ⟨out, hout, hlen', htable''⟩ := slotLoop_spec hacc largest parts next' slots'
          (fun p hp => hlen ▸ hparts p (List.mem_cons_of_mem _ hp)) htable'
        exact ⟨out, by rw [hset]; exact hout, hlen'.trans hlen, htable''⟩
      unfold slotLoop
      by_cases hl : some i = largest
      · rw [if_pos hl]
        exact hrest accent next hacc
      · rw [if_neg hl]
        obtain ⟨k, hk, _⟩ := skipAccent_spec accent next
        rw [hk]
        exact hrest (k % PALETTE.length) (k + 1) (slot_lt k)

theorem length_partsOf {segs : List Segment} {m : Nat}
    (h : segs.filterMap Segment.index = List.range' 1 m) : (partsOf segs).length = m := by
  have hlen := congrArg List.length (map_fst_partsOf segs)
  rw [h, List.length_map, List.length_range'] at hlen
  exact hlen

/-- Over partitions numbered 1 to `m` the table comes out, with a place for each number. -/
theorem partitionSlots_numbered {segs : List Segment} {m accent : Nat}
    (h : segs.filterMap Segment.index = List.range' 1 m) (hacc : accent < PALETTE.length) :
    ∃ slots, partitionSlots segs accent = some slots ∧ slots.length = m + 1 ∧ SlotTable slots := by
  -- the table starts with one place more than there are partitions, all slot 0
  obtain ⟨slots, hslots, hlen, htable⟩ := slotLoop_spec hacc
    ((maxByKey (fun p => p.2.toNat) (partsOf segs)).map Prod.fst)
    (partsOf segs) 0 (List.replicate ((partsOf segs).length + 1) 0)
    (by
      intro p hp
      have hidx : p.1 ∈ (partsOf segs).map Prod.fst := List.mem_map_of_mem hp
      rw [map_fst_partsOf, h, List.mem_range'_1] at hidx
      rw [List.length_replicate, length_partsOf h]
      omega)
    (by
      intro s hs
      rw [List.eq_of_mem_replicate hs]
      decide)
  rw [List.length_replicate, length_partsOf h] at hlen
  exact ⟨slots, hslots, hlen, htable⟩

/-- **Every partition has its slot**, and the slot is one of the palette. -/
theorem partitionSlots_spec (disk : PhysicalDisk) {accent : Nat} (hacc : accent < PALETTE.length) :
    ∃ slots, partitionSlots (segments disk) accent = some slots
      ∧ ∀ seg ∈ segments disk, ∀ idx, seg.index = some idx →
          ∃ s, slots[idx]? = some s ∧ s < PALETTE.length := by
  obtain ⟨slots, hslots, hlen, htable⟩ := partitionSlots_numbered (indices_segments disk) hacc
  refine ⟨slots, hslots, ?_⟩
  intro seg hseg idx hidx
  have hlt : idx < slots.length := by
    have hmem : idx ∈ (segments disk).filterMap Segment.index :=
      List.mem_filterMap.mpr ⟨seg, hseg, hidx⟩
    rw [indices_segments, List.mem_range'_1] at hmem
    omega
  exact ⟨slots[idx], List.getElem?_eq_getElem hlt, htable _ (List.getElem_mem hlt)⟩

/-! ## §3. The largest partition. -/

/-- What the loop body does: one write, of the accent or of the next slot that is not, and the
rest of the loop. -/
theorem slotLoop_cons {accent : Nat} {largest : Option Nat} {i : Nat} {size : UInt64}
    {parts : List (Nat × UInt64)} {next : Nat} {slots out : List Nat}
    (h : slotLoop accent largest ((i, size) :: parts) next slots = some out) :
    ∃ s next', i < slots.length
      ∧ ((some i = largest ∧ s = accent ∧ next' = next)
        ∨ (some i ≠ largest ∧ ∃ k, skipAccent accent 2 next = some k ∧ s = k % PALETTE.length
            ∧ next' = k + 1))
      ∧ slotLoop accent largest parts next' (slots.set i s) = some out := by
  have hwrite : ∀ s next', (setSlot slots i s).bind (slotLoop accent largest parts next') = some out →
      i < slots.length ∧ slotLoop accent largest parts next' (slots.set i s) = some out := by
    intro s next' hs
    unfold setSlot at hs
    by_cases hi : i < slots.length
    · rw [if_pos hi] at hs
      exact ⟨hi, hs⟩
    · rw [if_neg hi] at hs
      exact absurd hs (by simp)
  unfold slotLoop at h
  by_cases hl : some i = largest
  · rw [if_pos hl] at h
    obtain ⟨hi, hrest⟩ := hwrite accent next h
    exact ⟨accent, next, hi, Or.inl ⟨hl, rfl, rfl⟩, hrest⟩
  · rw [if_neg hl] at h
    obtain ⟨k, hk, _⟩ := skipAccent_spec accent next
    rw [hk] at h
    obtain ⟨hi, hrest⟩ := hwrite (k % PALETTE.length) (k + 1) h
    exact ⟨k % PALETTE.length, k + 1, hi, Or.inr ⟨hl, k, hk, rfl, rfl⟩, hrest⟩

/-- Places of other indices stay as they are. -/
theorem slotLoop_frame {accent : Nat} {largest : Option Nat} {m : Nat} :
    ∀ (parts : List (Nat × UInt64)) {next : Nat} {slots out : List Nat},
      slotLoop accent largest parts next slots = some out → m ∉ parts.map Prod.fst →
      out[m]? = slots[m]? := by
  intro parts
  induction parts with
  | nil =>
      intro next slots out h _
      injection h with h
      rw [h]
  | cons part parts ih =>
      intro next slots out h hm
      rw [List.map_cons, List.mem_cons, not_or] at hm
      obtain ⟨s, next', -, -, hrest⟩ := slotLoop_cons h
      rw [ih hrest hm.2, List.getElem?_set_ne (fun heq => hm.1 heq.symm)]

/-- **The largest index gets the accent**, and no later write takes it away. -/
theorem slotLoop_largest {accent m : Nat} : ∀ (parts : List (Nat × UInt64)) {next : Nat}
    {slots out : List Nat}, slotLoop accent (some m) parts next slots = some out →
    (parts.map Prod.fst).Nodup → m ∈ parts.map Prod.fst → out[m]? = some accent := by
  intro parts
  induction parts with
  | nil =>
      intro next slots out _ _ hm
      exact absurd hm List.not_mem_nil
  | cons part parts ih =>
      intro next slots out h hnodup hm
      rw [List.map_cons, List.nodup_cons] at hnodup
      obtain ⟨s, next', hi, hs, hrest⟩ := slotLoop_cons h
      rw [List.map_cons, List.mem_cons] at hm
      rcases hm with hm | hm
      · rw [hm, slotLoop_frame parts hrest hnodup.1, List.getElem?_set_self hi]
        rcases hs with ⟨_, hacc, _⟩ | ⟨hne, _⟩
        · rw [hacc]
        · exact absurd (congrArg some hm.symm) hne
      · exact ih hrest hnodup.2 hm

/-- **The largest partition has the accent slot.** -/
theorem partitionSlots_largest {disk : PhysicalDisk} {accent : Nat} {slots : List Nat}
    (h : partitionSlots (segments disk) accent = some slots) {part : Nat × UInt64}
    (hmax : maxByKey (fun p => p.2.toNat) (partsOf (segments disk)) = some part) :
    slots[part.1]? = some accent := by
  have hnodup : ((partsOf (segments disk)).map Prod.fst).Nodup := by
    rw [map_fst_partsOf, indices_segments]
    exact List.nodup_range'
  have hmem : part.1 ∈ (partsOf (segments disk)).map Prod.fst := by
    obtain ⟨i, hi, -⟩ := maxByKey_spec hmax
    exact List.mem_map_of_mem (List.mem_of_getElem? hi)
  have hloop : slotLoop accent
      ((maxByKey (fun p => p.2.toNat) (partsOf (segments disk))).map Prod.fst)
      (partsOf (segments disk)) 0 (List.replicate ((partsOf (segments disk)).length + 1) 0)
        = some slots := h
  rw [hmax] at hloop
  exact slotLoop_largest _ hloop hnodup hmem

end LivediskForensic.Render
