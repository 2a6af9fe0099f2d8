/-
  LivediskForensic.Render.SegmentCover — THE SEGMENTS AGAINST THE DEVICE.

  A free segment is drawn by its size alone; read back, it is the span that
  starts at the largest end of the partitions before it (`freeSpans`).  Read
  so, the running cursor of `segments` is a sweep over the partitions' extents
  (`freeSpans_eq_gaps`), and the two questions about unallocated space become
  questions about the gaps of a sweep:

      segments_exact       — on a device that holds its partitions, the free
                             segments are exactly the uncovered bytes
      freeWithinDevice_iff — on any device, when they stay inside of it
-/
import LivediskForensic.Lib.Sweep
import LivediskForensic.Render.Slots

namespace LivediskForensic.Render

open LivediskForensic.Lib

/-! ## §1. Extents, and the reading of a segment list. -/

/-- The bytes of a partition. -/
def extent (p : Partition) : Span Nat :=
  { start := p.startOffset.toNat, stop := p.startOffset.toNat + p.sizeBytes.toNat }

/-- The end of the partition with that 1-based index. -/
def endOf (sorted : List Partition) (idx : Nat) : Nat :=
  ((sorted[idx - 1]?).map (fun p => (extent p).stop)).getD 0

/-- The spans of the free segments.  `reached` is the largest end of the partitions so far, which
is where a free segment starts. -/
def freeSpans (sorted : List Partition) : Nat → List Segment → List (Span Nat)
  | _, [] => []
  | reached, seg :: segs =>
      match seg.index with
      | none =>
          { start := reached, stop := reached + seg.sizeBytes.toNat }
            :: freeSpans sorted reached segs
      | some idx => freeSpans sorted (max reached (endOf sorted idx)) segs

/-- The unallocated space of a disk, as `segments` reports it. -/
def freeSpansOf (disk : PhysicalDisk) : List (Span Nat) :=
  freeSpans (byOffset disk) 0 (segments disk)

/-- The sizes of the free segments. -/
def freeSizes (segs : List Segment) : List Nat :=
  (segs.filter (fun s => s.index.isNone)).map (fun s => s.sizeBytes.toNat)

/-- A span is as long as its segment. -/
theorem map_length_freeSpans (sorted : List Partition) : ∀ (segs : List Segment) (reached : Nat),
    (freeSpans sorted reached segs).map Span.length = freeSizes segs := by
  intro segs
  induction segs with
  | nil =>
      intro reached
      rfl
  | cons seg segs ih =>
      intro reached
      unfold freeSpans freeSizes
      cases hidx : seg.index with
      | none =>
          show (reached + seg.sizeBytes.toNat - reached) :: _ = _
          rw [ih, List.filter_cons_of_pos (by rw [hidx]; rfl), List.map_cons, Nat.add_sub_cancel_left]
          rfl
      | some idx =>
          show (freeSpans sorted _ segs).map Span.length = _
          rw [ih, List.filter_cons_of_neg (by rw [hidx]; simp)]
          rfl

/-! ## §2. The cursor is a sweep. -/

theorem toNat_saturatingAdd (a b : UInt64) :
    (saturatingAdd a b).toNat = min (a.toNat + b.toNat) (2 ^ 64 - 1) := by
  unfold saturatingAdd
  by_cases h : a.toNat + b.toNat < 2 ^ 64
  · rw [if_pos h, UInt64.toNat_add]
    omega
  · rw [if_neg h, UInt64.toNat_ofNat']
    omega

/-- The cursor after a partition, against the largest end. -/
theorem toNat_max_saturatingAdd {cursor : UInt64} {reached : Nat} (p : Partition)
    (h : cursor.toNat = min reached (2 ^ 64 - 1)) :
    (max cursor (saturatingAdd p.startOffset p.sizeBytes)).toNat
      = min (max reached (extent p).stop) (2 ^ 64 - 1) := by
  have hsat := toNat_saturatingAdd p.startOffset p.sizeBytes
  have hstop : (extent p).stop = p.startOffset.toNat + p.sizeBytes.toNat := rfl
  show (if cursor ≤ saturatingAdd p.startOffset p.sizeBytes then _ else cursor).toNat = _
  by_cases hle : cursor ≤ saturatingAdd p.startOffset p.sizeBytes
  · rw [if_pos hle, hsat]
    rw [UInt64.le_iff_toNat_le] at hle
    omega
  · rw [if_neg hle, h]
    rw [UInt64.le_iff_toNat_le] at hle
    omega

/-- The free segment up to `next` stands for the gap up to `next`.  A saturated cursor lies behind
every offset, as the largest end does. -/
theorem freeSpans_gap {sorted : List Partition} {cursor next : UInt64} {reached : Nat}
    (h : cursor.toNat = min reached (2 ^ 64 - 1)) (segs : List Segment) :
    freeSpans sorted reached
        ((if next > cursor then [freeSegment (next - cursor)] else []) ++ segs)
      = gapBefore reached next.toNat ++ freeSpans sorted reached segs := by
  have hnext := next.toNat_lt
  unfold gapBefore
  by_cases hlt : next > cursor
  · have hlt' : cursor.toNat < next.toNat := UInt64.lt_iff_toNat_lt.mp hlt
    have hsize : (next - cursor).toNat = next.toNat - cursor.toNat :=
      UInt64.toNat_sub_of_le _ _ (UInt64.le_iff_toNat_le.mpr (Nat.le_of_lt hlt'))
    have hstop : reached + (next - cursor).toNat = next.toNat := by
      rw [hsize]
      omega
    rw [if_pos hlt, if_pos (by omega)]
    show { start := reached, stop := reached + (next - cursor).toNat } :: freeSpans sorted reached segs
      = _
    rw [hstop]
    rfl
  · have hle : next.toNat ≤ cursor.toNat := by
      rw [gt_iff_lt, UInt64.lt_iff_toNat_lt] at hlt
      omega
    rw [if_neg hlt, if_neg (by omega)]
    rfl

/-- **The run of the loop**, from partition `pre.length` on. -/
theorem freeSpans_segmentLoop (size : UInt64) : ∀ (ps pre : List Partition) (cursor : UInt64)
    (reached : Nat), cursor.toNat = min reached (2 ^ 64 - 1) →
    freeSpans (pre ++ ps) reached (segmentLoop size pre.length cursor ps)
      = gaps size.toNat reached (ps.map extent) := by
  intro ps
  induction ps with
  | nil =>
      intro pre cursor reached h
      show freeSpans _ reached (if size > cursor then [freeSegment (size - cursor)] else []) = _
      rw [← List.append_nil (if size > cursor then [freeSegment (size - cursor)] else []),
        freeSpans_gap h]
      exact List.append_nil _
  | cons p ps ih =>
      intro pre cursor reached h
      have hend : endOf (pre ++ p :: ps) (pre.length + 1) = (extent p).stop := by
        unfold endOf
        rw [Nat.add_sub_cancel, List.getElem?_append_right (Nat.le_refl _), Nat.sub_self]
        rfl
      have htail := ih (pre ++ [p]) _ _ (toNat_max_saturatingAdd p h)
      rw [List.append_assoc, List.singleton_append, List.length_append] at htail
      unfold segmentLoop
      rw [freeSpans_gap h]
      show gapBefore reached p.startOffset.toNat
        ++ freeSpans (pre ++ p :: ps) (max reached (endOf (pre ++ p :: ps) (pre.length + 1))) _ = _
      rw [hend]
      exact congrArg _ htail

/-- **The free segments are the gaps of the sweep.** -/
theorem freeSpans_eq_gaps (disk : PhysicalDisk) :
    freeSpansOf disk = gaps disk.sizeBytes.toNat 0 ((byOffset disk).map extent) :=
  freeSpans_segmentLoop disk.sizeBytes (byOffset disk) [] 0 0 rfl

theorem inOrder_extents (disk : PhysicalDisk) : InOrder ((byOffset disk).map extent) :=
  List.pairwise_map.mpr (sortByKey_pairwise _ disk.partitions)

theorem forall_mem_extents {disk : PhysicalDisk} {P : Span Nat → Prop} :
    (∀ s ∈ (byOffset disk).map extent, P s) ↔ ∀ p ∈ disk.partitions, P (extent p) := by
  unfold byOffset
  simp only [List.forall_mem_map, mem_sortByKey]

theorem extent_proper (p : Partition) : (extent p).start ≤ (extent p).stop :=
  Nat.le_add_right _ _

/-! ## §3. A device that holds its partitions. -/

/-- The segments are the device: each partition once, and for the rest the uncovered bytes. -/
structure SegmentsExact (disk : PhysicalDisk) : Prop where
  /-- Without the free segments, the partitions numbered from 1 in stable order of offset. -/
  numbered : (segments disk).filter (fun s => s.index.isSome)
    = (byOffset disk).zipIdx.map (fun pi => partitionSegment pi.2 pi.1)
  each_once : (byOffset disk).Perm disk.partitions
  by_offset : (byOffset disk).Pairwise (fun p q => p.startOffset ≤ q.startOffset)
  stable : ∀ k, (byOffset disk).filter (fun p => p.startOffset.toNat = k)
    = disk.partitions.filter (fun p => p.startOffset.toNat = k)
  /-- No free segment is empty, and none overlaps a partition. -/
  nonempty : ∀ seg ∈ segments disk, seg.index = none → seg.sizeBytes ≠ 0
  disjoint : ∀ g ∈ freeSpansOf disk, ∀ p ∈ disk.partitions, ∀ x,
    g.Covers x → ¬ (extent p).Covers x
  /-- Together they are the bytes that no partition covers. -/
  uncovered : ∀ x, (∃ g ∈ freeSpansOf disk, g.Covers x)
    ↔ x < disk.sizeBytes.toNat ∧ ∀ p ∈ disk.partitions, ¬ (extent p).Covers x
  total : (freeSizes (segments disk)).sum
    = ((Finset.range disk.sizeBytes.toNat).filter
        (fun x => ∀ p ∈ disk.partitions, ¬ (extent p).Covers x)).card

theorem nonempty_of_free {disk : PhysicalDisk} {seg : Segment} (hseg : seg ∈ segments disk)
    (hfree : seg.index = none) : ∃ g ∈ freeSpansOf disk, g.length = seg.sizeBytes.toNat := by
  have hmem : seg.sizeBytes.toNat ∈ freeSizes (segments disk) :=
    List.mem_map.mpr ⟨seg, List.mem_filter.mpr ⟨hseg, by rw [hfree]; rfl⟩, rfl⟩
  rw [← map_length_freeSpans (byOffset disk) (segments disk) 0] at hmem
  exact List.mem_map.mp hmem

/-- A byte is uncovered by the extents in order exactly when no partition of the disk covers it. -/
theorem uncovered_extents_iff {disk : PhysicalDisk} {x : Nat} :
    Uncovered disk.sizeBytes.toNat 0 ((byOffset disk).map extent) x
      ↔ x < disk.sizeBytes.toNat ∧ ∀ p ∈ disk.partitions, ¬ (extent p).Covers x := by
  unfold Uncovered
  rw [forall_mem_extents (P := fun s => ¬ s.Covers x)]
  simp

/-- **`segments` PARTITIONS THE DEVICE EXACTLY**, when every partition ends inside of it: in any
order, overlapping, nested, repeated or empty. -/
theorem segments_exact (disk : PhysicalDisk)
    (h : ∀ p ∈ disk.partitions,
      p.startOffset.toNat + p.sizeBytes.toNat ≤ disk.sizeBytes.toNat) : SegmentsExact disk := by
  have hinside : ∀ s ∈ (byOffset disk).map extent,
      s.start ≤ s.stop ∧ s.stop ≤ disk.sizeBytes.toNat := by
    rw [forall_mem_extents (P := fun s => s.start ≤ s.stop ∧ s.stop ≤ disk.sizeBytes.toNat)]
    intro p hp
    exact ⟨extent_proper p, h p hp⟩
  have huncovered : ∀ x, (∃ g ∈ freeSpansOf disk, g.Covers x)
      ↔ x < disk.sizeBytes.toNat ∧ ∀ p ∈ disk.partitions, ¬ (extent p).Covers x := by
    intro x
    rw [freeSpans_eq_gaps, covers_gaps_iff (inOrder_extents disk) hinside, uncovered_extents_iff]
  refine
    { numbered := filter_segmentLoop disk.sizeBytes (byOffset disk) 0 0
      each_once := sortByKey_perm _ _
      by_offset := ?_
      stable := sortByKey_filter_key _ _
      nonempty := ?_
      disjoint := ?_
      uncovered := huncovered
      total := ?_ }
  · refine (sortByKey_pairwise (fun p : Partition => p.startOffset.toNat) disk.partitions).imp ?_
    intro p q hpq
    exact UInt64.le_iff_toNat_le.mpr hpq
  · intro seg hseg hfree hzero
    obtain ⟨g, hg, hlen⟩ := nonempty_of_free hseg hfree
    rw [freeSpans_eq_gaps] at hg
    have hpos := start_lt_stop_of_mem_gaps hg
    rw [hzero] at hlen
    unfold Span.length at hlen
    have h0 : (0 : UInt64).toNat = 0 := rfl
    omega
  · intro g hg p hp x hx
    exact ((huncovered x).mp ⟨g, hg, hx⟩).2 p hp
  · rw [← map_length_freeSpans (byOffset disk) (segments disk) 0]
    show ((freeSpansOf disk).map Span.length).sum = _
    rw [freeSpans_eq_gaps, sum_gaps_eq_card (inOrder_extents disk) hinside]
    congr 1
    apply Finset.filter_congr
    intro x hx
    rw [uncovered_extents_iff]
    exact ⟨fun hu => hu.2, fun hu => ⟨Finset.mem_range.mp hx, hu⟩⟩

def partitionAt (name : String) (start size : UInt64) : Partition :=
  { devicePath := "\\\\.\\PhysicalDrive0"
    name := name
    startOffset := start
    sizeBytes := size
    partitionType := none
    mountPoint := none
    filesystem := none
    label := none }

def diskWith (size : UInt64) (partitions : List Partition) : PhysicalDisk :=
  { devicePath := "\\\\.\\PhysicalDrive0"
    name := "PhysicalDrive0"
    sizeBytes := size
    logicalSectorSize := 512
    physicalSectorSize := 512
    model := none
    serial := none
    removable := false
    readOnly := false
    synthesized := false
    partitions := partitions }

/-- An extended partition listed behind its two logical ones, and an empty entry. -/
def nested : PhysicalDisk :=
  diskWith 1000
    [partitionAt "p5" 200 100, partitionAt "p6" 250 150, partitionAt "p2" 100 500,
      partitionAt "p4" 700 0]

theorem segments_exact_nested : SegmentsExact nested := segments_exact nested (by decide)

/-! ## §4. Any device. -/

/-- No free segment reaches beyond the device. -/
structure FreeWithinDevice (disk : PhysicalDisk) : Prop where
  inside : ∀ g ∈ freeSpansOf disk, g.stop ≤ disk.sizeBytes.toNat
  total : (freeSizes (segments disk)).sum ≤ disk.sizeBytes.toNat
  /-- No legend row claims more unallocated space than the device has. -/
  each : ∀ seg ∈ segments disk, seg.index = none → seg.sizeBytes ≤ disk.sizeBytes

/-- Inside, and one after the other, so no longer than the device. -/
theorem freeWithinDevice_of_inside {disk : PhysicalDisk}
    (h : ∀ g ∈ freeSpansOf disk, g.stop ≤ disk.sizeBytes.toNat) : FreeWithinDevice disk := by
  refine ⟨h, ?_, ?_⟩
  · have hpw : (freeSpansOf disk).Pairwise (fun g h => g.stop ≤ h.start) := by
      rw [freeSpans_eq_gaps]
      refine gaps_pairwise _ ?_ _
      rw [forall_mem_extents (P := fun s => s.start ≤ s.stop)]
      exact fun p _ => extent_proper p
    have hproper : ∀ g ∈ freeSpansOf disk,
        0 ≤ g.start ∧ g.start ≤ g.stop ∧ g.stop ≤ disk.sizeBytes.toNat := by
      intro g hg
      have hlt := hg
      rw [freeSpans_eq_gaps] at hlt
      exact ⟨Nat.zero_le _, Nat.le_of_lt (start_lt_stop_of_mem_gaps hlt), h g hg⟩
    have hsum := sum_length_le hpw hproper
    rw [← map_length_freeSpans (byOffset disk) (segments disk) 0]
    exact hsum
  · intro seg hseg hfree
    obtain ⟨g, hg, hlen⟩ := nonempty_of_free hseg hfree
    have hstop := h g hg
    unfold Span.length at hlen
    rw [UInt64.le_iff_toNat_le]
    omega

/-- **WHEN FREE SPACE STAYS ON THE DEVICE**: exactly when every partition that starts beyond the
device's end is reached by another one that starts in front of it. -/
theorem freeWithinDevice_iff (disk : PhysicalDisk) :
    FreeWithinDevice disk
      ↔ ∀ p ∈ disk.partitions, p.startOffset ≤ disk.sizeBytes
          ∨ ∃ q ∈ disk.partitions, q.startOffset < p.startOffset
              ∧ p.startOffset.toNat ≤ q.startOffset.toNat + q.sizeBytes.toNat := by
  have hinside : FreeWithinDevice disk ↔ ∀ g ∈ freeSpansOf disk, g.stop ≤ disk.sizeBytes.toNat :=
    ⟨fun h => h.inside, freeWithinDevice_of_inside⟩
  rw [hinside, freeSpans_eq_gaps, gaps_within_iff (inOrder_extents disk)]
  constructor
  · intro h p hp
    have hmem : extent p ∈ (byOffset disk).map extent :=
      List.mem_map_of_mem (mem_sortByKey.mpr hp)
    rcases h (extent p) hmem with h | h | ⟨t, ht, hlt, hle⟩
    · exact Or.inl (UInt64.le_iff_toNat_le.mpr h)
    · exact Or.inl (UInt64.le_iff_toNat_le.mpr (h.trans (Nat.zero_le _)))
    · obtain ⟨q, hq, hqt⟩ := List.mem_map.mp ht
      rw [← hqt] at hlt hle
      exact Or.inr ⟨q, mem_sortByKey.mp hq, UInt64.lt_iff_toNat_lt.mpr hlt, hle⟩
  · intro h s hs
    obtain ⟨p, hp, hps⟩ := List.mem_map.mp hs
    rw [← hps]
    rcases h p (mem_sortByKey.mp hp) with h | ⟨q, hq, hlt, hle⟩
    · exact Or.inl (UInt64.le_iff_toNat_le.mp h)
    · exact Or.inr (Or.inr ⟨extent q, List.mem_map_of_mem (mem_sortByKey.mpr hq),
        UInt64.lt_iff_toNat_lt.mp hlt, hle⟩)

/-- A drive whose length query failed, with one partition of 256 MiB at 1 MiB. -/
def lengthless : PhysicalDisk := diskWith 0 [partitionAt "PhysicalDrive0p1" 1048576 268435456]

/-- **Free space beyond the device**: of a device of no bytes, a mebibyte is reported free. -/
theorem free_beyond_device :
    ¬ FreeWithinDevice lengthless
      ∧ (segments lengthless).map (fun s => (s.index, s.sizeBytes))
        = [(none, 1048576), (some 1, 268435456)] := by
  refine ⟨?_, by decide⟩
  intro h
  have hfirst := h.each (freeSegment 1048576) (by decide) rfl
  exact absurd hfirst (by decide)

end LivediskForensic.Render
