/-
  LivediskForensic.Enumeration.SameBar — ONE BAR ACROSS THE PLATFORMS.

  The row of a bar is drawn from the sizes and places of the segments alone, so
  it is a function of the hardware: `segmentLoop_shape` follows the loop that
  cuts a disk up, and everything after it (widths, slots, pens) sees the shapes
  only.  With `Hardware` this carries over to whole enumerations: the same
  stick gives the same row on every platform, and only the legend names it
  differently.
-/
import LivediskForensic.Enumeration.Hardware
import LivediskForensic.Render.BarAgreement

namespace LivediskForensic.Enumeration

open LivediskForensic.Lib
open LivediskForensic.DriveLayout
open LivediskForensic.Render

/-! ## §1. Shapes. -/

/-- What the drawing of the row sees of a segment. -/
def shapeOf (seg : Segment) : UInt64 × Option Nat := (seg.sizeBytes, seg.index)

/-- An extent has one start and one size. -/
theorem eq_of_extentOf {p q : Partition} (h : extentOf p = extentOf q) :
    p.startOffset = q.startOffset ∧ p.sizeBytes = q.sizeBytes := by
  injection h with hstart hsize
  exact ⟨UInt64.toNat_inj.mp hstart, UInt64.toNat_inj.mp hsize⟩

/-- **The cut depends on the extents alone.** -/
theorem segmentLoop_shape (size : UInt64) : ∀ (ps qs : List Partition) (i : Nat) (cursor : UInt64),
    ps.map extentOf = qs.map extentOf →
    (segmentLoop size i cursor ps).map shapeOf = (segmentLoop size i cursor qs).map shapeOf := by
  intro ps
  induction ps with
  | nil =>
      intro qs i cursor h
      rw [List.map_nil] at h
      rw [List.map_eq_nil_iff.mp h.symm]
  | cons p ps ih =>
      intro qs i cursor h
      cases qs with
      | nil => exact absurd h (by simp)
      | cons q qs =>
          rw [List.map_cons, List.map_cons] at h
          injection h with hhead htail
          obtain ⟨hstart, hsize⟩ := eq_of_extentOf hhead
          unfold segmentLoop
          rw [List.map_append, List.map_append, List.map_cons, List.map_cons, hstart, hsize,
            ih qs _ _ htail]
          congr 2
          show (p.sizeBytes, some (i + 1)) = (q.sizeBytes, some (i + 1))
          rw [hsize]

/-- Two disks that are one piece of hardware, with no two partitions at one place. -/
structure SameHardware (d e : PhysicalDisk) : Prop where
  geometry : geometryOf d = geometryOf e
  starts : ((geometryOf d).extents.map Prod.fst).Nodup

/-- In the order of their places the extents are the same list. -/
theorem extents_byOffset {d e : PhysicalDisk} (h : SameHardware d e) :
    (byOffset d).map extentOf = (byOffset e).map extentOf := by
  have hsort : ∀ f : PhysicalDisk,
      (byOffset f).map extentOf = sortByKey Prod.fst (f.partitions.map extentOf) := by
    intro f
    have hkeys : ∀ p ∈ f.partitions, ∀ q ∈ f.partitions,
        p.startOffset.toNat ≤ q.startOffset.toNat ↔ (extentOf p).1 ≤ (extentOf q).1 :=
      fun _ _ _ _ => Iff.rfl
    exact (sortByKey_map hkeys).symm
  have hperm : (d.partitions.map extentOf).Perm (e.partitions.map extentOf) :=
    Multiset.coe_eq_coe.mp (congrArg Geometry.extents h.geometry)
  rw [hsort, hsort]
  exact sortByKey_eq_of_perm (key_separates_of_nodup (Multiset.coe_nodup.mp h.starts)) hperm

theorem shape_segments {d e : PhysicalDisk} (h : SameHardware d e) :
    (segments d).map shapeOf = (segments e).map shapeOf := by
  have hsize : d.sizeBytes = e.sizeBytes :=
    UInt64.toNat_inj.mp (congrArg Geometry.size h.geometry)
  show (segmentLoop d.sizeBytes 0 0 (byOffset d)).map shapeOf
    = (segmentLoop e.sizeBytes 0 0 (byOffset e)).map shapeOf
  rw [hsize]
  exact segmentLoop_shape _ _ _ _ _ (extents_byOffset h)

/-! ## §2. What is drawn from the shapes. -/

section Shapes

variable {segs segs' : List Segment} (h : segs.map shapeOf = segs'.map shapeOf)
include h

theorem sizes_eq_of_shape : segs.map Segment.sizeBytes = segs'.map Segment.sizeBytes := by
  have hfst := congrArg (List.map Prod.fst) h
  rw [List.map_map, List.map_map] at hfst
  exact hfst

theorem indices_eq_of_shape : segs.map Segment.index = segs'.map Segment.index := by
  have hsnd := congrArg (List.map Prod.snd) h
  rw [List.map_map, List.map_map] at hsnd
  exact hsnd

theorem partitionSlots_eq_of_shape (accent : Nat) :
    partitionSlots segs accent = partitionSlots segs' accent := by
  have hparts : ∀ l : List Segment,
      partsOf l = (l.map shapeOf).filterMap (fun s => s.2.map (fun i => (i, s.1))) := by
    intro l
    rw [List.filterMap_map]
    rfl
  unfold partitionSlots
  rw [hparts segs, hparts segs', h]

theorem pens_eq_of_shape (slots : List Nat) :
    segs.map (penAt slots) = segs'.map (penAt slots) := by
  -- a segment without size or label stands for its index
  have hpen : ∀ l : List Segment, l.map (penAt slots) = (l.map Segment.index).map
      (fun index => penAt slots { sizeBytes := 0, index := index, label := "" }) := by
    intro l
    rw [List.map_map]
    rfl
  rw [hpen segs, hpen segs', indices_eq_of_shape h]

end Shapes

/-! ## §3. The bars. -/

/-- The two bars have one row, and each its own legend. -/
def SameRow (fmt : NumberFormat) (width : Nat) (color : Bool) (accent : Nat)
    (d e : PhysicalDisk) : Prop :=
  ∃ row legend legend', ']' ∉ row
    ∧ diskBar fmt d width color accent = some (String.ofList ('[' :: row ++ ']' :: '\n' :: legend))
    ∧ diskBar fmt e width color accent = some (String.ofList ('[' :: row ++ ']' :: '\n' :: legend'))

/-- **The row is a function of the hardware.** -/
theorem sameRow_of_sameHardware {d e : PhysicalDisk} (h : SameHardware d e) (fmt : NumberFormat)
    (width : Nat) (color : Bool) (accent : Nat) : SameRow fmt width color accent d e := by
  have hshape := shape_segments h
  obtain ⟨slots, hslots, hread⟩ := partitionSlots_spec d (slot_lt accent)
  obtain ⟨slots', hslots', hread'⟩ := partitionSlots_spec e (slot_lt accent)
  -- the slot tables are the same one
  rw [← partitionSlots_eq_of_shape hshape, hslots] at hslots'
  injection hslots' with heq
  rw [← heq] at hread'
  have hslots_e := hslots
  rw [partitionSlots_eq_of_shape hshape] at hslots_e
  have hwidths : segmentWidths d width = segmentWidths e width := by
    unfold segmentWidths
    rw [sizes_eq_of_shape hshape]
  have hd := diskBar_of_slots fmt width color hslots hread
  have he := diskBar_of_slots fmt width color hslots_e hread'
  unfold drawing at hd he
  rw [← pens_eq_of_shape hshape, ← hwidths] at he
  exact ⟨_, _, _, bracket_not_mem_rowText color _ _, hd, he⟩

/-! ## §4. Across the platforms. -/

/-- A listed disk is there. -/
theorem geometryOf_mem {disks : List PhysicalDisk} {d : PhysicalDisk} (h : d ∈ disks) :
    geometryOf d ∈ hardwareOf disks :=
  Multiset.mem_coe.mpr (List.mem_map_of_mem h)

/-- **THE SAME BAR ON EVERY PLATFORM.**  Of two machines with the same hardware, whatever their
    platforms and their runs: for each disk the one lists the other lists one with the same row,
    at every width, in colour and in ASCII, with every accent. -/
theorem same_bars (api : ReadApi) (hapi : api.Lawful) (p q : Platform)
    (h : p.hardware = q.hardware) (hstarts : ∀ g ∈ p.hardware, (g.extents.map Prod.fst).Nodup)
    (disks disks' : List PhysicalDisk) (hp : p.Returns api (.ok disks))
    (hq : q.Returns api (.ok disks')) :
    ∀ d ∈ disks, ∃ e ∈ disks', ∀ fmt width color accent, SameRow fmt width color accent d e := by
  obtain ⟨_, hok, hhw⟩ := hardware_of_returns hapi hp
  injection hok with hok
  obtain ⟨_, hok', hhw'⟩ := hardware_of_returns hapi hq
  injection hok' with hok'
  rw [← hok] at hhw
  rw [← hok'] at hhw'
  intro d hd
  have hmem : geometryOf d ∈ hardwareOf disks' := by
    rw [hhw', ← h, ← hhw]
    exact geometryOf_mem hd
  obtain ⟨e, he, hge⟩ := List.mem_map.mp (Multiset.mem_coe.mp hmem)
  have hnodup : ((geometryOf d).extents.map Prod.fst).Nodup := by
    apply hstarts
    rw [← hhw]
    exact geometryOf_mem hd
  exact ⟨e, he, sameRow_of_sameHardware ⟨hge.symm, hnodup⟩⟩

/-- One slice starts at one place. -/
theorem stick_starts : ∀ g ∈ (Platform.linux stickLinux).hardware, (g.extents.map Prod.fst).Nodup := by
  intro g hg
  have hone : (Platform.linux stickLinux).hardware
      = ([deviceGeometry (stickLinux.devices.head (by decide))] : List Geometry) := rfl
  rw [hone, Multiset.mem_coe, List.mem_singleton] at hg
  rw [hg]
  exact Multiset.coe_nodup.mpr (List.nodup_singleton _)

theorem same_bars_stick : ∃ disks disks',
    (Platform.linux stickLinux).Returns referenceApi (.ok disks)
      ∧ (Platform.macos Macos.stick stick_named).Returns referenceApi (.ok disks')
      ∧ ∀ d ∈ disks, ∃ e ∈ disks', ∀ fmt width color accent, SameRow fmt width color accent d e := by
  obtain ⟨r, hr⟩ := exists_returns referenceApi (.linux stickLinux)
  obtain ⟨r', hr'⟩ := exists_returns referenceApi (.macos Macos.stick stick_named)
  obtain ⟨disks, rfl, _⟩ := hardware_of_returns referenceApi_lawful hr
  obtain ⟨disks', rfl, _⟩ := hardware_of_returns referenceApi_lawful hr'
  exact ⟨disks, disks', hr, hr', same_bars referenceApi referenceApi_lawful (.linux stickLinux)
    (.macos Macos.stick stick_named) rfl stick_starts disks disks' hr hr'⟩

end LivediskForensic.Enumeration
