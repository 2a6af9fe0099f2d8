/-
  LivediskForensic.Render.OverviewTotal — THE CAPACITY TOTAL.

  `render_overview` sums the sizes of the physical disks in a `u64`.  A checked
  build stops when the sum does not fit, a release build goes on with what is
  left of it, and prints that and the shares of it.  So the total is exact
  exactly when the sizes fit together (`exactTotal_iff`).
-/
import LivediskForensic.Lib.Checked
import LivediskForensic.Render.Listing
import LivediskForensic.Render.SegmentCover

namespace LivediskForensic.Render

open LivediskForensic.Lib

/-- The sizes of the physical disks. -/
def physicalSizes (disks : List PhysicalDisk) : List Nat :=
  (physicalDisks disks).map (fun d => d.sizeBytes.toNat)

theorem toNat_totalSize (disks : List PhysicalDisk) :
    (totalSize (physicalDisks disks)).toNat = (physicalSizes disks).sum % 2 ^ 64 := by
  unfold totalSize physicalSizes
  rw [toNat_foldl_add, List.map_map]
  show (0 + _) % 2 ^ 64 = _
  rw [Nat.zero_add]
  rfl

/-- `total` is what the overview prints and computes the shares of, and it is exact. -/
structure ExactTotal (disks : List PhysicalDisk) (total : UInt64) : Prop where
  /-- A checked build gets through the sum. -/
  no_panic : checkedSum 64 0 (physicalSizes disks) = some total.toNat
  /-- A release build computes the same. -/
  no_wrap : totalSize (physicalDisks disks) = total
  exact_sum : total.toNat = (physicalSizes disks).sum
  printed : ∀ (fmt : NumberFormat) (width : Nat) (color : Bool),
    renderOverview fmt disks width color
      = overviewText fmt (physicalDisks disks) width color total
  /-- No share exceeds the whole. -/
  share_le : ∀ d ∈ physicalDisks disks, d.sizeBytes ≤ total

/-- **WHEN THE TOTAL IS EXACT**: exactly when the sizes of the physical disks add up to less than
`2^64` bytes. -/
theorem exactTotal_iff {disks : List PhysicalDisk} (h : 2 ≤ (physicalDisks disks).length) :
    (∃ total, ExactTotal disks total) ↔ (physicalSizes disks).sum < 2 ^ 64 := by
  constructor
  · rintro ⟨total, htotal⟩
    have hsum := (checkedSum_eq_some_iff (by decide)).mp htotal.no_panic
    omega
  · intro hlt
    have hexact : (totalSize (physicalDisks disks)).toNat = (physicalSizes disks).sum := by
      rw [toNat_totalSize, Nat.mod_eq_of_lt hlt]
    have hnot : ¬ (physicalDisks disks).length < 2 := by omega
    refine ⟨totalSize (physicalDisks disks), ?_⟩
    refine
      { no_panic := ?_
        no_wrap := rfl
        exact_sum := hexact
        printed := ?_
        share_le := ?_ }
    · rw [checkedSum_eq_some (by omega), Nat.zero_add, hexact]
    · intro fmt width color
      exact if_neg hnot
    · intro d hd
      rw [UInt64.le_iff_toNat_le, hexact]
      exact List.le_sum_of_mem (List.mem_map_of_mem hd)

/-- Two disks of four terabytes and a container on one of them. -/
def terabytes : List PhysicalDisk :=
  [ diskWith 4000000000000 [],
    { diskWith 4000000000000 [] with synthesized := true },
    diskWith 4000000000000 [] ]

theorem exactTotal_iff_terabytes :
    (∃ total, ExactTotal terabytes total) ↔ (physicalSizes terabytes).sum < 2 ^ 64 :=
  exactTotal_iff (by decide)

/-- Two disks of `2^63` bytes. -/
def exabytes : List PhysicalDisk :=
  [diskWith (UInt64.ofNat (2 ^ 63)) [], diskWith (UInt64.ofNat (2 ^ 63)) []]

/-- The total of two disks of `2^63` bytes wraps to zero, and each disk is larger than that. -/
theorem total_wraps : (¬ ∃ total, ExactTotal exabytes total)
    ∧ checkedSum 64 0 (physicalSizes exabytes) = none
    ∧ totalSize (physicalDisks exabytes) = 0
    ∧ ∀ d ∈ physicalDisks exabytes, totalSize (physicalDisks exabytes) < d.sizeBytes := by
  have hzero : totalSize (physicalDisks exabytes) = 0 := by decide
  have hnone : checkedSum 64 0 (physicalSizes exabytes) = none := by decide
  refine ⟨?_, hnone, hzero, by decide⟩
  rintro ⟨total, htotal⟩
  have hpanic := htotal.no_panic
  rw [hnone] at hpanic
  exact absurd hpanic (by simp)

end LivediskForensic.Render
