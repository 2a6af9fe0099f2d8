/-
  LivediskForensic.Render.Listing — `render_overview` of `core/src/bar.rs` and
  `render_listing` of `core/src/lib.rs`: the bar chart of the physical disks,
  and below it a section for each disk.

  The chart numbers the physical disks by their place in a filtered list, the
  listing counts them while it walks the whole list; both numbers select a
  palette slot.  The sum of the sizes is a `u64`, which in a release build
  wraps.
-/
import LivediskForensic.Render.Table

namespace LivediskForensic.Render

open LivediskForensic.Lib

/-! ## §1. The overview. -/

/-- The disks that are not synthesized. -/
def physicalDisks (disks : List PhysicalDisk) : List PhysicalDisk :=
  disks.filter (fun d => !d.synthesized)

/-- The capacity total. -/
def totalSize (physical : List PhysicalDisk) : UInt64 :=
  (physical.map PhysicalDisk.sizeBytes).foldl (· + ·) 0

/-- The largest size, at least 1. -/
def maxSize (physical : List PhysicalDisk) : UInt64 :=
  max ((physical.map PhysicalDisk.sizeBytes).max?.getD 0) 1

/-- The columns of the longest name. -/
def nameWidth (physical : List PhysicalDisk) : Nat :=
  (physical.map (fun d => d.name.length)).max?.getD 0

/-- The filled columns of a row. -/
def barFill (width : Nat) (largest size : UInt64) : Nat :=
  let fill := size.toNat * width / largest.toNat
  -- a disk that is not empty shows at least one column
  min (if 0 < size ∧ fill = 0 then 1 else fill) width

/-- A row of the chart, in the given colour and glyph. -/
def overviewRow (fmt : NumberFormat) (width : Nat) (color : Bool) (physical : List PhysicalDisk)
    (total : UInt64) (pen : Nat × Char) (d : PhysicalDisk) : List Char :=
  let fill := barFill width (maxSize physical) d.sizeBytes
  ' ' :: padRight (nameWidth physical) d.name.toList ++ "  [".toList
    ++ pushSlice color pen.1 pen.2 fill ++ List.replicate (width - fill) ' ' ++ "] ".toList
    ++ padLeft 10 (fmt.humanSize d.sizeBytes).toList ++ "  ".toList
    ++ padLeft 4 (fmt.percent d.sizeBytes (max total 1)).toList ++ ['%', '\n']

/-- The rows from the `i`-th physical disk on. -/
def overviewRows (fmt : NumberFormat) (width : Nat) (color : Bool) (physical : List PhysicalDisk)
    (total : UInt64) : Nat → List PhysicalDisk → Option (List Char)
  | _, [] => some []
  | i, d :: ds => do
      let slot := i % PALETTE.length
      let ansi ← PALETTE[slot]?
      let glyph ← GLYPHS[slot]?
      let out ← overviewRows fmt width color physical total (i + 1) ds
      some (overviewRow fmt width color physical total (ansi, glyph) d ++ out)

def overviewHeader (fmt : NumberFormat) (count : Nat) (total : UInt64) : List Char :=
  "All storage (".toList ++ Nat.toDigits 10 count ++ " physical disks, ".toList
    ++ (fmt.humanSize total).toList ++ " total):\n".toList

/-- The chart, given the total. -/
def overviewText (fmt : NumberFormat) (physical : List PhysicalDisk) (width : Nat) (color : Bool)
    (total : UInt64) : Option String := do
  let rows ← overviewRows fmt width color physical total 0 physical
  some (String.ofList (overviewHeader fmt physical.length total ++ rows))

/-- **Render an at-a-glance overview comparing the physical disks' capacities.** -/
def renderOverview (fmt : NumberFormat) (disks : List PhysicalDisk) (width : Nat) (color : Bool) :
    Option String :=
  let physical := physicalDisks disks
  if physical.length < 2 then some ""
  else overviewText fmt physical width color (totalSize physical)

/-! ## §2. The listing. -/

/-- The header line of a disk. -/
def sectionHead (fmt : NumberFormat) (d : PhysicalDisk) : List Char :=
  d.devicePath.toList ++ "  ".toList ++ (fmt.humanSize d.sizeBytes).toList
    ++ (if d.synthesized then " (synthesized)".toList else [])
    ++ (d.model.elim [] (fun m => "  ".toList ++ m.toList)) ++ ['\n']

/-- The line of a volume: `  {:<16} {:>10}  {}`. -/
def volumeLine (fmt : NumberFormat) (p : Partition) : List Char :=
  "  ".toList ++ padRight 16 p.name.toList ++ ' ' :: padLeft 10 (fmt.humanSize p.sizeBytes).toList
    ++ "  ".toList ++ partitionInfo p ++ ['\n']

/-- What stands below a disk's header line. -/
def sectionBody (fmt : NumberFormat) (width : Nat) (color : Bool) (physIdx : Nat)
    (d : PhysicalDisk) : Option (List Char) :=
  if d.partitions.isEmpty then some "  (no partitions)\n".toList
  else if d.synthesized then
    some (d.partitions.flatMap (volumeLine fmt) ++ "  (volumes share container space)\n".toList)
  else (diskBar fmt d width color physIdx).map String.toList

/-- The section of a disk, with the empty line that ends it. -/
def diskSection (fmt : NumberFormat) (width : Nat) (color : Bool) (physIdx : Nat)
    (d : PhysicalDisk) : Option (List Char) := do
  let body ← sectionBody fmt width color physIdx d
  some (sectionHead fmt d ++ body ++ ['\n'])

/-- The loop over the disks, with the number of physical disks so far. -/
def listingLoop (fmt : NumberFormat) (width : Nat) (color : Bool) :
    Nat → List PhysicalDisk → Option (List Char)
  | _, [] => some []
  | physIdx, d :: ds => do
      let text ← diskSection fmt width color physIdx d
      let out ← listingLoop fmt width color (if d.synthesized then physIdx else physIdx + 1) ds
      some (text ++ out)

/-- **Render the full list view.** -/
def renderListing (fmt : NumberFormat) (disks : List PhysicalDisk) (width : Nat) (color : Bool) :
    Option String :=
  if disks.isEmpty then some "No disks found.\n"
  else do
    let overview ← renderOverview fmt disks width color
    let sections ← listingLoop fmt width color 0 disks
    some (String.ofList
      ((if overview.isEmpty then [] else overview.toList ++ ['\n']) ++ sections))

end LivediskForensic.Render
