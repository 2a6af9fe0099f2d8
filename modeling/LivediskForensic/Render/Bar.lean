/-
  LivediskForensic.Render.Bar — `core/src/bar.rs`: a disk drawn as one
  proportional row of columns, with a legend below it.

  The drawing runs in four passes that share only indices: `segments` cuts the
  disk up, `allocateWidths` gives each segment its columns, `partitionSlots`
  gives each partition a palette slot, and `diskBar` writes the row and the
  legend.  An index out of range would panic; here it is `none`.

  The two `f64` texts of a legend line, `human_size` and the percentage, are
  parameters (`NumberFormat`): nothing about the drawing depends on them.
-/
import LivediskForensic.Lib.Apportion
import LivediskForensic.Lib.StableSort
import LivediskForensic.Model.Disk
import Mathlib.Order.OrderDual

namespace LivediskForensic.Render

open LivediskForensic.Lib

/-! ## §1. Pens. -/

/-- ANSI 256-colour codes. -/
def PALETTE : List Nat := [39, 208, 46, 201, 226, 51, 129, 214]

/-- The pipe-safe glyphs that stand in for them. -/
def GLYPHS : List Char := ['#', '=', '+', '*', 'o', '~', 'x', '%']

/-- Dim grey + `.` for unallocated space. -/
def FREE_ANSI : Nat := 240
def FREE_GLYPH : Char := '.'

/-- `█`. -/
def BLOCK : Char := Char.ofNat 0x2588

/-- `\x1b[38;5;{ansi}m{blocks}\x1b[0m`. -/
def colored (ansi : Nat) (blocks : List Char) : List Char :=
  Char.ofNat 0x1B :: "[38;5;".toList ++ Nat.toDigits 10 ansi ++ 'm' :: blocks
    ++ Char.ofNat 0x1B :: "[0m".toList

/-- `w` columns of a slice. -/
def pushSlice (color : Bool) (ansi : Nat) (ascii : Char) (w : Nat) : List Char :=
  if w = 0 then []
  else if color then colored ansi (List.replicate w BLOCK)
  else List.replicate w ascii

/-- A one-character legend swatch matching `pushSlice`'s colouring. -/
def swatch (color : Bool) (ansi : Nat) (ascii : Char) : List Char :=
  if color then colored ansi [BLOCK] else [ascii]

/-! ## §2. Segments. -/

/-- One drawable slice of a disk: a partition, or an unallocated gap. -/
structure Segment where
  sizeBytes : UInt64
  /-- 1-based partition index for the legend; `none` for an unallocated gap. -/
  index : Option Nat
  label : String
  deriving Repr, DecidableEq

/-- `u64::saturating_add`. -/
def saturatingAdd (a b : UInt64) : UInt64 :=
  if a.toNat + b.toNat < 2 ^ 64 then a + b else UInt64.ofNat (2 ^ 64 - 1)

def freeSegment (size : UInt64) : Segment :=
  { sizeBytes := size, index := none, label := "free" }

def partitionSegment (i : Nat) (p : Partition) : Segment :=
  { sizeBytes := p.sizeBytes
    index := some (i + 1)
    label := p.name ++ "  " ++ p.partitionType.getD "-" }

/-- The loop over the sorted partitions, from partition `i` and the given cursor on. -/
def segmentLoop (diskSize : UInt64) : Nat → UInt64 → List Partition → List Segment
  -- trailing free space
  | _, cursor, [] => if diskSize > cursor then [freeSegment (diskSize - cursor)] else []
  | i, cursor, p :: ps =>
      -- the gap in front; an overlapping partition leaves none and may leave the cursor alone
      (if p.startOffset > cursor then [freeSegment (p.startOffset - cursor)] else [])
        ++ partitionSegment i p
          :: segmentLoop diskSize (i + 1) (max cursor (saturatingAdd p.startOffset p.sizeBytes)) ps

/-- **Decompose a disk into ordered drawable segments.** -/
def segments (disk : PhysicalDisk) : List Segment :=
  segmentLoop disk.sizeBytes 0 0 (sortByKey (fun p => p.startOffset.toNat) disk.partitions)

/-! ## §3. Widths. -/

/-- `max_by_key`: the last of the largest. -/
def maxByKey {α : Type} (key : α → Nat) : List α → Option α
  | [] => none
  | a :: l =>
      match maxByKey key l with
      | none => some a
      | some b => if key a ≤ key b then some b else some a

section Widths

variable {n : Nat} (weight : Fin n → Nat) (total : Nat)

/-- The positions by falling remainder, equal remainders in order. -/
def order : List (Fin n) :=
  -- the comparison is turned around, the sort is stable
  sortByKey (fun i => OrderDual.toDual (quotaRemainder weight total i)) (List.finRange n)

/-- The shares by largest remainder. -/
def largestRemainder : Fin n → Nat :=
  let widths := lowerQuota weight total
  let allocated := ∑ i, widths i
  handOut (order weight total) (total - allocated) widths

/-- A visible sliver for `i`, borrowed from the widest, when `i` rounded to zero. -/
def sliver (widths : Fin n → Nat) (i : Fin n) : Fin n → Nat :=
  if 0 < weight i ∧ widths i = 0 then
    -- only a width above one can lend, the last of the widest does
    match maxByKey widths ((List.finRange n).filter (fun j => 1 < widths j)) with
    | some j => moveUnit widths j i
    | none => widths
  else widths

/-- The widths of all positions. -/
def widthOf : Fin n → Nat :=
  if n = 0 ∨ total = 0 ∨ ∑ i, weight i = 0 then fun _ => 0
  -- later slivers see the widths the earlier ones left
  else (List.finRange n).foldl (sliver weight) (largestRemainder weight total)

end Widths

/-- **Allocate `total` columns across `weights`.** -/
def allocateWidths (weights : List UInt64) (total : Nat) : List Nat :=
  List.ofFn (widthOf (fun i : Fin weights.length => (weights.get i).toNat) total)

/-! ## §4. Slots. -/

/-- `while next % PALETTE.len() == accent { next += 1 }`, with a bound on the rounds. -/
def skipAccent (accent : Nat) : Nat → Nat → Option Nat
  | 0, _ => none
  | fuel + 1, next =>
      if next % PALETTE.length = accent then skipAccent accent fuel (next + 1) else some next

/-- `slots[i] = s`, out of range a panic. -/
def setSlot (slots : List Nat) (i s : Nat) : Option (List Nat) :=
  if i < slots.length then some (slots.set i s) else none

/-- The loop of `partition_slots`. -/
def slotLoop (accent : Nat) (largest : Option Nat) :
    List (Nat × UInt64) → Nat → List Nat → Option (List Nat)
  | [], _, slots => some slots
  | (i, _) :: parts, next, slots =>
      if some i = largest then do
        let slots ← setSlot slots i accent
        slotLoop accent largest parts next slots
      else do
        -- two rounds pass any slot
        let next ← skipAccent accent 2 next
        let slots ← setSlot slots i (next % PALETTE.length)
        slotLoop accent largest parts (next + 1) slots

/-- The partitions among the segments, by index and size. -/
def partsOf (segs : List Segment) : List (Nat × UInt64) :=
  segs.filterMap (fun s => s.index.map (fun i => (i, s.sizeBytes)))

/-- **Map each partition's index to a palette slot.** -/
def partitionSlots (segs : List Segment) (accent : Nat) : Option (List Nat) :=
  let parts := partsOf segs
  -- the last of the largest
  let largest := (maxByKey (fun p => p.2.toNat) parts).map Prod.fst
  slotLoop accent largest parts 0 (List.replicate (parts.length + 1) 0)

/-! ## §5. The bar. -/

/-- The texts that go through `f64`. -/
structure NumberFormat where
  /-- `human_size`. -/
  humanSize : UInt64 → String
  /-- `{:.1}` of a part's percentage of a total. -/
  percent : UInt64 → UInt64 → String

/-- The texts of small disks: `human_size` prints a number below 1000 as it is. -/
def byteFormat : NumberFormat where
  humanSize size := Nat.repr size.toNat ++ " B"
  percent part total :=
    let tenths := (part.toNat * 2000 + total.toNat) / (2 * total.toNat)
    Nat.repr (tenths / 10) ++ "." ++ Nat.repr (tenths % 10)

/-- `{:>w}`. -/
def padLeft (w : Nat) (s : List Char) : List Char := List.replicate (w - s.length) ' ' ++ s

/-- `{:<w}`. -/
def padRight (w : Nat) (s : List Char) : List Char := s ++ List.replicate (w - s.length) ' '

/-- What a legend line says after its swatch. -/
def legendText (fmt : NumberFormat) (total : UInt64) (seg : Segment) : List Char :=
  (match seg.index with
    | some idx => padLeft 2 (Nat.toDigits 10 idx) ++ "  ".toList ++ padRight 28 seg.label.toList
    | none => " -  ".toList ++ padRight 28 "free (unallocated)".toList)
    ++ ' ' :: padLeft 10 (fmt.humanSize seg.sizeBytes).toList
    ++ "  ".toList ++ padLeft 4 (fmt.percent seg.sizeBytes total).toList ++ ['%', '\n']

/-- The colour code and the glyph a segment is drawn with. -/
def penOf (slots : List Nat) (seg : Segment) : Option (Nat × Char) :=
  match seg.index with
  | some idx => do
      let slot ← slots[idx]?
      let ansi ← PALETTE[slot]?
      let glyph ← GLYPHS[slot]?
      some (ansi, glyph)
  | none => some (FREE_ANSI, FREE_GLYPH)

/-- The columns of the row. -/
def barLoop (color : Bool) (slots : List Nat) : List (Segment × Nat) → Option (List Char)
  | [] => some []
  | (seg, w) :: rest => do
      let pen ← penOf slots seg
      let out ← barLoop color slots rest
      some (pushSlice color pen.1 pen.2 w ++ out)

/-- The lines of the legend. -/
def legendLoop (fmt : NumberFormat) (color : Bool) (slots : List Nat) (total : UInt64) :
    List Segment → Option (List Char)
  | [] => some []
  | seg :: segs => do
      let pen ← penOf slots seg
      let out ← legendLoop fmt color slots total segs
      some (' ' :: swatch color pen.1 pen.2 ++ ' ' :: legendText fmt total seg ++ out)

/-- **Per-disk bar with an explicit accent slot for the largest partition.** -/
def diskBar (fmt : NumberFormat) (disk : PhysicalDisk) (width : Nat) (color : Bool)
    (accent : Nat) : Option String := do
  let accent := accent % PALETTE.length
  let segs := segments disk
  let weights := segs.map Segment.sizeBytes
  let widths := allocateWidths weights width
  let slots ← partitionSlots segs accent
  -- the row and the legend look the pens up separately
  let row ← barLoop color slots (segs.zip widths)
  let legend ← legendLoop fmt color slots (max disk.sizeBytes 1) segs
  some (String.ofList ('[' :: row ++ ']' :: '\n' :: legend))

end LivediskForensic.Render
