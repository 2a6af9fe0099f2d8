/-
  LivediskForensic.Render.Table — the text table of `core/src/lib.rs`: one row
  per disk, its partitions indented beneath it.

  `writeln!` and `format!` write into a string and do not fail.  A width in a
  format counts characters.
-/
import LivediskForensic.Render.Bar

namespace LivediskForensic.Render

open LivediskForensic.Lib

/-! ## §1. Rows. -/

/-- `{:<14} {:>10}  {:<6} {}`. -/
def tableRow (name size kind info : List Char) : List Char :=
  padRight 14 name ++ ' ' :: padLeft 10 size ++ "  ".toList ++ padRight 6 kind ++ ' ' :: info

def headerRow : List Char :=
  tableRow "NAME".toList "SIZE".toList "TYPE".toList "INFO".toList

/-- The model, and whether the disk is removable. -/
def diskInfo (d : PhysicalDisk) : String :=
  let info := d.model.getD ""
  if d.removable then
    if info.isEmpty then "removable" else info ++ " (removable)"
  else info

def diskRow (fmt : NumberFormat) (d : PhysicalDisk) : List Char :=
  tableRow d.name.toList (fmt.humanSize d.sizeBytes).toList
    (if d.synthesized then "synth".toList else "disk".toList)
    (trimBy isWhiteSpace (diskInfo d).toList)

/-- The trailing description column for a partition row: type, then mount point and label when
present. -/
def partitionInfo (p : Partition) : List Char :=
  let parts := p.partitionType.toList.map String.toList
    ++ p.mountPoint.toList.map String.toList
    ++ p.label.toList.map (fun l => '[' :: l.toList ++ [']'])
  List.intercalate "  ".toList parts

def partitionRow (fmt : NumberFormat) (p : Partition) : List Char :=
  tableRow ("  ".toList ++ p.name.toList) (fmt.humanSize p.sizeBytes).toList "part".toList
    (partitionInfo p)

/-! ## §2. The table. -/

/-- A disk's row and those of its partitions. -/
def rowsOf (fmt : NumberFormat) (d : PhysicalDisk) : List (List Char) :=
  diskRow fmt d :: d.partitions.map (partitionRow fmt)

/-- **Render the enumerated disks as a unified, indented text table.** -/
def renderDisks (fmt : NumberFormat) (disks : List PhysicalDisk) : String :=
  if disks.isEmpty then "No disks found.\n"
  else String.ofList
    (headerRow ++ '\n' :: disks.flatMap (fun d => (rowsOf fmt d).flatMap (· ++ ['\n'])))

end LivediskForensic.Render
