/-
  LivediskForensic.Linux.Sysfs — `core/src/sysfs.rs`: the raw text of
  `/sys/block/*` files and of `/proc/mounts`, turned into the unified model.

  sysfs reports sizes in 512-byte sectors.  The multiplication by 512 is the
  release build's: `u64` products wrap.
-/
import LivediskForensic.Lib.StableSort
import LivediskForensic.Model.Disk

namespace LivediskForensic.Sysfs

open LivediskForensic.Lib

/-! ## §1. Raw records. -/

/-- sysfs's fixed sector unit for `size`/`start` values, in bytes. -/
def SYSFS_SECTOR : UInt64 := 512

/-- Raw `/sys/block/<disk>/<part>` file contents for one partition. -/
structure RawPart where
  /-- Kernel name (`sda1`, `nvme0n1p1`). -/
  name : String
  /-- `size` — partition size in 512-byte sectors. -/
  size : String
  /-- `start` — first sector offset in 512-byte sectors. -/
  start : String
  deriving Repr, DecidableEq

/-- Raw `/sys/block/<disk>` file contents for one whole disk (un-parsed). -/
structure RawDisk where
  /-- Kernel name (`sda`, `nvme0n1`). -/
  name : String
  /-- `size` — disk size in 512-byte sectors. -/
  size : String
  /-- `removable` — `1`/`0`. -/
  removable : String
  /-- `ro` — read-only flag, `1`/`0`. -/
  ro : String
  /-- `queue/logical_block_size`. -/
  logical : String
  /-- `queue/physical_block_size`. -/
  physical : String
  /-- `device/model`, when present. -/
  model : Option String
  /-- Partition child directories. -/
  partitions : List RawPart
  deriving Repr, DecidableEq

/-! ## §2. The mount table. -/

/-- One of `'0'..='7'`. -/
def isOctalDigit (d : Char) : Bool := '0' ≤ d && d ≤ '7'

/-- The escaped byte a backslash introduces, looking ahead at the characters after it:
exactly three octal digits whose value fits a `u8`. -/
def decodedEscape (ahead : List Char) : Option Char :=
  let digits := ahead.take 3
  if (digits.map Char.utf8Size).sum = 3 ∧ digits.all isOctalDigit = true then
    let value := digits.foldl (fun acc d => 8 * acc + (d.toNat - '0'.toNat)) 0
    if value < 256 then some (Char.ofNat value) else none
  else none

/-- The loop of `decode_octal`.  `skip` counts the characters of a decoded escape that the
iterator has still to pass over. -/
def decodeOctalLoop : Nat → List Char → List Char
  | _, [] => []
  | skip + 1, _ :: chars => decodeOctalLoop skip chars
  | 0, c :: chars =>
    match (if c = '\\' then decodedEscape chars else none) with
    | some byte => byte :: decodeOctalLoop 3 chars
    | none => c :: decodeOctalLoop 0 chars

theorem decodeOctalLoop_copy {c : Char} (h : c ≠ '\\') (chars : List Char) :
    decodeOctalLoop 0 (c :: chars) = c :: decodeOctalLoop 0 chars := by
  conv_lhs => unfold decodeOctalLoop
  rw [if_neg h]

theorem decodeOctalLoop_decode {chars : List Char} {byte : Char}
    (h : decodedEscape chars = some byte) :
    decodeOctalLoop 0 ('\\' :: chars) = byte :: decodeOctalLoop 3 chars := by
  conv_lhs => unfold decodeOctalLoop
  rw [if_pos rfl, h]

/-- A backslash that introduces no escape is text. -/
theorem decodeOctalLoop_keep {chars : List Char} (h : decodedEscape chars = none) :
    decodeOctalLoop 0 ('\\' :: chars) = '\\' :: decodeOctalLoop 0 chars := by
  conv_lhs => unfold decodeOctalLoop
  rw [if_pos rfl, h]

/-- Decode mount-point octal escapes used in `/proc/mounts`. -/
def decodeOctal (s : String) : String := String.ofList (decodeOctalLoop 0 s.toList)

/-- One line of `/proc/mounts`: at least three fields, the first under `/dev/`. -/
def parseMountLine (line : List Char) : Option (String × String × String) := do
  let f := wordsBy isWhiteSpace line
  let dev ← f[0]? >>= stripPrefix "/dev/".toList
  let mount ← f[1]?
  let fs ← f[2]?
  some (String.ofList dev, decodeOctal (String.ofList mount), String.ofList fs)

/-- Parse `/proc/mounts` into `(device, mountpoint, fstype)` for `/dev/*` mounts only. -/
def parseMounts (content : String) : List (String × String × String) :=
  (lines content.toList).filterMap parseMountLine

/-! ## §3. The disk model. -/

/-- Trim and parse a sysfs integer file, defaulting to 0 on any garbage. -/
def parseU64 (s : String) : UInt64 :=
  UInt64.ofNat ((parseUnsigned 64 (trimBy isWhiteSpace s.toList)).getD 0)

/-- The mount point and filesystem of the first table entry for a device. -/
def lookup (mounts : List (String × String × String)) (name : String) :
    Option (String × String) :=
  (mounts.find? (fun m => m.1 == name)).map (fun m => (m.2.1, m.2.2))

/-- One partition of the unified model. -/
def buildPartition (mounts : List (String × String × String)) (p : RawPart) : Partition :=
  { devicePath := "/dev/" ++ p.name
    name := p.name
    startOffset := parseU64 p.start * SYSFS_SECTOR
    sizeBytes := parseU64 p.size * SYSFS_SECTOR
    partitionType := none
    mountPoint := (lookup mounts p.name).map Prod.fst
    filesystem := (lookup mounts p.name).map Prod.snd
    label := none }

/-- `queue/logical_block_size` as a `u32`, 512 when zero. -/
def logicalOf (d : RawDisk) : UInt32 :=
  let n := (parseU64 d.logical).toUInt32
  if n = 0 then 512 else n

/-- `queue/physical_block_size` as a `u32`, the logical size when zero. -/
def physicalOf (d : RawDisk) : UInt32 :=
  let n := (parseU64 d.physical).toUInt32
  if n = 0 then logicalOf d else n

/-- One disk of the unified model. -/
def buildDisk (mounts : List (String × String × String)) (d : RawDisk) : PhysicalDisk :=
  { devicePath := "/dev/" ++ d.name
    name := d.name
    sizeBytes := parseU64 d.size * SYSFS_SECTOR
    logicalSectorSize := logicalOf d
    physicalSectorSize := physicalOf d
    model := (d.model.map (fun m => String.ofList (trimBy isWhiteSpace m.toList))).filter
      (fun m => m ≠ "")
    serial := none
    removable := parseU64 d.removable == 1
    readOnly := parseU64 d.ro == 1
    synthesized := "dm-".toList.isPrefixOf d.name.toList
    partitions := sortByKey (fun p => p.startOffset.toNat)
      (d.partitions.map (buildPartition mounts)) }

/-- Build the unified disk model from raw sysfs strings and `/proc/mounts`. -/
def build (disks : List RawDisk) (mountsContent : String) : List PhysicalDisk :=
  sortByKey PhysicalDisk.name (disks.map (buildDisk (parseMounts mountsContent)))

example : parseMounts "sysfs /sys sysfs rw 0 0\n/dev/sda1 / ext4 rw 0 0\n/dev/sdb1 /mnt/my\\040disk xfs rw 0 0\n"
    = [("sda1", "/", "ext4"), ("sdb1", "/mnt/my disk", "xfs")] := by decide

end LivediskForensic.Sysfs
