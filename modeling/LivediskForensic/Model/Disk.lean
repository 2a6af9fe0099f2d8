/-
  LivediskForensic.Model.Disk — the UNIFIED DISK MODEL of `core/src/lib.rs`:
  the two records every backend fills, the error type, and the byte outcomes
  of the operating-system calls the backends make.

  Rust's fixed-width integers are Lean's (`u64` is `UInt64`, `u32` is
  `UInt32`, both wrapping), a Rust `String` is a Lean `String` (both are
  sequences of Unicode scalar values), and `Vec` is `List`.
-/
import LivediskForensic.Lib.Text
import Mathlib.Data.String.Basic

namespace LivediskForensic

/-! ## §1. Disks and partitions. -/

/-- A partition (slice/volume) within a `PhysicalDisk`. -/
structure Partition where
  /-- OS path to open for raw access to just this partition. -/
  devicePath : String
  /-- Short kernel identifier (`disk0s1`, `sda1`, `nvme0n1p1`). -/
  name : String
  /-- Byte offset of the first sector from the start of the disk. -/
  startOffset : UInt64
  /-- Partition length in bytes. -/
  sizeBytes : UInt64
  /-- Partition type as the OS names it, when known. -/
  partitionType : Option String
  /-- Current mount point, when the partition is mounted. -/
  mountPoint : Option String
  /-- Mounted filesystem type, when known. -/
  filesystem : Option String
  /-- Volume label, when known. -/
  label : Option String
  deriving Repr, DecidableEq

/-- A whole physical (or synthesized) disk on the live system. -/
structure PhysicalDisk where
  /-- OS path to open for raw access (`/dev/sda`, `\\.\PhysicalDrive0`). -/
  devicePath : String
  /-- Short kernel identifier (`disk0`, `sda`, `PhysicalDrive0`). -/
  name : String
  /-- Total device size in bytes, as reported by the driver. -/
  sizeBytes : UInt64
  /-- Smallest addressable I/O unit, in bytes. -/
  logicalSectorSize : UInt32
  /-- Physical sector size in bytes. -/
  physicalSectorSize : UInt32
  /-- Device model string, when the driver exposes one. -/
  model : Option String
  /-- Device serial number, when the driver exposes one. -/
  serial : Option String
  /-- Removable media. -/
  removable : Bool
  /-- Write-protected at the driver level. -/
  readOnly : Bool
  /-- Kernel-synthesized (APFS container, device-mapper), not a backing device. -/
  synthesized : Bool
  /-- Partitions carved out of this disk, in on-disk order. -/
  partitions : List Partition
  deriving Repr, DecidableEq

/-- Every path the enumeration offers for opening: each disk's, then its partitions'. -/
def devicePaths (disks : List PhysicalDisk) : List String :=
  disks.flatMap (fun d => d.devicePath :: d.partitions.map Partition.devicePath)

/-! ## §2. Failures. -/

/-- The part of `std::io::Error` that tells failures apart. -/
inductive IoError where
  | notFound
  | permissionDenied
  /-- The content was not valid UTF-8. -/
  | invalidData
  | other (code : Nat)
  deriving Repr, DecidableEq

/-- Failure enumerating live devices. -/
inductive Error where
  /-- No backend for this target OS. -/
  | unsupported
  /-- An I/O error while reading the OS device registry. -/
  | io (e : IoError)
  /-- The platform enumeration API returned an error. -/
  | os (message : String)
  deriving Repr, DecidableEq

/-! ## §3. Reading a file. -/

/-- What reading a file yields: its bytes, or a failure. -/
abbrev FileRead := Except IoError (List UInt8)

/-- `fs::read_to_string`: fails on an I/O error, and on bytes that are not UTF-8. -/
def readToString (f : FileRead) : Except IoError String :=
  match f with
  | .error e => .error e
  | .ok bytes =>
    match String.fromUTF8? bytes.toByteArray with
    | some s => .ok s
    | none => .error .invalidData

/-- `unwrap_or_default` on a string read. -/
def unwrapOrDefault (r : Except IoError String) : String :=
  match r with
  | .ok s => s
  | .error _ => ""

end LivediskForensic
