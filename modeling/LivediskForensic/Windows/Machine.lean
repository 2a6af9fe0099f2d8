/-
  LivediskForensic.Windows.Machine — THE DRIVER'S SIDE of the three controls,
  and the round trip through them.

  A drive is what the driver knows: its length, its sector size and its
  partition table, of either style and with any bytes around them.
  `Drive.handle` is the three buffers it fills; the layout is a whole 32 KiB
  buffer, whatever follows the table in it.  On the other side stands
  `Drive.disk`.

      readDisk_handle  — one drive's buffers are read back to its disk
      enumerate_bays   — a machine's drives are listed, all of them and nothing
                         else, or the access was denied
-/
import LivediskForensic.Windows.DriveLayoutEncoding
import LivediskForensic.Windows.Enumerate

namespace LivediskForensic.Windows

open LivediskForensic.Lib
open LivediskForensic.DriveLayout

/-! ## §1. What the driver knows. -/

/-- A drive that answers all three controls. -/
structure Drive where
  size : UInt64
  sector : UInt32
  style : Style
  table : Layout style
  /-- The bytes of `DISK_GEOMETRY_EX` before and behind `BytesPerSector`. -/
  front : Vector UInt8 20
  back : Vector UInt8 8
  size_lt : size.toNat < 2 ^ 63
  sector_ne : sector ≠ 0
  fills : (encode table).length = LAYOUT_BUF

/-- What is under an index. -/
inductive Bay where
  /-- Nothing that can be opened. -/
  | closed (code : UInt32)
  /-- A device without a partition table to give. -/
  | mute (length : Option (Vector UInt8 8)) (geometry : Option (Vector UInt8 32))
  | drive (d : Drive)

/-- The drive there, if it is one. -/
def Bay.drive? : Bay → Option Drive
  | .drive d => some d
  | _ => none

/-! ## §2. How it appears in buffers. -/

def Drive.lengthBuffer (d : Drive) : Vector UInt8 8 :=
  ⟨(leBytes 8 d.size.toNat).toArray, by simp⟩

def Drive.geometryBuffer (d : Drive) : Vector UInt8 32 :=
  ⟨(d.front.toList ++ (leBytes 4 d.sector.toNat ++ d.back.toList)).toArray, by simp⟩

def Drive.layoutBuffer (d : Drive) : Vector UInt8 LAYOUT_BUF :=
  ⟨(encode d.table).toArray, by rw [List.size_toArray, d.fills]⟩

def Drive.handle (d : Drive) : Handle :=
  { length := some d.lengthBuffer
    geometry := some d.geometryBuffer
    layout := some d.layoutBuffer }

/-- The kernel's answers on a machine. -/
def probeOf (bays : Nat → Bay) (n : Nat) : OpenOutcome :=
  match bays n with
  | .closed code => .failed code
  | .mute length geometry => .opened { length, geometry, layout := none }
  | .drive d => .opened d.handle

/-! ## §3. What there is to list. -/

/-- The partitions of the table in use, in table order. -/
def Drive.partitions (d : Drive) : List ParsedPartition := d.table.slots.filterMap Slot.partition

/-- The disk of a drive. -/
def Drive.disk (n : Nat) (d : Drive) : PhysicalDisk :=
  { devicePath := drivePath n
    name := driveName n
    sizeBytes := d.size
    logicalSectorSize := d.sector
    physicalSectorSize := d.sector
    model := none
    serial := none
    removable := false
    readOnly := false
    synthesized := false
    partitions := sortByKey (fun p => p.startOffset.toNat) (d.partitions.map (partitionOf n)) }

/-- The disks of a machine, by index. -/
def disksOf (bays : Nat → Bay) : List PhysicalDisk :=
  (List.range MAX_DRIVES).filterMap (fun n => (bays n).drive?.map (Drive.disk n))

/-! ## §4. The buffers read back. -/

theorem sizeOf_of_leBytes {buf : Vector UInt8 8} {size : UInt64} (h : size.toNat < 2 ^ 63)
    (hbuf : buf.toList = leBytes 8 size.toNat) : sizeOf (some buf) = size := by
  have hlt := size.toNat_lt
  unfold sizeOf
  dsimp only
  rw [hbuf, leValue_leBytes 8 _ (by omega), UInt64.ofNat_toNat, nonNegative_start h]

theorem sectorOf_of_leBytes {buf : Vector UInt8 32} {sector : UInt32} (h : sector ≠ 0)
    (front back : List UInt8) (hfront : front.length = GEOMETRY_BYTES_PER_SECTOR)
    (hbuf : buf.toList = front ++ (leBytes 4 sector.toNat ++ back)) :
    sectorOf (some buf) = sector := by
  have hlt := sector.toNat_lt
  unfold sectorOf
  dsimp only
  rw [hbuf, slice_append hfront (length_leBytes 4 _), leValue_leBytes 4 _ (by omega),
    UInt32.ofNat_toNat, if_neg h]

theorem sizeOf_lengthBuffer (d : Drive) : sizeOf (some d.lengthBuffer) = d.size := by
  apply sizeOf_of_leBytes d.size_lt
  unfold Drive.lengthBuffer
  simp

theorem sectorOf_geometryBuffer (d : Drive) : sectorOf (some d.geometryBuffer) = d.sector := by
  apply sectorOf_of_leBytes d.sector_ne d.front.toList d.back.toList Vector.length_toList
  unfold Drive.geometryBuffer
  simp

theorem layoutBuffer_toList (d : Drive) : d.layoutBuffer.toList = encode d.table := by
  unfold Drive.layoutBuffer
  simp

section Api

variable {api : ReadApi} (hapi : api.Lawful)
include hapi

/-- **One drive read back.** -/
theorem readDisk_handle (d : Drive) (n : Nat) : readDisk api d.handle n = some (d.disk n) := by
  show some (diskOf n d.handle (parseDriveLayout api d.layoutBuffer.toList)) = _
  unfold diskOf Drive.disk Drive.handle Drive.partitions
  dsimp only
  rw [sizeOf_lengthBuffer, sectorOf_geometryBuffer, layoutBuffer_toList, partitions_encode hapi]

theorem diskAt_probeOf (bays : Nat → Bay) (n : Nat) :
    diskAt api (probeOf bays) n = (bays n).drive?.map (Drive.disk n) := by
  unfold diskAt probeOf
  cases bays n with
  | closed code => rfl
  | mute length geometry => rfl
  | drive d => exact readDisk_handle hapi d n

theorem found_probeOf (bays : Nat → Bay) : found api (probeOf bays) = disksOf bays := by
  unfold found disksOf
  apply List.filterMap_congr
  intro n _
  exact diskAt_probeOf hapi bays n

end Api

theorem deniedAt_probeOf (bays : Nat → Bay) (n : Nat) :
    deniedAt (probeOf bays) n = true ↔ bays n = .closed ERROR_ACCESS_DENIED := by
  rw [deniedAt_eq_true_iff]
  unfold probeOf
  cases bays n with
  | closed code => simp
  | mute length geometry => simp
  | drive d => simp

/-- Some drive answers, or no access is denied. -/
def Listable (bays : Nat → Bay) : Prop :=
  disksOf bays ≠ [] ∨ ∀ n < MAX_DRIVES, bays n ≠ .closed ERROR_ACCESS_DENIED

/-- **When the drives are listed.** -/
theorem enumerate_probeOf {api : ReadApi} (hapi : api.Lawful) {bays : Nat → Bay}
    (h : Listable bays) :
    enumerate api (probeOf bays) = .ok (sortByKey PhysicalDisk.name (disksOf bays)) := by
  rw [enumerate_eq, found_probeOf hapi]
  apply if_neg
  intro hdenied
  obtain ⟨hnone, n, hn, hden⟩ := hdenied
  cases h with
  | inl hsome => exact hsome hnone
  | inr hopen => exact hopen n hn ((deniedAt_probeOf bays n).mp hden)

/-- What `enumerate` has to recover of a machine. -/
structure Recovered (bays : Nat → Bay) (result : Except Error (List PhysicalDisk)) : Prop where
  /-- With a drive that answers, every drive and nothing else. -/
  listed : disksOf bays ≠ [] →
    ∃ disks, result = .ok disks ∧ disks.Perm (disksOf bays)
      ∧ disks.Pairwise (fun d e => d.name ≤ e.name)
  /-- Without one, a failure exactly where some access was denied. -/
  unlisted : disksOf bays = [] →
    (result = .ok [] ∧ ∀ n < MAX_DRIVES, bays n ≠ .closed ERROR_ACCESS_DENIED)
    ∨ (∃ e, result = .error e) ∧ ∃ n < MAX_DRIVES, bays n = .closed ERROR_ACCESS_DENIED

/-- **THE ROUND TRIP.**  Whatever stands in the bays, `enumerate` reads the buffers back to the
    drives. -/
theorem enumerate_bays (api : ReadApi) (hapi : api.Lawful) (bays : Nat → Bay) :
    Recovered bays (enumerate api (probeOf bays)) where
  listed h := ⟨_, enumerate_probeOf hapi (.inl h), sortByKey_perm _ _, sortByKey_pairwise _ _⟩
  unlisted h := by
    rw [enumerate_eq, found_probeOf hapi, h]
    by_cases hden : ∃ n < MAX_DRIVES, deniedAt (probeOf bays) n = true
    · rw [if_pos ⟨rfl, hden⟩]
      obtain ⟨n, hn, hdenied⟩ := hden
      exact .inr ⟨⟨_, rfl⟩, n, hn, (deniedAt_probeOf bays n).mp hdenied⟩
    · rw [if_neg (fun hboth => hden hboth.2)]
      refine .inl ⟨rfl, ?_⟩
      intro n hn hbay
      exact hden ⟨n, hn, (deniedAt_probeOf bays n).mpr hbay⟩

/-- A drive with one slot in use, behind an empty one. -/
def dataDrive : Drive :=
  { size := 1073741824
    sector := 2048
    style := .gpt
    table :=
      { header := Vector.replicate 40 0
        slots := [basicSlot 0 1, basicSlot 268435456 2]
        count_lt := by decide
        trailing := List.replicate (LAYOUT_BUF - (48 + 2 * ENTRY_SIZE)) 0 }
    front := Vector.replicate 20 0
    back := Vector.replicate 8 0
    size_lt := by decide
    sector_ne := by decide
    fills := by
      rw [length_encode, List.length_replicate]
      rfl }

/-- It stands beside a reader without a medium and a drive that may not be opened. -/
def dataBays : Nat → Bay
  | 0 => .closed ERROR_ACCESS_DENIED
  | 1 => .mute (some (Vector.replicate 8 0)) none
  | 2 => .drive dataDrive
  | _ => .closed ERROR_FILE_NOT_FOUND

theorem disksOf_dataBays : disksOf dataBays = [dataDrive.disk 2] := rfl

theorem enumerate_bays_data : ∃ disks,
    enumerate referenceApi (probeOf dataBays) = .ok disks ∧ disks.Perm [dataDrive.disk 2] := by
  have hsome : disksOf dataBays ≠ [] := by
    rw [disksOf_dataBays]
    exact List.cons_ne_nil _ _
  obtain ⟨disks, hok, hperm, _⟩ :=
    (enumerate_bays referenceApi referenceApi_lawful dataBays).listed hsome
  exact ⟨disks, hok, disksOf_dataBays ▸ hperm⟩

end LivediskForensic.Windows
