/-
  LivediskForensic.Linux.MountLookup — WHICH PARTITIONS COME OUT MOUNTED.

  `build` attaches a mount point to a partition by looking its kernel name up
  in the parsed table.  This file says once what that lookup sees, in terms of
  the text itself:

      a partition of `build disks text` has a mount point
        ↔ some line of the text has three fields, the first one `/dev/<name>`

  (`mountPoint_isSome_iff`), and what `build` returns record by record
  (`mem_build`, `mem_partitions_buildDisk`).  Later files argue from these and
  never unfold the parser again.
-/
import LivediskForensic.Linux.Sysfs

namespace LivediskForensic.Sysfs

open LivediskForensic.Lib

/-! ## §1. Lines that name a device. -/

/-- Some line of the table has at least three fields, the first of them `/dev/<name>`. -/
def NamesDevice (content name : String) : Prop :=
  ∃ line ∈ lines content.toList, ∃ mount fs rest,
    wordsBy isWhiteSpace line = ("/dev/" ++ name).toList :: mount :: fs :: rest

/-- A line that begins with a device field and two more fields is an entry. -/
theorem parseMountLine_of_words {line mount fs : List Char} {name : String}
    {rest : List (List Char)}
    (h : wordsBy isWhiteSpace line = ("/dev/" ++ name).toList :: mount :: fs :: rest) :
    parseMountLine line
      = some (name, decodeOctal (String.ofList mount), String.ofList fs) := by
  have hstrip : stripPrefix "/dev/".toList ("/dev/" ++ name).toList = some name.toList := by
    rw [String.toList_append, stripPrefix_append]
  unfold parseMountLine
  rw [h]
  show ((stripPrefix "/dev/".toList ("/dev/" ++ name).toList).bind _) = _
  rw [hstrip]
  simp

/-- What a line must hold for `parse_mounts` to accept it. -/
theorem words_of_parseMountLine {line : List Char} {m : String × String × String}
    (h : parseMountLine line = some m) :
    ∃ mount fs rest,
      wordsBy isWhiteSpace line = ("/dev/" ++ m.1).toList :: mount :: fs :: rest
      ∧ m.2.1 = decodeOctal (String.ofList mount) ∧ m.2.2 = String.ofList fs := by
  simp only [parseMountLine, Option.bind_eq_bind, Option.bind_eq_some_iff,
    Option.some.injEq] at h
  obtain ⟨dev, ⟨field, hfield, hstrip⟩, mount, hmount, fs, hfs, hm⟩ := h
  subst hm
  cases hw : wordsBy isWhiteSpace line with
  | nil => simp [hw] at hfield
  | cons f₀ ws =>
      cases ws with
      | nil => simp [hw] at hmount
      | cons f₁ ws =>
          cases ws with
          | nil => simp [hw] at hfs
          | cons f₂ rest =>
              simp only [hw, List.getElem?_cons_zero, List.getElem?_cons_succ,
                Option.some.injEq] at hfield hmount hfs
              refine ⟨mount, fs, rest, ?_, rfl, rfl⟩
              rw [hfield, hmount, hfs, stripPrefix_eq_some.mp hstrip]
              simp

/-- **The table has an entry for a device exactly when a line names it.** -/
theorem exists_mem_parseMounts {content name : String} :
    (∃ m ∈ parseMounts content, m.1 = name) ↔ NamesDevice content name := by
  constructor
  · intro h
    obtain ⟨m, hm, hname⟩ := h
    obtain ⟨line, hline, hparse⟩ := List.mem_filterMap.mp hm
    obtain ⟨mount, fs, rest, hwords, _, _⟩ := words_of_parseMountLine hparse
    exact ⟨line, hline, mount, fs, rest, hname ▸ hwords⟩
  · intro h
    obtain ⟨line, hline, mount, fs, rest, hwords⟩ := h
    exact ⟨_, List.mem_filterMap.mpr ⟨line, hline, parseMountLine_of_words hwords⟩, rfl⟩

/-! ## §2. The lookup. -/

theorem lookup_isSome {mounts : List (String × String × String)} {name : String} :
    (lookup mounts name).isSome = true ↔ ∃ m ∈ mounts, m.1 = name := by
  simp [lookup, List.find?_isSome]

/-- The two results of the lookup are set together. -/
theorem buildPartition_filesystem_isSome (mounts : List (String × String × String))
    (p : RawPart) :
    (buildPartition mounts p).filesystem.isSome = (buildPartition mounts p).mountPoint.isSome := by
  simp [buildPartition]

theorem buildPartition_mountPoint_isSome {content : String} {p : RawPart} :
    (buildPartition (parseMounts content) p).mountPoint.isSome = true
      ↔ NamesDevice content p.name := by
  show ((lookup (parseMounts content) p.name).map Prod.fst).isSome = true ↔ _
  rw [Option.isSome_map, lookup_isSome, exists_mem_parseMounts]

/-! ## §3. `build`, record by record. -/

theorem mem_build {disks : List RawDisk} {content : String} {d : PhysicalDisk} :
    d ∈ build disks content ↔ ∃ r ∈ disks, buildDisk (parseMounts content) r = d := by
  simp [build]

theorem mem_partitions_buildDisk {mounts : List (String × String × String)} {r : RawDisk}
    {p : Partition} :
    p ∈ (buildDisk mounts r).partitions ↔ ∃ q ∈ r.partitions, buildPartition mounts q = p := by
  simp [buildDisk]

@[simp] theorem buildDisk_name (mounts : List (String × String × String)) (r : RawDisk) :
    (buildDisk mounts r).name = r.name := rfl

/-- **A partition comes out mounted exactly when the text names its device.** -/
theorem mountPoint_isSome_iff {disks : List RawDisk} {content : String} {d : PhysicalDisk}
    (hd : d ∈ build disks content) {p : Partition} (hp : p ∈ d.partitions) :
    p.mountPoint.isSome = true ↔ NamesDevice content p.name := by
  obtain ⟨r, _, hr⟩ := mem_build.mp hd
  subst hr
  obtain ⟨q, _, hq⟩ := mem_partitions_buildDisk.mp hp
  subst hq
  exact buildPartition_mountPoint_isSome

end LivediskForensic.Sysfs
