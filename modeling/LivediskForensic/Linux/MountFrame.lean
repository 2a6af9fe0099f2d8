/-
  LivediskForensic.Linux.MountFrame — WHAT A STRETCH OF THE MOUNT TABLE CAN DO.

  `build` reads the whole table for every partition.  Still nothing but the
  mounts depends on the table: the disks are those of the empty table, and each
  partition has the mount that the first stretch with a line for it gives, the
  mount point and the file system from one line, whatever the stretches behind
  it say.

      build_remount   — one table, against the empty one
      build_stretches — a table in any number of stretches
-/
import LivediskForensic.Linux.MountEncoding
import LivediskForensic.Linux.MountLookup

namespace LivediskForensic.Sysfs

open LivediskForensic.Lib

/-! ## §1. The parsed table. -/

/-- Carriage returns and blank lines do not count for the entries. -/
theorem parseMounts_eq_splitOn (text : String) :
    parseMounts text = (text.toList.splitOn '\n').filterMap parseMountLine := by
  obtain ⟨pieces, last, hpieces⟩ : ∃ pieces last, text.toList.splitOn '\n' = pieces ++ [last] := by
    have hne := List.splitOn_ne_nil '\n' text.toList
    exact ⟨_, _, (List.dropLast_append_getLast hne).symm⟩
  have hlast : ([last].filter (fun l => !l.isEmpty)).filterMap parseMountLine
      = [last].filterMap parseMountLine := by
    cases last with
    | nil => rfl
    | cons c cs => rfl
  unfold parseMounts lines
  dsimp only
  rw [hpieces, List.dropLast_concat, List.getLast?_concat, List.filterMap_append,
    List.filterMap_append, List.filterMap_map, ← hlast]
  congr 1
  exact List.filterMap_congr (fun l _ => parseMountLine_dropCr l)

/-- **Two stretches** are parsed each on its own. -/
theorem parseMounts_append (text more : String) :
    parseMounts (text ++ "\n" ++ more) = parseMounts text ++ parseMounts more := by
  have hlist : (text ++ "\n" ++ more).toList = text.toList ++ '\n' :: more.toList := by
    rw [String.toList_append, String.toList_append, List.append_assoc]
    rfl
  rw [parseMounts_eq_splitOn, parseMounts_eq_splitOn, parseMounts_eq_splitOn, hlist,
    List.splitOn_eq_splitOnP, List.splitOn_eq_splitOnP, List.splitOn_eq_splitOnP,
    List.splitOnP_append_cons _ _ (by simp), List.filterMap_append]

/-- The first entry for a device counts. -/
theorem lookup_append (ms ns : List (String × String × String)) (name : String) :
    lookup (ms ++ ns) name = (lookup ms name).or (lookup ns name) := by
  unfold lookup
  rw [List.find?_append, Option.map_or]

/-! ## §2. What depends on the table. -/

/-- The mount point and the file system of the first line for a device of that name. -/
def mountIn (text name : String) : Option (String × String) := lookup (parseMounts text) name

/-- A partition with that mount, and nothing else changed. -/
def mounted (mount : Option (String × String)) (p : Partition) : Partition :=
  { p with
    mountPoint := mount.map Prod.fst
    filesystem := mount.map Prod.snd }

/-- A disk with its partitions mounted by their names, and nothing else changed. -/
def remount (mounts : String → Option (String × String)) (d : PhysicalDisk) : PhysicalDisk :=
  { d with partitions := d.partitions.map (fun p => mounted (mounts p.name) p) }

theorem buildPartition_mounted (ms : List (String × String × String)) (p : RawPart) :
    buildPartition ms p = mounted (lookup ms p.name) (buildPartition [] p) := rfl

/-- The order of the partitions does not depend on the table. -/
theorem partitions_buildDisk (ms : List (String × String × String)) (d : RawDisk) :
    (buildDisk ms d).partitions
      = (sortByKey (fun p => (parseU64 p.start * SYSFS_SECTOR).toNat) d.partitions).map
          (buildPartition ms) :=
  sortByKey_map (fun _ _ _ _ => Iff.rfl)

theorem buildDisk_remount (ms : List (String × String × String)) (d : RawDisk) :
    buildDisk ms d = remount (lookup ms) (buildDisk [] d) := by
  have hparts : (buildDisk ms d).partitions
      = (buildDisk [] d).partitions.map (fun p => mounted (lookup ms p.name) p) := by
    rw [partitions_buildDisk, partitions_buildDisk, List.map_map]
    exact List.map_congr_left (fun p _ => buildPartition_mounted ms p)
  show { buildDisk ms d with partitions := (buildDisk ms d).partitions } = _
  rw [hparts]
  rfl

/-- Nor does the order of the disks. -/
theorem build_eq_map (disks : List RawDisk) (text : String) :
    build disks text = (sortByKey RawDisk.name disks).map (buildDisk (parseMounts text)) :=
  sortByKey_map (fun _ _ _ _ => Iff.rfl)

/-- **A table sets mounts, by the names of the partitions, and nothing else.** -/
theorem build_remount (disks : List RawDisk) (text : String) :
    build disks text = (build disks "").map (remount (mountIn text)) := by
  have hempty : parseMounts "" = [] := rfl
  rw [build_eq_map, build_eq_map, hempty, List.map_map]
  exact List.map_congr_left (fun d _ => buildDisk_remount (parseMounts text) d)

/-! ## §3. Any number of stretches. -/

/-- Stretches of a table, each closed by a line feed. -/
def table : List String → String
  | [] => ""
  | text :: texts => text ++ "\n" ++ table texts

/-- **The first stretch with a line for a device decides.** -/
theorem mountIn_table (texts : List String) (name : String) :
    mountIn (table texts) name = texts.findSome? (fun text => mountIn text name) := by
  induction texts with
  | nil => rfl
  | cons text texts ih =>
      have hfirst : mountIn (table (text :: texts)) name
          = (mountIn text name).or (mountIn (table texts) name) := by
        show lookup (parseMounts (text ++ "\n" ++ table texts)) name = _
        rw [parseMounts_append, lookup_append]
        rfl
      rw [hfirst, ih, List.findSome?_cons]
      cases mountIn text name with
      | none => rfl
      | some mount => rfl

/-- **THE TABLE ACTS STRETCH BY STRETCH.**  Under any one table the disks are those of the empty
one, but for the mounts it has for the partitions' names; and under stretches, one after the other,
the mount of a partition is that of the first of them that has one for its name. -/
theorem build_stretches (disks : List RawDisk) (texts : List String) :
    (∀ text, build disks text = (build disks "").map (remount (mountIn text)))
      ∧ build disks (table texts) = (build disks "").map
          (remount (fun name => texts.findSome? (fun text => mountIn text name))) := by
  refine ⟨build_remount disks, ?_⟩
  rw [build_remount, funext (mountIn_table texts)]

end LivediskForensic.Sysfs
