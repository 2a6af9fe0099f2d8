/-
  LivediskForensic.Linux.ListingImage — WHICH LISTINGS A LINUX HOST CAN YIELD.

  The text of the files is arbitrary, the listing is not: whatever stands in
  `/sys/block` and `/proc/mounts`, the offsets are whole sectors, no sector size
  is zero, the fields of a mount come in their forms.  `Returnable` says all of
  it, and nothing more can be said: every such listing is read off some files.

      parseMounts_image — the entries `parse_mounts` can report
      enumerate_image   — the listings `enumerate` can return
-/
import LivediskForensic.Linux.Calls
import LivediskForensic.Linux.Machine
import LivediskForensic.Linux.MountFrame
import LivediskForensic.Linux.MountNewline

namespace LivediskForensic.Sysfs

open LivediskForensic.Lib

/-! ## §1. The entries of a mount table. -/

def Unspaced (s : String) : Prop := ∀ c ∈ s.toList, isWhiteSpace c = false

theorem unspaced_of_all {s : String} (h : s.toList.all (fun c => !isWhiteSpace c) = true) :
    Unspaced s := by
  intro c hc
  simpa using List.all_eq_true.mp h c hc

/-- An entry as the table can hold it.  Only the mount point is decoded, so only there white
space can stand, and it is byte-sized. -/
structure Reportable (m : String × String × String) : Prop where
  device : Unspaced m.1
  mount_ne : m.2.1 ≠ ""
  mount_bytes : ∀ c ∈ m.2.1.toList, isWhiteSpace c = true → c.toNat < 256
  fs_ne : m.2.2 ≠ ""
  fs : Unspaced m.2.2

/-- What the decoder writes is copied, or a byte. -/
theorem mem_decodeOctalLoop {c : Char} (s : List Char) :
    ∀ skip, c ∈ decodeOctalLoop skip s → c ∈ s ∨ c.toNat < 256 := by
  induction s with
  | nil =>
      intro skip h
      unfold decodeOctalLoop at h
      exact absurd h List.not_mem_nil
  | cons x s ih =>
      intro skip h
      have hrest : ∀ {k}, c ∈ decodeOctalLoop k s → c ∈ x :: s ∨ c.toNat < 256 :=
        fun hk => (ih _ hk).imp_left (List.mem_cons_of_mem x)
      cases skip with
      | succ skip => exact hrest h
      | zero =>
          by_cases hx : x = '\\'
          · subst hx
            cases hescape : decodedEscape s with
            | none =>
                rw [decodeOctalLoop_keep hescape, List.mem_cons] at h
                rcases h with h | h
                · exact Or.inl (h ▸ List.mem_cons_self)
                · exact hrest h
            | some byte =>
                rw [decodeOctalLoop_decode hescape, List.mem_cons] at h
                rcases h with h | h
                · obtain ⟨_, _, _, _, _, _, _, _, hbyte, hlt⟩ := decodedEscape_eq_some hescape
                  right
                  rw [h, hbyte, toNat_ofNat (Or.inl (by omega))]
                  exact hlt
                · exact hrest h
          · rw [decodeOctalLoop_copy hx, List.mem_cons] at h
            rcases h with h | h
            · exact Or.inl (h ▸ List.mem_cons_self)
            · exact hrest h

theorem decodeOctalLoop_ne_nil {s : List Char} (h : s ≠ []) : decodeOctalLoop 0 s ≠ [] := by
  cases s with
  | nil => exact absurd rfl h
  | cons c s =>
      by_cases hc : c = '\\'
      · subst hc
        cases hescape : decodedEscape s with
        | none =>
            rw [decodeOctalLoop_keep hescape]
            exact List.cons_ne_nil _ _
        | some byte =>
            rw [decodeOctalLoop_decode hescape]
            exact List.cons_ne_nil _ _
      · rw [decodeOctalLoop_copy hc]
        exact List.cons_ne_nil _ _

theorem ne_empty_of_toList {s : String} (h : s.toList ≠ []) : s ≠ "" := by
  intro hs
  rw [hs] at h
  exact h rfl

theorem toList_ne_nil {s : String} (h : s ≠ "") : s.toList ≠ [] :=
  fun hs => h (String.toList_inj.mp (hs.trans (by decide)))

/-- The words of a line: never empty, and without white space. -/
theorem word_spec {line w : List Char} (h : w ∈ wordsBy isWhiteSpace line) :
    w ≠ [] ∧ ∀ c ∈ w, isWhiteSpace c = false := by
  refine ⟨?_, eq_false_of_mem_wordsBy h⟩
  unfold wordsBy at h
  intro hw
  rw [hw, List.mem_filter] at h
  exact absurd h.2 (by decide)

theorem reportable_of_mem {text : String} {m : String × String × String}
    (h : m ∈ parseMounts text) : Reportable m := by
  obtain ⟨line, _, hparse⟩ := List.mem_filterMap.mp h
  obtain ⟨mount, fs, rest, hwords, hmount, hfs⟩ := words_of_parseMountLine hparse
  have hspec : ∀ w ∈ wordsBy isWhiteSpace line, w ≠ [] ∧ ∀ c ∈ w, isWhiteSpace c = false :=
    fun w hw => word_spec hw
  rw [hwords, List.forall_mem_cons, List.forall_mem_cons, List.forall_mem_cons] at hspec
  obtain ⟨⟨_, hdev⟩, ⟨hmount_ne, hmount_word⟩, ⟨hfs_ne, hfs_word⟩, _⟩ := hspec
  refine ⟨?_, ?_, ?_, ?_, ?_⟩
  · intro c hc
    exact hdev c (by rw [String.toList_append]; exact List.mem_append_right _ hc)
  · rw [hmount]
    apply ne_empty_of_toList
    unfold decodeOctal
    rw [String.toList_ofList, String.toList_ofList]
    exact decodeOctalLoop_ne_nil hmount_ne
  · intro c hc hspace
    rw [hmount] at hc
    unfold decodeOctal at hc
    rw [String.toList_ofList, String.toList_ofList] at hc
    rcases mem_decodeOctalLoop _ _ hc with hcopied | hbyte
    · rw [hmount_word c hcopied] at hspace
      exact absurd hspace (by simp)
    · exact hbyte
  · rw [hfs]
    apply ne_empty_of_toList
    rw [String.toList_ofList]
    exact hfs_ne
  · intro c hc
    rw [hfs, String.toList_ofList] at hc
    exact hfs_word c hc

/-! ## §2. A table for any entries. -/

/-- The characters to escape in a mount point: byte-sized white space, and the backslash. -/
def spacing (c : Char) : Bool := (isWhiteSpace c && decide (c.toNat < 256)) || c == '\\'

theorem spacing_byte {c : Char} (h : spacing c = true) : c.toNat < 256 := by
  unfold spacing at h
  rw [Bool.or_eq_true, Bool.and_eq_true, decide_eq_true_eq, beq_iff_eq] at h
  rcases h with h | h
  · exact h.2
  · rw [h]
    decide

def lineOf (m : String × String × String) : List Char :=
  ("/dev/" ++ m.1).toList ++ ' ' :: (escapeWith spacing m.2.1.toList ++ ' ' :: m.2.2.toList)

def tableOf (ms : List (String × String × String)) : String :=
  String.ofList (ms.flatMap (fun m => lineOf m ++ ['\n']))

/-- No white space is left in the escaped mount point. -/
theorem unspaced_escapeWith {m : String × String × String} (h : Reportable m) :
    ∀ c ∈ escapeWith spacing m.2.1.toList, isWhiteSpace c = false := by
  intro c hc
  obtain ⟨x, hx, hcx⟩ := List.mem_flatMap.mp hc
  cases hspacing : spacing x with
  | true =>
      rw [hspacing, if_pos rfl] at hcx
      exact (mem_octalEscape (spacing_byte hspacing) hcx).1
  | false =>
      rw [hspacing, if_neg (by simp), List.mem_singleton] at hcx
      subst hcx
      cases hspace : isWhiteSpace c with
      | false => rfl
      | true =>
          have hbyte := h.mount_bytes c hx hspace
          unfold spacing at hspacing
          rw [hspace, decide_eq_true hbyte] at hspacing
          exact absurd hspacing (by simp)

theorem escapeWith_ne_nil {E : Char → Bool} {s : List Char} (h : s ≠ []) :
    escapeWith E s ≠ [] := by
  cases s with
  | nil => exact absurd rfl h
  | cons c s =>
      cases hE : E c with
      | true =>
          rw [escapeWith_cons_pos hE]
          exact List.cons_ne_nil _ _
      | false =>
          rw [escapeWith_cons_neg hE]
          exact List.cons_ne_nil _ _

theorem words_lineOf {m : String × String × String} (h : Reportable m) :
    wordsBy isWhiteSpace (lineOf m)
      = [("/dev/" ++ m.1).toList, escapeWith spacing m.2.1.toList, m.2.2.toList] := by
  have hdev_ne : ("/dev/" ++ m.1).toList ≠ [] := by
    rw [String.toList_append]
    exact List.append_ne_nil_of_left_ne_nil (by decide) _
  have hstem : Unspaced "/dev/" := unspaced_of_all (by decide)
  have hdev : ∀ c ∈ ("/dev/" ++ m.1).toList, isWhiteSpace c = false := by
    intro c hc
    rw [String.toList_append, List.mem_append] at hc
    rcases hc with hc | hc
    · exact hstem c hc
    · exact h.device c hc
  unfold lineOf
  rw [wordsBy_cons_word hdev_ne hdev isWhiteSpace_space,
    wordsBy_cons_word (escapeWith_ne_nil (toList_ne_nil h.mount_ne)) (unspaced_escapeWith h)
      isWhiteSpace_space,
    wordsBy_eq_singleton (toList_ne_nil h.fs_ne) h.fs]

theorem parseMountLine_lineOf {m : String × String × String} (h : Reportable m) :
    parseMountLine (lineOf m) = some m := by
  have hmount : decodeOctal (String.ofList (escapeWith spacing m.2.1.toList)) = m.2.1 := by
    unfold decodeOctal
    rw [String.toList_ofList,
      decodeOctalLoop_escapeWith (by decide) (fun c hc => spacing_byte hc), String.ofList_toList]
  rw [parseMountLine_of_words (words_lineOf h), hmount, String.ofList_toList]

theorem newline_not_mem_lineOf {m : String × String × String} (h : Reportable m) :
    '\n' ∉ lineOf m := by
  intro hmem
  have hspace : isWhiteSpace '\n' = true := by decide
  have hfield : ∀ w ∈ wordsBy isWhiteSpace (lineOf m), '\n' ∉ w := by
    intro w hw hnl
    rw [(word_spec hw).2 '\n' hnl] at hspace
    exact absurd hspace (by simp)
  rw [words_lineOf h] at hfield
  simp only [List.mem_cons, List.not_mem_nil, or_false, forall_eq_or_imp, forall_eq] at hfield
  unfold lineOf at hmem
  simp only [List.mem_append, List.mem_cons] at hmem
  rcases hmem with hmem | hmem | hmem | hmem | hmem
  · exact hfield.1 hmem
  · exact absurd hmem (by decide)
  · exact hfield.2.1 hmem
  · exact absurd hmem (by decide)
  · exact hfield.2.2 hmem

/-- Every list of such entries is the parse of its table. -/
theorem parseMounts_tableOf {ms : List (String × String × String)}
    (h : ∀ m ∈ ms, Reportable m) : parseMounts (tableOf ms) = ms := by
  have hlines : lines (tableOf ms).toList = ms.map (fun m => dropCr (lineOf m)) := by
    have hflat : (tableOf ms).toList = (ms.map lineOf).flatMap (fun l => l ++ ['\n']) := by
      unfold tableOf
      rw [String.toList_ofList, List.flatMap_map]
    rw [hflat, lines_flatMap_newline, List.map_map]
    · rfl
    · intro l hl
      obtain ⟨m, hm, rfl⟩ := List.mem_map.mp hl
      exact newline_not_mem_lineOf (h m hm)
  unfold parseMounts
  rw [hlines, List.filterMap_map]
  have hsome : ms.filterMap (parseMountLine ∘ fun m => dropCr (lineOf m)) = ms.filterMap some := by
    apply List.filterMap_congr
    intro m hm
    show parseMountLine (dropCr (lineOf m)) = some m
    rw [parseMountLine_dropCr, parseMountLine_lineOf (h m hm)]
  rw [hsome, List.filterMap_some]

/-- **WHAT `parse_mounts` CAN REPORT**: any list of entries with bare device names and fstypes,
and mount points whose white space is byte-sized. -/
theorem parseMounts_image (ms : List (String × String × String)) :
    (∃ text, parseMounts text = ms) ↔ ∀ m ∈ ms, Reportable m := by
  constructor
  · intro h m hm
    obtain ⟨text, rfl⟩ := h
    exact reportable_of_mem hm
  · intro h
    exact ⟨tableOf ms, parseMounts_tableOf h⟩

end LivediskForensic.Sysfs

namespace LivediskForensic.Linux

open LivediskForensic.Lib
open LivediskForensic.Sysfs

/-! ## §3. Listings. -/

/-- Not mounted, or mounted with an entry the table can hold. -/
def Mountable (name : String) (mount fs : Option String) : Prop :=
  (mount = none ∧ fs = none) ∨ ∃ m f, mount = some m ∧ fs = some f ∧ Reportable (name, m, f)

/-- A partition as it can be listed under a disk of that name. -/
structure ReturnablePartition (disk : String) (p : Partition) : Prop where
  path : p.devicePath = "/dev/" ++ p.name
  named : disk.toList <+: p.name.toList
  start_sectors : 512 ∣ p.startOffset.toNat
  size_sectors : 512 ∣ p.sizeBytes.toNat
  no_type : p.partitionType = none
  mount : Mountable p.name p.mountPoint p.filesystem
  no_label : p.label = none

/-- A disk as it can be listed. -/
structure ReturnableDisk (d : PhysicalDisk) : Prop where
  imaging : isVirtual d.name = false
  path : d.devicePath = "/dev/" ++ d.name
  size_sectors : 512 ∣ d.sizeBytes.toNat
  logical_ne : d.logicalSectorSize ≠ 0
  physical_ne : d.physicalSectorSize ≠ 0
  model : ∀ m ∈ d.model, m ≠ "" ∧ trimBy isWhiteSpace m.toList = m.toList
  no_serial : d.serial = none
  synthesized : d.synthesized = "dm-".toList.isPrefixOf d.name.toList
  partitions : ∀ p ∈ d.partitions, ReturnablePartition d.name p
  by_offset : d.partitions.Pairwise (fun p q => p.startOffset.toNat ≤ q.startOffset.toNat)

def partitionsOf (disks : List PhysicalDisk) : List Partition :=
  disks.flatMap PhysicalDisk.partitions

/-- A listing as `enumerate` can return it. -/
structure Returnable (disks : List PhysicalDisk) : Prop where
  disk : ∀ d ∈ disks, ReturnableDisk d
  by_name : disks.Pairwise (fun d e => d.name ≤ e.name)
  /-- The mount is looked up by name, so partitions of one name share it. -/
  one_mount : ∀ p ∈ partitionsOf disks, ∀ q ∈ partitionsOf disks, p.name = q.name →
    p.mountPoint = q.mountPoint ∧ p.filesystem = q.filesystem

/-! ## §4. What is returned. -/

theorem readPartitions_named {disk : String} {items : List (Except IoError SubEntry)} :
    ∀ {parts : List RawPart}, readPartitions disk items = .ok parts →
      ∀ q ∈ parts, disk.toList <+: q.name.toList := by
  induction items with
  | nil =>
      intro parts h q hq
      injection h with h
      rw [← h] at hq
      exact absurd hq List.not_mem_nil
  | cons item items ih =>
      intro parts h
      cases item with
      | error e => exact absurd h (by simp [readPartitions, liftIo, bind, Except.bind])
      | ok sub =>
          simp only [readPartitions, liftIo, bind, Except.bind] at h
          cases hdir : isPartitionDir disk sub with
          | false =>
              simp only [hdir, Bool.false_eq_true, if_false] at h
              exact ih h
          | true =>
              simp only [hdir, if_true] at h
              cases hrest : readPartitions disk items with
              | error e =>
                  rw [hrest] at h
                  exact absurd h (by simp)
              | ok rest =>
                  rw [hrest] at h
                  injection h with h
                  rw [← h, List.forall_mem_cons]
                  unfold isPartitionDir at hdir
                  rw [Bool.and_eq_true, List.isPrefixOf_iff_prefix] at hdir
                  exact ⟨hdir.1, ih hrest⟩

theorem readChildren_named {entry : BlockEntry} {parts : List RawPart}
    (h : readChildren entry = .ok parts) : ∀ q ∈ parts, entry.name.toList <+: q.name.toList := by
  unfold readChildren at h
  cases hitems : entry.children with
  | error e =>
      rw [hitems] at h
      exact absurd h (by simp [liftIo, bind, Except.bind])
  | ok items =>
      rw [hitems] at h
      exact readPartitions_named h

/-- The records of the walk: no RAM disks, and partitions named after their disk. -/
theorem readEntries_named {items : List (Except IoError BlockEntry)} :
    ∀ {raw : List RawDisk}, readEntries items = .ok raw →
      ∀ r ∈ raw, isVirtual r.name = false ∧ ∀ q ∈ r.partitions, r.name.toList <+: q.name.toList := by
  induction items with
  | nil =>
      intro raw h r hr
      injection h with h
      rw [← h] at hr
      exact absurd hr List.not_mem_nil
  | cons item items ih =>
      intro raw h
      cases item with
      | error e => exact absurd h (by simp [readEntries, liftIo, bind, Except.bind])
      | ok entry =>
          simp only [readEntries, liftIo, bind, Except.bind] at h
          cases hvirtual : isVirtual entry.name with
          | true =>
              simp only [hvirtual, if_true] at h
              exact ih h
          | false =>
              simp only [hvirtual, Bool.false_eq_true, if_false] at h
              cases hparts : readChildren entry with
              | error e =>
                  rw [hparts] at h
                  exact absurd h (by simp)
              | ok parts =>
                  rw [hparts] at h
                  cases hrest : readEntries items with
                  | error e =>
                      rw [hrest] at h
                      exact absurd h (by simp)
                  | ok rest =>
                      rw [hrest] at h
                      injection h with h
                      rw [← h, List.forall_mem_cons]
                      exact ⟨⟨hvirtual, readChildren_named hparts⟩, ih hrest⟩

theorem dvd_toNat_sectors (n : UInt64) : 512 ∣ (n * SYSFS_SECTOR).toNat := by
  -- a product that wraps is still whole sectors: 512 divides 2^64
  rw [UInt64.toNat_mul, show SYSFS_SECTOR.toNat = 512 from rfl]
  omega

theorem logicalOf_ne (d : RawDisk) : logicalOf d ≠ 0 := by
  unfold logicalOf
  dsimp only
  by_cases h : (parseU64 d.logical).toUInt32 = 0
  · rw [if_pos h]
    decide
  · rw [if_neg h]
    exact h

theorem physicalOf_ne (d : RawDisk) : physicalOf d ≠ 0 := by
  unfold physicalOf
  dsimp only
  by_cases h : (parseU64 d.physical).toUInt32 = 0
  · rw [if_pos h]
    exact logicalOf_ne d
  · rw [if_neg h]
    exact h

theorem mountable_lookup (text name : String) :
    Mountable name ((lookup (parseMounts text) name).map Prod.fst)
      ((lookup (parseMounts text) name).map Prod.snd) := by
  unfold lookup
  cases hfind : (parseMounts text).find? (fun m => m.1 == name) with
  | none => exact Or.inl ⟨rfl, rfl⟩
  | some m =>
      have hname : m.1 = name := by simpa using List.find?_some hfind
      refine Or.inr ⟨m.2.1, m.2.2, rfl, rfl, ?_⟩
      rw [← hname]
      exact reportable_of_mem (List.mem_of_find?_eq_some hfind)

theorem returnable_buildDisk (text : String) {r : RawDisk} (hvirtual : isVirtual r.name = false)
    (hnamed : ∀ q ∈ r.partitions, r.name.toList <+: q.name.toList) :
    ReturnableDisk (buildDisk (parseMounts text) r) := by
  refine ⟨hvirtual, rfl, dvd_toNat_sectors _, logicalOf_ne r, physicalOf_ne r, ?_, rfl, rfl, ?_,
    sortByKey_pairwise _ _⟩
  · intro m hm
    have hm : (r.model.map (fun s => String.ofList (trimBy isWhiteSpace s.toList))).filter
        (fun s => s ≠ "") = some m := hm
    rw [Option.filter_eq_some_iff, Option.map_eq_some_iff] at hm
    obtain ⟨⟨s, _, hs⟩, hne⟩ := hm
    refine ⟨of_decide_eq_true hne, ?_⟩
    obtain ⟨hfirst, hlast⟩ := trimBy_ends isWhiteSpace s.toList
    rw [← hs, String.toList_ofList]
    exact trimBy_eq_self hfirst hlast
  · intro p hp
    obtain ⟨q, hq, rfl⟩ := mem_partitions_buildDisk.mp hp
    exact ⟨rfl, hnamed q hq, dvd_toNat_sectors _, dvd_toNat_sectors _, rfl,
      mountable_lookup text q.name, rfl⟩

theorem returnable_of_enumerate {host : Host} {disks : List PhysicalDisk}
    (h : enumerate host = .ok disks) : Returnable disks := by
  obtain ⟨raw, hraw, rfl⟩ := enumerate_eq_ok_iff.mp h
  have hwalk : ∀ r ∈ raw, isVirtual r.name = false
      ∧ ∀ q ∈ r.partitions, r.name.toList <+: q.name.toList := by
    unfold readSysBlock at hraw
    cases hitems : host.block with
    | error e =>
        rw [hitems] at hraw
        exact absurd hraw (by simp [liftIo, bind, Except.bind])
    | ok items =>
        rw [hitems] at hraw
        exact readEntries_named hraw
  have hmount : ∀ p ∈ partitionsOf (build raw (readAttr host.mounts)),
      p.mountPoint = (lookup (parseMounts (readAttr host.mounts)) p.name).map Prod.fst
        ∧ p.filesystem = (lookup (parseMounts (readAttr host.mounts)) p.name).map Prod.snd := by
    intro p hp
    obtain ⟨d, hd, hpd⟩ := List.mem_flatMap.mp hp
    obtain ⟨r, _, rfl⟩ := mem_build.mp hd
    obtain ⟨q, _, rfl⟩ := mem_partitions_buildDisk.mp hpd
    exact ⟨rfl, rfl⟩
  refine ⟨?_, sortByKey_pairwise _ _, ?_⟩
  · intro d hd
    obtain ⟨r, hr, rfl⟩ := mem_build.mp hd
    exact returnable_buildDisk _ (hwalk r hr).1 (hwalk r hr).2
  · intro p hp q hq hname
    rw [(hmount p hp).1, (hmount p hp).2, (hmount q hq).1, (hmount q hq).2, hname]
    exact ⟨rfl, rfl⟩

/-! ## §5. Files for any listing. -/

def sectorsOf (bytes : UInt64) : Sectors :=
  ⟨bytes.toNat / 512, by have h := bytes.toNat_lt; omega⟩

theorem bytes_sectorsOf {b : UInt64} (h : 512 ∣ b.toNat) : (sectorsOf b).bytes = b := by
  rw [← UInt64.toNat_inj, Sectors.toNat_bytes]
  exact Nat.mul_div_cancel' h

def partitionDir (p : Partition) : SubEntry :=
  { name := p.name
    hasPartitionFile := true
    size := attr (sectorsOf p.sizeBytes).val
    start := attr (sectorsOf p.startOffset).val }

/-- The directory of a disk. -/
def directoryOf (d : PhysicalDisk) : Calls.Directory :=
  { name := d.name
    children := d.partitions.map partitionDir
    size := attr (sectorsOf d.sizeBytes).val
    removable := attr d.removable.toNat
    ro := attr d.readOnly.toNat
    logical := attr d.logicalSectorSize.toNat
    physical := attr d.physicalSectorSize.toNat
    model := d.model.elim (.error .notFound) textFile }

def mountOfPartition (p : Partition) : Option (String × String × String) :=
  p.mountPoint.bind (fun m => p.filesystem.map (fun f => (p.name, m, f)))

/-- The mounts of a listing. -/
def mountsOf (disks : List PhysicalDisk) : List (String × String × String) :=
  (partitionsOf disks).filterMap mountOfPartition

/-- The files the listing is read off. -/
def filesOf (disks : List PhysicalDisk) : Host :=
  Calls.hostOf (disks.map directoryOf) (textFile (tableOf (mountsOf disks)))

/-! ## §6. The files read back. -/

theorem mountOfPartition_name {p : Partition} {m : String × String × String}
    (h : mountOfPartition p = some m) :
    m.1 = p.name ∧ p.mountPoint = some m.2.1 ∧ p.filesystem = some m.2.2 := by
  unfold mountOfPartition at h
  obtain ⟨mp, hmp, h⟩ := Option.bind_eq_some_iff.mp h
  obtain ⟨fs, hfs, h⟩ := Option.map_eq_some_iff.mp h
  rw [← h]
  exact ⟨rfl, hmp, hfs⟩

section Listing

variable {disks : List PhysicalDisk} (h : Returnable disks)

include h

theorem mountable_of_mem {p : Partition} (hp : p ∈ partitionsOf disks) :
    Mountable p.name p.mountPoint p.filesystem := by
  obtain ⟨d, hd, hpd⟩ := List.mem_flatMap.mp hp
  exact ((h.disk d hd).partitions p hpd).mount

theorem parseMounts_mountsOf : parseMounts (tableOf (mountsOf disks)) = mountsOf disks := by
  apply parseMounts_tableOf
  intro m hm
  obtain ⟨p, hp, hpm⟩ := List.mem_filterMap.mp hm
  obtain ⟨hname, hmp, hfs⟩ := mountOfPartition_name hpm
  rcases mountable_of_mem h hp with hnone | hsome
  · rw [hnone.1] at hmp
    exact absurd hmp (by simp)
  · obtain ⟨mp, fs, hmp', hfs', hreportable⟩ := hsome
    rw [hmp, Option.some.injEq] at hmp'
    rw [hfs, Option.some.injEq] at hfs'
    rw [← hname, ← hmp', ← hfs'] at hreportable
    exact hreportable

/-- The lookup gives every partition its own mount back. -/
theorem lookup_mountsOf {p : Partition} (hp : p ∈ partitionsOf disks) :
    (lookup (mountsOf disks) p.name).map Prod.fst = p.mountPoint
      ∧ (lookup (mountsOf disks) p.name).map Prod.snd = p.filesystem := by
  unfold lookup
  cases hfind : (mountsOf disks).find? (fun m => m.1 == p.name) with
  | some m =>
      have hname : m.1 = p.name := by simpa using List.find?_some hfind
      obtain ⟨q, hq, hqm⟩ := List.mem_filterMap.mp (List.mem_of_find?_eq_some hfind)
      obtain ⟨hqname, hmp, hfs⟩ := mountOfPartition_name hqm
      -- the entry may be another partition's, but of the same name
      obtain ⟨hsame_mp, hsame_fs⟩ := h.one_mount q hq p hp (hqname.symm.trans hname)
      rw [← hsame_mp, ← hsame_fs, hmp, hfs]
      exact ⟨rfl, rfl⟩
  | none =>
      rcases mountable_of_mem h hp with hnone | hsome
      · rw [hnone.1, hnone.2]
        exact ⟨rfl, rfl⟩
      · obtain ⟨mp, fs, hmp, hfs, _⟩ := hsome
        have hentry : mountOfPartition p = some (p.name, mp, fs) := by
          unfold mountOfPartition
          rw [hmp, hfs]
          rfl
        have hmem : (p.name, mp, fs) ∈ mountsOf disks := List.mem_filterMap.mpr ⟨p, hp, hentry⟩
        have hno := List.find?_eq_none.mp hfind _ hmem
        exact absurd (beq_self_eq_true p.name) hno

theorem buildPartition_partitionDir {d : PhysicalDisk} (hd : d ∈ disks) {p : Partition}
    (hp : p ∈ d.partitions) :
    buildPartition (mountsOf disks) (Calls.rawPart (partitionDir p)) = p := by
  have hform := (h.disk d hd).partitions p hp
  obtain ⟨hmp, hfs⟩ := lookup_mountsOf h (List.mem_flatMap.mpr ⟨d, hd, hp⟩)
  have hstart : parseU64 (readAttr (attr (sectorsOf p.startOffset).val)) * SYSFS_SECTOR
      = p.startOffset :=
    (parseU64_attr_bytes _).trans (bytes_sectorsOf hform.start_sectors)
  have hsize : parseU64 (readAttr (attr (sectorsOf p.sizeBytes).val)) * SYSFS_SECTOR
      = p.sizeBytes :=
    (parseU64_attr_bytes _).trans (bytes_sectorsOf hform.size_sectors)
  unfold buildPartition Calls.rawPart partitionDir
  dsimp only
  rw [hmp, hfs, hstart, hsize]
  show _ = Partition.mk p.devicePath p.name p.startOffset p.sizeBytes p.partitionType p.mountPoint
    p.filesystem p.label
  rw [hform.path, hform.no_type, hform.no_label]

/-- All children are partitions. -/
theorem partsOf_directoryOf {d : PhysicalDisk} (hd : d ∈ disks) :
    Calls.partsOf d.name (d.partitions.map partitionDir)
      = d.partitions.map (fun p => Calls.rawPart (partitionDir p)) := by
  have hall : (d.partitions.map partitionDir).filter (isPartitionDir d.name)
      = d.partitions.map partitionDir := by
    rw [List.filter_eq_self]
    intro sub hsub
    obtain ⟨p, hp, rfl⟩ := List.mem_map.mp hsub
    have hnamed := ((h.disk d hd).partitions p hp).named
    unfold isPartitionDir partitionDir
    rw [Bool.and_true, List.isPrefixOf_iff_prefix]
    exact hnamed
  unfold Calls.partsOf
  rw [hall, List.map_map]
  rfl

theorem buildDisk_directoryOf {d : PhysicalDisk} (hd : d ∈ disks) :
    buildDisk (mountsOf disks) (directoryOf d).raw = d := by
  have hform := h.disk d hd
  have hsize : parseU64 (readAttr (attr (sectorsOf d.sizeBytes).val)) * SYSFS_SECTOR
      = d.sizeBytes :=
    (parseU64_attr_bytes _).trans (bytes_sectorsOf hform.size_sectors)
  have hmodel : (((readToString (d.model.elim (.error .notFound) textFile)).toOption.map
      (fun m => String.ofList (trimBy isWhiteSpace m.toList))).filter (fun m => m ≠ ""))
      = d.model := by
    cases hm : d.model with
    | none => rfl
    | some m =>
        obtain ⟨hne, htrim⟩ := hform.model m hm
        show ((readToString (textFile m)).toOption.map _).filter _ = _
        rw [readToString_textFile]
        show Option.filter _ (some (String.ofList (trimBy isWhiteSpace m.toList))) = _
        rw [htrim, String.ofList_toList, Option.filter_some, if_pos (decide_eq_true hne)]
  have hparts : sortByKey (fun p : Partition => p.startOffset.toNat)
      ((Calls.partsOf d.name (d.partitions.map partitionDir)).map
        (buildPartition (mountsOf disks))) = d.partitions := by
    have hmap : (d.partitions.map (fun p => Calls.rawPart (partitionDir p))).map
        (buildPartition (mountsOf disks)) = d.partitions := by
      rw [List.map_map]
      refine Eq.trans (List.map_congr_left ?_) (List.map_id d.partitions)
      intro p hp
      exact buildPartition_partitionDir h hd hp
    rw [partsOf_directoryOf h hd, hmap]
    exact hform.by_offset.insertionSort_eq
  unfold buildDisk physicalOf logicalOf Calls.Directory.raw rawDisk Calls.Directory.entry directoryOf
  dsimp only
  rw [hmodel, hparts, hsize, parseU64_attr_u32, parseU64_attr_u32, parseU64_attr_toNat,
    parseU64_attr_toNat, if_neg hform.logical_ne, if_neg hform.physical_ne]
  show _ = PhysicalDisk.mk d.devicePath d.name d.sizeBytes d.logicalSectorSize
    d.physicalSectorSize d.model d.serial d.removable d.readOnly d.synthesized d.partitions
  rw [hform.path, hform.no_serial, hform.synthesized]

theorem enumerate_filesOf : enumerate (filesOf disks) = .ok disks := by
  have hraws : (Calls.rawsOf (disks.map directoryOf)).map (buildDisk (mountsOf disks)) = disks := by
    have hall : (disks.map directoryOf).filter (fun d => !isVirtual d.name)
        = disks.map directoryOf := by
      rw [List.filter_eq_self]
      intro dir hdir
      obtain ⟨d, hd, rfl⟩ := List.mem_map.mp hdir
      show (!isVirtual d.name) = true
      rw [(h.disk d hd).imaging]
      rfl
    unfold Calls.rawsOf
    rw [hall, List.map_map, List.map_map]
    refine Eq.trans (List.map_congr_left ?_) (List.map_id disks)
    intro d hd
    exact buildDisk_directoryOf h hd
  unfold filesOf
  rw [Calls.enumerate_hostOf, readAttr_textFile]
  unfold build
  rw [parseMounts_mountsOf h, hraws]
  exact congrArg _ h.by_name.insertionSort_eq

end Listing

/-- **WHAT `enumerate` CAN RETURN**: the returnable listings and no others. -/
theorem enumerate_image (disks : List PhysicalDisk) :
    (∃ host, enumerate host = .ok disks) ↔ Returnable disks := by
  constructor
  · intro h
    obtain ⟨host, hok⟩ := h
    exact returnable_of_enumerate hok
  · intro h
    exact ⟨filesOf disks, enumerate_filesOf h⟩

end LivediskForensic.Linux
