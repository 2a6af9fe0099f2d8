/-
  LivediskForensic.Linux.MountBytes — THE BYTES OF `/proc/mounts` AGAINST THE
  ENUMERATED PARTITIONS.

  `enumerate` reads the table as ONE string: a read error, or a single byte
  sequence that is not UTF-8 anywhere in the file, leaves the empty table.
  For a decodable file every well-formed ASCII line reaches its partition,
  whatever the other lines hold (`tableNames_namesDevice`); otherwise no
  partition is mounted (`mountPoint_none_of_unreadable`).
-/
import LivediskForensic.Lib.Utf8
import LivediskForensic.Linux.Enumerate
import LivediskForensic.Linux.MountLookup
import Mathlib.Data.Bool.AllAny

namespace LivediskForensic.Linux

open LivediskForensic.Lib
open LivediskForensic.Sysfs

/-! ## §1. Lines of the byte file. -/

/-- The line feed. -/
def LF : UInt8 := 0x0A

/-- `line` is a line of `bytes`: it begins the file or follows a line feed, and ends it or
precedes one. -/
def IsLineOf (line bytes : List UInt8) : Prop :=
  ∃ pre post, bytes = pre ++ line ++ post
    ∧ (pre = [] ∨ ∃ pre', pre = pre' ++ [LF])
    ∧ (post = [] ∨ ∃ post', post = LF :: post')

/-- A field of the table: not empty, and free of white space. -/
def IsField (f : List Char) : Prop := f ≠ [] ∧ ∀ c ∈ f, isWhiteSpace c = false

/-- A well-formed ASCII line `/dev/<name> <mount point> <fstype> ...`. -/
def MountsAscii (name : String) (line : List UInt8) : Prop :=
  (∀ b ∈ line, b.toNat < 128)
    ∧ ∃ mount fs rest : List Char,
        line.map asciiChar = ("/dev/" ++ name).toList ++ ' ' :: mount ++ ' ' :: fs ++ rest
        ∧ IsField ("/dev/" ++ name).toList ∧ IsField mount ∧ IsField fs
        ∧ (rest = [] ∨ ∃ rest', rest = ' ' :: rest') ∧ '\n' ∉ rest

/-- The file has a well-formed ASCII line for the device. -/
def TableNames (bytes : List UInt8) (name : String) : Prop :=
  ∃ line, IsLineOf line bytes ∧ MountsAscii name line

/-! ## §2. A decodable file. -/

/-- The words of a well-formed line. -/
theorem words_of_mountsAscii {dev mount fs rest : List Char} (hdev : IsField dev)
    (hmount : IsField mount) (hfs : IsField fs)
    (hrest : rest = [] ∨ ∃ rest', rest = ' ' :: rest') :
    ∃ more, wordsBy isWhiteSpace (dev ++ ' ' :: mount ++ ' ' :: fs ++ rest)
      = dev :: mount :: fs :: more := by
  have hjoin : dev ++ ' ' :: mount ++ ' ' :: fs ++ rest
      = dev ++ ' ' :: (mount ++ ' ' :: (fs ++ rest)) := by simp
  rw [hjoin, wordsBy_cons_word hdev.1 hdev.2 isWhiteSpace_space,
    wordsBy_cons_word hmount.1 hmount.2 isWhiteSpace_space]
  rcases hrest with h | ⟨rest', h⟩
  · rw [h, List.append_nil, wordsBy_eq_singleton hfs.1 hfs.2]
    exact ⟨[], rfl⟩
  · rw [h, wordsBy_cons_word hfs.1 hfs.2 isWhiteSpace_space]
    exact ⟨_, rfl⟩

theorem newline_not_mem_field {f : List Char} (h : IsField f) : '\n' ∉ f := by
  intro hm
  exact absurd (h.2 '\n' hm) (by decide)

/-- **A well-formed ASCII line of a decodable file is seen by the parser**, whatever the other
lines hold. -/
theorem tableNames_namesDevice {bytes : List UInt8} {s name : String}
    (hs : String.fromUTF8? bytes.toByteArray = some s) (h : TableNames bytes name) :
    NamesDevice s name := by
  obtain ⟨line, ⟨pre, post, hbytes, hpre, hpost⟩, hascii, mount, fs, rest, hline, hdev, hmount,
    hfs, hrest, hnl⟩ := h
  have henc : s.toList.flatMap String.utf8EncodeChar = bytes := fromUTF8?_eq_some.mp hs
  have hLF : LF.toNat < 128 := by decide
  have hne : line ≠ [] := by
    intro he
    rw [he] at hline
    simp at hline
  -- cut the decoded text at the two ends of the line
  obtain ⟨cs₁, cs₂, hcs, h₁, h₂⟩ :=
    split_at_ascii_run line s.toList pre post hne hascii (henc.trans hbytes)
  have hcs₁ : cs₁ = [] ∨ ∃ cs', cs₁ = cs' ++ ['\n'] := by
    rcases hpre with h | ⟨pre', h⟩
    · exact Or.inl (eq_nil_of_encode_eq_nil (h₁.trans h))
    · exact Or.inr (split_at_ascii_last hLF (h₁.trans h))
  have hcs₂ : cs₂ = [] ∨ ∃ cs', cs₂ = '\n' :: cs' := by
    rcases hpost with h | ⟨post', h⟩
    · exact Or.inl (eq_nil_of_encode_eq_nil (h₂.trans h))
    · exact Or.inr (split_at_ascii_head hLF (h₂.trans h))
  have hnoline : '\n' ∉ line.map asciiChar := by
    rw [hline]
    simp only [List.mem_append, List.mem_cons, not_or]
    exact ⟨⟨⟨newline_not_mem_field hdev, by decide, newline_not_mem_field hmount⟩, by decide,
      newline_not_mem_field hfs⟩, hnl⟩
  obtain ⟨l, hl, hwords⟩ :=
    exists_line_of_stretch hcs hcs₁ hcs₂ hnoline (by simpa using hne)
  obtain ⟨more, hmore⟩ := words_of_mountsAscii hdev hmount hfs hrest
  exact ⟨l, hl, mount, fs, more, by rw [hwords, hline, hmore]⟩

/-! ## §3. A file that cannot be read as text. -/

/-- The table is a readable UTF-8 text. -/
def Readable (f : FileRead) : Prop :=
  ∃ bytes s, f = .ok bytes ∧ String.fromUTF8? bytes.toByteArray = some s

theorem readAttr_of_readable {bytes : List UInt8} {s : String}
    (h : String.fromUTF8? bytes.toByteArray = some s) : readAttr (.ok bytes) = s := by
  unfold readAttr
  simp [readToString, h, unwrapOrDefault]

/-- A successful walk beside a decodable table builds the model from its text. -/
theorem enumerate_of_readable {host : Host} {raw : List RawDisk} {bytes : List UInt8} {s : String}
    (hraw : readSysBlock host.block = .ok raw) (hm : host.mounts = .ok bytes)
    (hs : String.fromUTF8? bytes.toByteArray = some s) : enumerate host = .ok (build raw s) :=
  enumerate_eq_ok_iff.mpr ⟨raw, hraw, by rw [hm, readAttr_of_readable hs]⟩

/-- A read error and undecodable content both leave the empty table. -/
theorem readAttr_of_not_readable {f : FileRead} (h : ¬ Readable f) : readAttr f = "" := by
  unfold readAttr
  cases f with
  | error e => rfl
  | ok bytes =>
      cases hs : String.fromUTF8? bytes.toByteArray with
      | none => simp [readToString, hs, unwrapOrDefault]
      | some s => exact absurd ⟨bytes, s, rfl, hs⟩ h

/-- A successful walk beside such a table lists the host as if nothing were mounted. -/
theorem enumerate_of_not_readable {host : Host} {raw : List RawDisk}
    (hraw : readSysBlock host.block = .ok raw) (h : ¬ Readable host.mounts) :
    enumerate host = .ok (build raw "") :=
  enumerate_eq_ok_iff.mpr ⟨raw, hraw, by rw [readAttr_of_not_readable h]⟩

/-- With the empty table nothing comes out mounted. -/
theorem mountPoint_none_of_unreadable {raw : List RawDisk} {d : PhysicalDisk} {p : Partition}
    (hd : d ∈ build raw "") (hp : p ∈ d.partitions) : p.mountPoint = none := by
  by_contra hne
  have hsome := (mountPoint_isSome_iff hd hp).mp (Option.isSome_iff_ne_none.mpr hne)
  obtain ⟨line, hline, _⟩ := hsome
  rw [show lines "".toList = [] from by decide] at hline
  exact absurd hline (List.not_mem_nil)

/-! ## §4. When a failure to read the table stays visible. -/

/-- The partition record `q` of disk `r` is returned with mount point and filesystem set. -/
def ReturnedMounted (disks : List PhysicalDisk) (r : RawDisk) (q : RawPart) : Prop :=
  ∃ d ∈ disks, d.name = r.name
    ∧ ∃ p ∈ d.partitions, p.name = q.name ∧ p.mountPoint.isSome = true
        ∧ p.filesystem.isSome = true

/-- Every partition with a well-formed line in the file is returned mounted, whatever the other
lines hold; and a table that cannot be read at all is an error. -/
def MountFailuresVisible (host : Host) : Prop :=
  (∀ raw disks bytes, readSysBlock host.block = .ok raw → enumerate host = .ok disks →
      host.mounts = .ok bytes →
      ∀ r ∈ raw, ∀ q ∈ r.partitions, TableNames bytes q.name → ReturnedMounted disks r q)
    ∧ (∀ e, host.mounts = .error e → ∃ err, enumerate host = .error err)

/-- A partition whose line is in a decodable table is returned mounted. -/
theorem returnedMounted_of_readable {raw : List RawDisk} {s : String} {r : RawDisk} {q : RawPart}
    (hr : r ∈ raw) (hq : q ∈ r.partitions) (hname : NamesDevice s q.name) :
    ReturnedMounted (build raw s) r q := by
  have hmp : (buildPartition (parseMounts s) q).mountPoint.isSome = true :=
    buildPartition_mountPoint_isSome.mpr hname
  refine ⟨buildDisk (parseMounts s) r, mem_build.mpr ⟨r, hr, rfl⟩, rfl,
    buildPartition (parseMounts s) q, mem_partitions_buildDisk.mpr ⟨q, hq, rfl⟩, rfl, hmp, ?_⟩
  rw [buildPartition_filesystem_isSome]
  exact hmp

/-- **WHEN AN UNREADABLE TABLE DOES NOT PASS FOR AN EMPTY ONE**: the walk itself fails, or the
table is readable UTF-8 text, or it is read but undecodable and has no line for any partition
found. -/
theorem mountFailuresVisible_iff (host : Host) :
    MountFailuresVisible host
      ↔ (∃ e, readSysBlock host.block = .error e)
        ∨ Readable host.mounts
        ∨ ∃ bytes, host.mounts = .ok bytes
            ∧ ∀ raw, readSysBlock host.block = .ok raw →
                ∀ r ∈ raw, ∀ q ∈ r.partitions, ¬ TableNames bytes q.name := by
  constructor
  · intro h
    obtain ⟨hlines, herr⟩ := h
    by_cases hread : Readable host.mounts
    · exact Or.inr (Or.inl hread)
    cases hm : host.mounts with
    | error e =>
        -- the whole table is unreadable, so the error must come from the walk
        obtain ⟨err, he⟩ := herr e hm
        exact Or.inl ⟨err, enumerate_eq_error_iff.mp he⟩
    | ok bytes =>
        refine Or.inr (Or.inr ⟨bytes, rfl, ?_⟩)
        intro raw hraw r hr q hq hname
        have henum : enumerate host = .ok (build raw "") := enumerate_of_not_readable hraw hread
        obtain ⟨d, hd, _, p, hp, _, hmp, _⟩ :=
          hlines raw _ bytes hraw henum hm r hr q hq hname
        rw [mountPoint_none_of_unreadable hd hp] at hmp
        exact absurd hmp (by simp)
  · intro h
    constructor
    · intro raw disks bytes hraw henum hm r hr q hq hname
      rcases h with ⟨e, he⟩ | ⟨bytes', s, hok, hs⟩ | ⟨bytes', hok, hnone⟩
      · rw [hraw] at he
        exact absurd he (by simp)
      · rw [hm] at hok
        injection hok with hok
        subst hok
        rw [enumerate_of_readable hraw hm hs] at henum
        injection henum with hdisks
        rw [← hdisks]
        exact returnedMounted_of_readable hr hq (tableNames_namesDevice hs hname)
      · rw [hm] at hok
        injection hok with hok
        subst hok
        exact absurd hname (hnone raw hraw r hr q hq)
    · intro e hm
      rcases h with ⟨err, he⟩ | ⟨bytes, s, hok, _⟩ | ⟨bytes, hok, _⟩
      · exact ⟨err, enumerate_eq_error_iff.mpr he⟩
      · rw [hm] at hok
        exact absurd hok (by simp)
      · rw [hm] at hok
        exact absurd hok (by simp)

/-- The text of a file that could be read. -/
def textFile (s : String) : FileRead := .ok (utf8Bytes s)

/-- `sda` with the one partition `sda1`. -/
def oneDisk : BlockEntry :=
  { name := "sda"
    children := .ok [.ok { name := "sda1", hasPartitionFile := true,
                           size := textFile "1024\n", start := textFile "2048\n" }]
    size := textFile "8192\n", removable := textFile "0\n", ro := textFile "0\n"
    logical := textFile "512\n", physical := textFile "512\n"
    model := .error .notFound }

/-- A table with `sda1` mounted, and one mount point of another device in Latin-1. -/
def latin1Mounts : List UInt8 :=
  utf8Bytes "/dev/sda1 / ext4 rw 0 0\n/dev/sdz1 /mnt/caf" ++ [0xE9]
    ++ utf8Bytes " vfat rw 0 0\n"

/-- What the walk finds on either host below. -/
def oneRaw : RawDisk :=
  { name := "sda", size := "8192\n", removable := "0\n", ro := "0\n", logical := "512\n",
    physical := "512\n", model := none,
    partitions := [{ name := "sda1", size := "1024\n", start := "2048\n" }] }

/-- **A failure passes for an empty table**: with one foreign Latin-1 byte in the file the
mounted `sda1` comes back unmounted, and with an unreadable file `enumerate` still succeeds. -/
theorem mount_failures_hidden :
    ¬ MountFailuresVisible { block := .ok [.ok oneDisk], mounts := .ok latin1Mounts }
      ∧ ¬ MountFailuresVisible
          { block := .ok [.ok oneDisk], mounts := .error .permissionDenied } := by
  have hwalk : readSysBlock (.ok [.ok oneDisk]) = .ok [oneRaw] := by decide
  constructor
  · intro h
    have hline : TableNames latin1Mounts "sda1" := by
      refine ⟨utf8Bytes "/dev/sda1 / ext4 rw 0 0", ?_, List.all_iff_forall_prop.mp (by decide),
        ['/'], "ext4".toList, " rw 0 0".toList, by decide, ?_, ?_, ?_, ?_, by decide⟩
      · exact ⟨[], LF :: (utf8Bytes "/dev/sdz1 /mnt/caf" ++ [0xE9] ++ utf8Bytes " vfat rw 0 0\n"),
          by decide, Or.inl rfl, Or.inr ⟨_, rfl⟩⟩
      · exact ⟨by decide, List.all_iff_forall_prop.mp (by decide)⟩
      · exact ⟨by decide, List.all_iff_forall_prop.mp (by decide)⟩
      · exact ⟨by decide, List.all_iff_forall_prop.mp (by decide)⟩
      · exact Or.inr ⟨"rw 0 0".toList, by decide⟩
    have hmounts : readAttr (.ok latin1Mounts) = "" := by decide
    have henum : enumerate { block := .ok [.ok oneDisk], mounts := .ok latin1Mounts }
        = .ok (build [oneRaw] "") :=
      enumerate_eq_ok_iff.mpr ⟨[oneRaw], hwalk, by rw [hmounts]⟩
    obtain ⟨d, hd, _, p, hp, _, hmp, _⟩ := h.1 [oneRaw] _ latin1Mounts hwalk henum rfl oneRaw
      List.mem_cons_self _ List.mem_cons_self hline
    rw [mountPoint_none_of_unreadable hd hp] at hmp
    exact absurd hmp (by simp)
  · intro h
    obtain ⟨err, he⟩ := h.2 .permissionDenied rfl
    rw [enumerate_eq_error_iff, hwalk] at he
    exact absurd he (by simp)

end LivediskForensic.Linux
