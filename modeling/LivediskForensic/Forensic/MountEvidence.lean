/-
  LivediskForensic.Forensic.MountEvidence — WHAT LIVE-MOUNTED PRESENTS AS
  EVIDENCE, end to end: `/proc/mounts` → `build` → `analyse`.

  The analyzer counts the mounted partitions and then walks over them again,
  one evidence entry each (`evidence_fold`).  A partition's mount point is what
  the first line of the table for its device has in its second field, decoded
  (`mountPoint_of_mem_build`).  A line is for a device when its first field is
  the device's path and nothing more, so look-alike names never meet.

      mountEvidence_build — one finding at most, with exactly these entries
-/
import LivediskForensic.Forensic.MountedTarget
import LivediskForensic.Linux.MountNewline

namespace LivediskForensic.Forensic

open LivediskForensic.Lib
open LivediskForensic.Sysfs

/-! ## §1. The findings of one code. -/

section Codes

variable {api : ReportApi}

/-- The findings with the given code. -/
def withCode (api : ReportApi) (code : String) (findings : List api.Finding) :
    List api.Finding := findings.filter (fun f => api.code f = code)

theorem withCode_append (code : String) (fs gs : List api.Finding) :
    withCode api code (fs ++ gs) = withCode api code fs ++ withCode api code gs :=
  List.filter_append _ _

theorem withCode_eq_nil {code : String} {fs : List api.Finding} (h : code ∉ fs.map api.code) :
    withCode api code fs = [] := by
  unfold withCode
  rw [List.filter_eq_nil_iff]
  intro f hf hcode
  rw [decide_eq_true_eq] at hcode
  exact h (hcode ▸ List.mem_map_of_mem hf)

theorem withCode_ne_nil_iff {code : String} {fs : List api.Finding} :
    withCode api code fs ≠ [] ↔ code ∈ fs.map api.code := by
  constructor
  · intro hne
    by_contra hnot
    exact hne (withCode_eq_nil hnot)
  · intro hmem hnil
    obtain ⟨f, hf, hcode⟩ := List.mem_map.mp hmem
    have hin : f ∈ withCode api code fs := List.mem_filter.mpr ⟨hf, decide_eq_true hcode⟩
    rw [hnil] at hin
    exact absurd hin List.not_mem_nil

theorem withCode_eq_self {code : String} {fs : List api.Finding}
    (h : ∀ k ∈ fs.map api.code, k = code) : withCode api code fs = fs := by
  unfold withCode
  rw [List.filter_eq_self]
  intro f hf
  exact decide_eq_true (h _ (List.mem_map_of_mem hf))

/-- **The LIVE-MOUNTED findings are those of the first check.** -/
theorem withCode_analyse (law : api.Lawful) (d : PhysicalDisk) :
    withCode api "LIVE-MOUNTED" (analyse api d) = liveMounted api d := by
  have hmounted : withCode api "LIVE-MOUNTED" (liveMounted api d) = liveMounted api d := by
    apply withCode_eq_self
    intro k hk
    rw [codes_liveMounted law] at hk
    split at hk
    · exact List.mem_singleton.mp hk
    · exact absurd hk List.not_mem_nil
  have hremovable : withCode api "LIVE-MOUNTED" (liveRemovable api d) = [] := by
    apply withCode_eq_nil
    rw [codes_liveRemovable law]
    split <;> decide
  have hsector : withCode api "LIVE-MOUNTED" (liveSector4kn api d) = [] := by
    apply withCode_eq_nil
    rw [codes_liveSector4kn law]
    split <;> decide
  have hsynthesized : withCode api "LIVE-MOUNTED" (liveSynthesized api d) = [] := by
    apply withCode_eq_nil
    rw [codes_liveSynthesized law]
    split <;> decide
  unfold analyse
  rw [withCode_append, withCode_append, withCode_append, hmounted, hremovable, hsector,
    hsynthesized, List.append_nil, List.append_nil, List.append_nil]

/-- The check reports once, with the mount points of the partitions in their order. -/
theorem liveMounted_evidence (law : api.Lawful) (d : PhysicalDisk) :
    (liveMounted api d).length ≤ 1
      ∧ ∀ f ∈ liveMounted api d, api.evidenceOf f
          = d.partitions.filterMap (fun p => p.mountPoint.map (fun mount => (p.name, mount))) := by
  unfold liveMounted
  by_cases h : d.partitions.countP (fun p => p.mountPoint.isSome) > 0
  · simp only [if_pos h]
    refine ⟨Nat.le_refl 1, ?_⟩
    intro f hf
    rw [List.mem_singleton.mp hf, evidence_fold law, law.evidence_note, law.evidence_source,
      law.evidence_observation, List.nil_append]
  · simp only [if_neg h]
    exact ⟨Nat.zero_le 1, fun f hf => absurd hf List.not_mem_nil⟩

end Codes

/-! ## §2. From the text to the evidence. -/

/-- The partitions whose device some line names, each with the decoded mount point of the first
such line. -/
def mountedPairs (text : String) (ps : List Partition) : List (String × String) :=
  ps.filterMap (fun p => (mountField text p.name).map (fun field =>
    (p.name, decodeOctal (String.ofList field))))

/-- A partition of a built disk has the decoded field of the first line for its device. -/
theorem mountPoint_of_mem_build {disks : List RawDisk} {text : String} {d : PhysicalDisk}
    (hd : d ∈ build disks text) {p : Partition} (hp : p ∈ d.partitions) :
    p.mountPoint
      = (mountField text p.name).map (fun field => decodeOctal (String.ofList field)) := by
  obtain ⟨r, _, hr⟩ := mem_build.mp hd
  subst hr
  obtain ⟨q, _, hq⟩ := mem_partitions_buildDisk.mp hp
  subst hq
  exact lookup_parseMounts text q.name

theorem evidence_eq_mountedPairs {disks : List RawDisk} {text : String} {d : PhysicalDisk}
    (hd : d ∈ build disks text) :
    d.partitions.filterMap (fun p => p.mountPoint.map (fun mount => (p.name, mount)))
      = mountedPairs text d.partitions := by
  unfold mountedPairs
  apply List.filterMap_congr
  intro p hp
  rw [mountPoint_of_mem_build hd hp, Option.map_map]
  rfl

/-- The partitions of a built disk stand in their order on the disk. -/
theorem partitions_ordered {disks : List RawDisk} {text : String} {d : PhysicalDisk}
    (hd : d ∈ build disks text) :
    d.partitions.Pairwise (fun p q => p.startOffset ≤ q.startOffset) := by
  obtain ⟨r, _, hr⟩ := mem_build.mp hd
  subst hr
  refine (sortByKey_pairwise _ _).imp ?_
  intro p q h
  exact UInt64.le_iff_toNat_le.mpr h

/-- What an examiner reads about the mounted volumes of a disk. -/
structure MountEvidence (api : ReportApi) (text : String) (d : PhysicalDisk) : Prop where
  /-- One finding at most. -/
  once : (withCode api "LIVE-MOUNTED" (analyse api d)).length ≤ 1
  /-- There is one exactly when a line names a partition, by its whole name. -/
  present_iff : withCode api "LIVE-MOUNTED" (analyse api d) ≠ []
    ↔ ∃ p ∈ d.partitions, NamesDevice text p.name
  /-- A partition has its pair in the evidence exactly when a line names its device. -/
  paired_iff : ∀ p ∈ d.partitions,
    (mountField text p.name).isSome = true ↔ NamesDevice text p.name
  /-- On-disk order. -/
  ordered : d.partitions.Pairwise (fun p q => p.startOffset ≤ q.startOffset)
  /-- The evidence is the named partitions with their mount points, and nothing else. -/
  evidence_eq : ∀ f ∈ withCode api "LIVE-MOUNTED" (analyse api d),
    api.evidenceOf f = mountedPairs text d.partitions

/-- The table has a field for a device exactly when a line names it. -/
theorem mountField_isSome_iff {text name : String} :
    (mountField text name).isSome = true ↔ NamesDevice text name := by
  rw [← exists_mem_parseMounts, ← lookup_isSome, ← Option.isSome_map (f := Prod.fst),
    lookup_parseMounts, Option.isSome_map]

/-- **THE LIVE-MOUNTED EVIDENCE IS EXACTLY THE MOUNTED PARTITIONS.** -/
theorem mountEvidence_build (api : ReportApi) (law : api.Lawful) (disks : List RawDisk)
    (text : String) (d : PhysicalDisk) (hd : d ∈ build disks text) :
    MountEvidence api text d := by
  obtain ⟨hlen, hevidence⟩ := liveMounted_evidence law d
  have hcodes := liveMounted_mem_analyse law d
  refine
    { once := ?_
      present_iff := ?_
      paired_iff := fun _ _ => mountField_isSome_iff
      ordered := partitions_ordered hd
      evidence_eq := ?_ }
  · rw [withCode_analyse law]
    exact hlen
  · have hnamed : (∃ p ∈ d.partitions, p.mountPoint.isSome = true)
        ↔ ∃ p ∈ d.partitions, NamesDevice text p.name := by
      constructor
      · rintro ⟨p, hp, hm⟩
        exact ⟨p, hp, (mountPoint_isSome_iff hd hp).mp hm⟩
      · rintro ⟨p, hp, hn⟩
        exact ⟨p, hp, (mountPoint_isSome_iff hd hp).mpr hn⟩
    rw [withCode_ne_nil_iff, hcodes, hnamed]
  · intro f hf
    rw [withCode_analyse law] at hf
    rw [hevidence f hf, evidence_eq_mountedPairs hd]

/-- A disk with two partitions of look-alike names, the second one in front. -/
def lookalikeDisk : RawDisk :=
  { name := "sda", size := "4096", removable := "0", ro := "1", logical := "512",
    physical := "512", model := none,
    partitions := [ { name := "sda1", start := "2048", size := "1024" },
                    { name := "sda10", start := "34", size := "1024" } ] }

/-- The longer name is mounted twice, under an escaped mount point first. -/
def lookalikeMounts : String :=
  "/dev/sda10 /mnt/my\\040disk ext4 rw 0 0\n/dev/sda10 /bind ext4 rw 0 0\n"

theorem mountEvidence_build_lookalike :
    ∃ d ∈ build [lookalikeDisk] lookalikeMounts, plainReport.Lawful
      ∧ MountEvidence plainReport lookalikeMounts d :=
  ⟨buildDisk (parseMounts lookalikeMounts) lookalikeDisk,
    mem_build.mpr ⟨lookalikeDisk, List.mem_singleton.mpr rfl, rfl⟩, plainReport_lawful,
    mountEvidence_build plainReport plainReport_lawful [lookalikeDisk] lookalikeMounts _
      (mem_build.mpr ⟨lookalikeDisk, List.mem_singleton.mpr rfl, rfl⟩)⟩

example : (build [lookalikeDisk] lookalikeMounts).map
    (fun d => mountedPairs lookalikeMounts d.partitions) = [[("sda10", "/mnt/my disk")]] := by
  decide

end LivediskForensic.Forensic
