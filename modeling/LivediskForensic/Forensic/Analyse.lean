/-
  LivediskForensic.Forensic.Analyse — `forensic/src/lib.rs`: the graded
  observations on a disk that is about to be acquired.

  The findings themselves are values of the `forensicnomicon` crate, which is
  not part of this repository.  The analyzer uses it only through a builder
  (`observation`, `source`, `note`, `evidence`, `build`), so the builder is a
  PARAMETER here (`ReportApi`), and what its documentation promises is the
  hypothesis `ReportApi.Lawful`: a finding carries the code it was opened
  with, and its evidence in the order of the calls.

  `codes_analyse` says once which findings `analyse` reports; everything else
  about codes is read off it.
-/
import LivediskForensic.Model.Disk

namespace LivediskForensic.Forensic

/-! ## §1. The report builder. -/

/-- The grades the analyzer uses. -/
inductive Severity where
  | high
  | info
  deriving Repr, DecidableEq

/-- The categories the analyzer uses. -/
inductive Category where
  | integrity
  | provenance
  | structural
  deriving Repr, DecidableEq

/-- Where a finding comes from. -/
structure Source where
  analyzer : String
  scope : String
  version : Option String
  deriving Repr, DecidableEq

/-- The builder interface of `forensicnomicon::report`, and the fields read back from a finding. -/
structure ReportApi where
  Builder : Type
  Finding : Type
  observation : Severity → Category → String → Builder
  source : Builder → Source → Builder
  note : Builder → String → Builder
  evidence : Builder → String → String → Builder
  build : Builder → Finding
  code : Finding → String
  evidenceOf : Finding → List (String × String)

/-- What the builder promises about the fields of the finding it builds. -/
structure ReportApi.Lawful (api : ReportApi) : Prop where
  code_observation : ∀ s c k, api.code (api.build (api.observation s c k)) = k
  code_source : ∀ b s, api.code (api.build (api.source b s)) = api.code (api.build b)
  code_note : ∀ b t, api.code (api.build (api.note b t)) = api.code (api.build b)
  code_evidence : ∀ b k v, api.code (api.build (api.evidence b k v)) = api.code (api.build b)
  evidence_observation : ∀ s c k, api.evidenceOf (api.build (api.observation s c k)) = []
  evidence_source : ∀ b s,
    api.evidenceOf (api.build (api.source b s)) = api.evidenceOf (api.build b)
  evidence_note : ∀ b t, api.evidenceOf (api.build (api.note b t)) = api.evidenceOf (api.build b)
  evidence_evidence : ∀ b k v,
    api.evidenceOf (api.build (api.evidence b k v)) = api.evidenceOf (api.build b) ++ [(k, v)]

/-- A finding kept as a plain record of the calls that built it. -/
structure PlainFinding where
  severity : Severity
  category : Category
  code : String
  source : Option Source
  notes : List String
  evidence : List (String × String)
  deriving Repr, DecidableEq

/-- The builder over plain records. -/
def plainReport : ReportApi where
  Builder := PlainFinding
  Finding := PlainFinding
  observation s c k := ⟨s, c, k, none, [], []⟩
  source b s := { b with source := some s }
  note b t := { b with notes := b.notes ++ [t] }
  evidence b k v := { b with evidence := b.evidence ++ [(k, v)] }
  build b := b
  code f := f.code
  evidenceOf f := f.evidence

theorem plainReport_lawful : plainReport.Lawful where
  code_observation _ _ _ := rfl
  code_source _ _ := rfl
  code_note _ _ := rfl
  code_evidence _ _ _ := rfl
  evidence_observation _ _ _ := rfl
  evidence_source _ _ := rfl
  evidence_note _ _ := rfl
  evidence_evidence _ _ _ := rfl

/-! ## §2. The analyzer. -/

section Analyzer

variable (api : ReportApi)

/-- Analyzer name recorded on every finding's source. -/
def ANALYZER : String := "livedisk-forensic"

def source (disk : PhysicalDisk) : Source :=
  { analyzer := ANALYZER, scope := disk.name, version := some "0.2.2" }

/-- LIVE-MOUNTED: one finding for all mounted volumes, with each of them as evidence. -/
def liveMounted (disk : PhysicalDisk) : List api.Finding :=
  let mounted := disk.partitions.countP (fun p => p.mountPoint.isSome)
  if mounted > 0 then
    let builder := api.note
      (api.source (api.observation .high .integrity "LIVE-MOUNTED") (source disk))
      "device has mounted volume(s) during acquisition; live writes may alter the image — consistent with imaging a running system"
    let builder := disk.partitions.foldl (fun b p =>
      match p.mountPoint with
      | some mount => api.evidence b p.name mount
      | none => b) builder
    [api.build builder]
  else []

/-- LIVE-REMOVABLE. -/
def liveRemovable (disk : PhysicalDisk) : List api.Finding :=
  if disk.removable then
    [api.build (api.note
      (api.source (api.observation .info .provenance "LIVE-REMOVABLE") (source disk))
      "removable media")]
  else []

/-- LIVE-SECTOR-4KN: the two sector sizes differ. -/
def liveSector4kn (disk : PhysicalDisk) : List api.Finding :=
  if disk.logicalSectorSize > 0 ∧ disk.physicalSectorSize ≠ disk.logicalSectorSize then
    let builder := api.note
      (api.source (api.observation .info .structural "LIVE-SECTOR-4KN") (source disk))
      "logical and physical sector sizes differ (512e/4Kn); align imaging to the physical sector size"
    let builder := api.evidence builder "logical_sector_size"
      (toString disk.logicalSectorSize.toNat)
    let builder := api.evidence builder "physical_sector_size"
      (toString disk.physicalSectorSize.toNat)
    [api.build builder]
  else []

/-- LIVE-SYNTHESIZED: an overlay, not a store. -/
def liveSynthesized (disk : PhysicalDisk) : List api.Finding :=
  if disk.synthesized then
    [api.build (api.note
      (api.source (api.observation .info .provenance "LIVE-SYNTHESIZED") (source disk))
      "synthesized device — a container overlay (e.g. APFS container, device-mapper/LVM) over one or more physical stores, not itself a backing physical disk")]
  else []

/-- Analyse a live disk for acquisition-integrity conditions. -/
def analyse (disk : PhysicalDisk) : List api.Finding :=
  liveMounted api disk ++ liveRemovable api disk ++ liveSector4kn api disk
    ++ liveSynthesized api disk

/-- LIVE-WRITABLE: no write-blocker is engaged. -/
def liveWritable (disk : PhysicalDisk) : List api.Finding :=
  if disk.readOnly then []
  else
    [api.build (api.note
      (api.source (api.observation .high .integrity "LIVE-WRITABLE") (source disk))
      "acquisition target is writable — no hardware write-blocker is engaged; imaging can alter the evidence")]

/-- Analyse a disk that is to be acquired. -/
def analyseTarget (disk : PhysicalDisk) : List api.Finding :=
  analyse api disk ++ liveWritable api disk

end Analyzer

/-! ## §3. The codes a disk is reported under. -/

variable {api : ReportApi}

/-- Collecting evidence does not change the code. -/
theorem code_evidence_fold (law : api.Lawful) (ps : List Partition) (b : api.Builder) :
    api.code (api.build (ps.foldl (fun b p =>
        match p.mountPoint with
        | some mount => api.evidence b p.name mount
        | none => b) b))
      = api.code (api.build b) := by
  induction ps generalizing b with
  | nil => rfl
  | cons p ps ih =>
      rw [List.foldl_cons, ih]
      cases p.mountPoint with
      | none => rfl
      | some mount => exact law.code_evidence b p.name mount

/-- **The evidence is collected in the order of the partitions**: one entry for each that has a
mount point. -/
theorem evidence_fold (law : api.Lawful) (ps : List Partition) : ∀ b : api.Builder,
    api.evidenceOf (api.build (ps.foldl (fun b p =>
        match p.mountPoint with
        | some mount => api.evidence b p.name mount
        | none => b) b))
      = api.evidenceOf (api.build b)
        ++ ps.filterMap (fun p => p.mountPoint.map (fun mount => (p.name, mount))) := by
  induction ps with
  | nil =>
      intro b
      exact (List.append_nil _).symm
  | cons p ps ih =>
      intro b
      rw [List.foldl_cons, ih, List.filterMap_cons]
      cases p.mountPoint with
      | none => rfl
      | some mount =>
          show api.evidenceOf (api.build (api.evidence b p.name mount)) ++ _ = _
          rw [law.evidence_evidence, List.append_assoc]
          rfl

theorem codes_liveMounted (law : api.Lawful) (disk : PhysicalDisk) :
    (liveMounted api disk).map api.code
      = if ∃ p ∈ disk.partitions, p.mountPoint.isSome = true then ["LIVE-MOUNTED"] else [] := by
  have hcount : disk.partitions.countP (fun p => p.mountPoint.isSome) > 0
      ↔ ∃ p ∈ disk.partitions, p.mountPoint.isSome = true := List.countP_pos_iff
  unfold liveMounted
  by_cases h : ∃ p ∈ disk.partitions, p.mountPoint.isSome = true
  · rw [if_pos h]
    simp only [if_pos (hcount.mpr h), List.map_cons, List.map_nil]
    rw [code_evidence_fold law, law.code_note, law.code_source, law.code_observation]
  · rw [if_neg h]
    simp only [if_neg (fun hc => h (hcount.mp hc)), List.map_nil]

theorem codes_liveRemovable (law : api.Lawful) (disk : PhysicalDisk) :
    (liveRemovable api disk).map api.code
      = if disk.removable then ["LIVE-REMOVABLE"] else [] := by
  unfold liveRemovable
  split <;> simp [law.code_note, law.code_source, law.code_observation]

theorem codes_liveSector4kn (law : api.Lawful) (disk : PhysicalDisk) :
    (liveSector4kn api disk).map api.code
      = if disk.logicalSectorSize > 0 ∧ disk.physicalSectorSize ≠ disk.logicalSectorSize
        then ["LIVE-SECTOR-4KN"] else [] := by
  unfold liveSector4kn
  split <;> simp [law.code_evidence, law.code_note, law.code_source, law.code_observation]

theorem codes_liveSynthesized (law : api.Lawful) (disk : PhysicalDisk) :
    (liveSynthesized api disk).map api.code
      = if disk.synthesized then ["LIVE-SYNTHESIZED"] else [] := by
  unfold liveSynthesized
  split <;> simp [law.code_note, law.code_source, law.code_observation]

/-- **The codes of the host overview**, condition by condition. -/
theorem codes_analyse (law : api.Lawful) (disk : PhysicalDisk) :
    (analyse api disk).map api.code
      = (if ∃ p ∈ disk.partitions, p.mountPoint.isSome = true then ["LIVE-MOUNTED"] else [])
        ++ (if disk.removable then ["LIVE-REMOVABLE"] else [])
        ++ (if disk.logicalSectorSize > 0 ∧ disk.physicalSectorSize ≠ disk.logicalSectorSize
            then ["LIVE-SECTOR-4KN"] else [])
        ++ (if disk.synthesized then ["LIVE-SYNTHESIZED"] else []) := by
  unfold analyse
  rw [List.map_append, List.map_append, List.map_append, codes_liveMounted law,
    codes_liveRemovable law, codes_liveSector4kn law, codes_liveSynthesized law]

/-- The acquisition view adds at most the writability warning. -/
theorem codes_analyseTarget (law : api.Lawful) (disk : PhysicalDisk) :
    (analyseTarget api disk).map api.code
      = (analyse api disk).map api.code
        ++ (if disk.readOnly then [] else ["LIVE-WRITABLE"]) := by
  unfold analyseTarget
  rw [List.map_append]
  congr 1
  unfold liveWritable
  split <;> simp [law.code_note, law.code_source, law.code_observation]

/-- LIVE-MOUNTED is reported exactly when some partition has a mount point. -/
theorem liveMounted_mem_analyse (law : api.Lawful) (disk : PhysicalDisk) :
    "LIVE-MOUNTED" ∈ (analyse api disk).map api.code
      ↔ ∃ p ∈ disk.partitions, p.mountPoint.isSome = true := by
  rw [codes_analyse law]
  simp

theorem liveMounted_mem_analyseTarget (law : api.Lawful) (disk : PhysicalDisk) :
    "LIVE-MOUNTED" ∈ (analyseTarget api disk).map api.code
      ↔ ∃ p ∈ disk.partitions, p.mountPoint.isSome = true := by
  rw [codes_analyseTarget law, List.mem_append, liveMounted_mem_analyse law]
  simp

end LivediskForensic.Forensic
