/-
  LivediskForensic.Windows.Truncation — CUT BUFFERS OF `parse_drive_layout`.

  A layout buffer cut anywhere gives the first partitions of the whole buffer,
  record for record.  The reason is `partitions_parseDriveLayout`: the loop
  looks at the announced entries that lie inside, so a longer buffer with the
  same header only adds entries behind them.

      partitions_prefix_append — appending bytes keeps all records in front
      truncation_only_removes  — the law for every cut and every suffix
-/
import LivediskForensic.Windows.DriveLayoutEncoding

namespace LivediskForensic.DriveLayout

open LivediskForensic.Lib

/-! ## §1. What a longer buffer leaves as it is. -/

theorem entryAt_append {b s : List UInt8} {i : Nat} (h : i < wholeEntries b.length) :
    entryAt (b ++ s) i = entryAt b i :=
  slice_append_left (entry_inside_iff.mpr h)

/-- A header field is read the same. -/
theorem leU32_append {api : ReadApi} (hapi : api.Lawful) {b : List UInt8} (s : List UInt8) {o : Nat}
    (h : o + 4 ≤ b.length) : api.leU32 (b ++ s) o = api.leU32 b o := by
  have hlong : o + 4 ≤ (b ++ s).length := by
    rw [List.length_append]
    omega
  rw [hapi.leU32_eq _ _ hlong, hapi.leU32_eq _ _ h, slice_append_left h]

theorem wholeEntries_mono {n m : Nat} (h : n ≤ m) : wholeEntries n ≤ wholeEntries m := by
  unfold wholeEntries
  exact Nat.div_le_div_right (Nat.sub_le_sub_right h _)

theorem range_initial {n m : Nat} (h : n ≤ m) : List.range n <+: List.range m := by
  have htake := List.take_prefix n (List.range m)
  rw [List.take_range, Nat.min_eq_left h] at htake
  exact htake

/-! ## §2. The law. -/

/-- **Appending bytes keeps all records in front.** -/
theorem partitions_prefix_append {api : ReadApi} (hapi : api.Lawful) (b s : List UInt8) :
    (parseDriveLayout api b).partitions <+: (parseDriveLayout api (b ++ s)).partitions := by
  by_cases h : 8 ≤ b.length
  · have hlong : b.length ≤ (b ++ s).length := by
      rw [List.length_append]
      omega
    rw [partitions_parseDriveLayout api h, partitions_parseDriveLayout api (h.trans hlong),
      leU32_append hapi s (by omega), leU32_append hapi s (by omega)]
    -- over the entries of the short buffer the two loops agree
    have hsame : (List.range (min (api.leU32 b 4).toNat (wholeEntries b.length))).filterMap
          (fun k => parseEntry api (api.leU32 b 0) (entryAt b k))
        = (List.range (min (api.leU32 b 4).toNat (wholeEntries b.length))).filterMap
          (fun k => parseEntry api (api.leU32 b 0) (entryAt (b ++ s) k)) := by
      apply List.filterMap_congr
      intro k hk
      rw [List.mem_range, Nat.lt_min] at hk
      rw [entryAt_append hk.2]
    rw [hsame]
    refine List.IsPrefix.filterMap _ (range_initial ?_)
    have hmono := wholeEntries_mono hlong
    omega
  · rw [partitions_of_short api (by omega)]
    exact List.nil_prefix

/-- A record comes from an announced entry that is present to its last byte. -/
theorem exists_entry_of_mem {api : ReadApi} {b : List UInt8} {p : ParsedPartition}
    (hp : p ∈ (parseDriveLayout api b).partitions) :
    ∃ i < (api.leU32 b 4).toNat,
      PARTITION_ENTRY_OFFSET + i * ENTRY_SIZE + ENTRY_SIZE ≤ b.length
        ∧ parseEntry api (api.leU32 b 0) (entryAt b i) = some p := by
  by_cases h : 8 ≤ b.length
  · rw [partitions_parseDriveLayout api h, List.mem_filterMap] at hp
    obtain ⟨i, hi, hentry⟩ := hp
    rw [List.mem_range, Nat.lt_min] at hi
    exact ⟨i, hi.1, entry_inside_iff.mpr hi.2, hentry⟩
  · rw [partitions_of_short api (by omega)] at hp
    exact absurd hp (List.not_mem_nil)

/-- **TRUNCATION ONLY REMOVES PARTITIONS FROM THE END**, at every cut; a suffix keeps all records
in front; and no partially present entry contributes a record. -/
theorem truncation_only_removes (api : ReadApi) (hapi : api.Lawful) (b : List UInt8) :
    (∀ k ≤ b.length,
        (parseDriveLayout api (b.take k)).partitions <+: (parseDriveLayout api b).partitions)
      ∧ (∀ s,
        (parseDriveLayout api b).partitions <+: (parseDriveLayout api (b ++ s)).partitions)
      ∧ ∀ p ∈ (parseDriveLayout api b).partitions, ∃ i < (api.leU32 b 4).toNat,
        PARTITION_ENTRY_OFFSET + i * ENTRY_SIZE + ENTRY_SIZE ≤ b.length
          ∧ parseEntry api (api.leU32 b 0) (entryAt b i) = some p := by
  refine ⟨?_, partitions_prefix_append hapi b, fun _ => exists_entry_of_mem⟩
  intro k _
  -- the whole buffer is the cut one with a suffix
  have hcut := partitions_prefix_append hapi (b.take k) (b.drop k)
  rw [List.take_append_drop] at hcut
  exact hcut

theorem truncation_only_removes_sample :
    (∀ k ≤ (encode sampleLayout).length,
        (parseDriveLayout referenceApi ((encode sampleLayout).take k)).partitions
          <+: (parseDriveLayout referenceApi (encode sampleLayout)).partitions)
      ∧ (∀ s, (parseDriveLayout referenceApi (encode sampleLayout)).partitions
          <+: (parseDriveLayout referenceApi (encode sampleLayout ++ s)).partitions)
      ∧ ∀ p ∈ (parseDriveLayout referenceApi (encode sampleLayout)).partitions,
        ∃ i < (referenceApi.leU32 (encode sampleLayout) 4).toNat,
          PARTITION_ENTRY_OFFSET + i * ENTRY_SIZE + ENTRY_SIZE ≤ (encode sampleLayout).length
            ∧ parseEntry referenceApi (referenceApi.leU32 (encode sampleLayout) 0)
              (entryAt (encode sampleLayout) i) = some p :=
  truncation_only_removes referenceApi referenceApi_lawful (encode sampleLayout)

end LivediskForensic.DriveLayout
