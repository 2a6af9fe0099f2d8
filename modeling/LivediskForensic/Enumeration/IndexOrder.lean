/-
  LivediskForensic.Enumeration.IndexOrder — NUMBERED DISKS IN ORDER OF THEIR
  NUMBERS.

  Two backends name their disks by a number: macOS `disk<N>`, Windows
  `PhysicalDrive<N>`.  macOS sorts by the number parsed back from the name, so
  its listing is in order whatever the media.  Windows sorts the names as text,
  and text puts a two-digit number in front of a one-digit number larger than
  its first digit.

      indexOrdered_iff — the exact condition, over both backends
-/
import LivediskForensic.Lib.Decimal
import LivediskForensic.Macos.Assemble
import LivediskForensic.Windows.Enumerate

namespace LivediskForensic.Enumeration

open LivediskForensic.Lib
open LivediskForensic.Windows
open LivediskForensic.DriveLayout

/-! ## §1. Listings in order. -/

/-- A disk with a smaller index stands in front of every disk with a larger one. -/
def IndexOrdered (nameOf : Nat → String) (disks : List PhysicalDisk) : Prop :=
  ∀ i j, i < j → ∀ (a b : Nat) (d e : PhysicalDisk), disks[a]? = some d → disks[b]? = some e →
    d.name = nameOf i → e.name = nameOf j → a < b

/-- A listing sorted by a key that rises with the index is in order. -/
theorem indexOrdered_of_key {κ : Type*} [LinearOrder κ] (key : PhysicalDisk → κ)
    {nameOf : Nat → String} {disks : List PhysicalDisk}
    (hsorted : disks.Pairwise (fun d e => key d ≤ key e))
    (hkey : ∀ i j, i < j → ∀ d ∈ disks, ∀ e ∈ disks, d.name = nameOf i → e.name = nameOf j →
      key d < key e) :
    IndexOrdered nameOf disks := by
  intro i j hij a b d e hd he hdi hej
  have hlt := hkey i j hij d (List.mem_of_getElem? hd) e (List.mem_of_getElem? he) hdi hej
  obtain ⟨ha, rfl⟩ := List.getElem?_eq_some_iff.mp hd
  obtain ⟨hb, rfl⟩ := List.getElem?_eq_some_iff.mp he
  rcases Nat.lt_trichotomy a b with hab | hab | hba
  · exact hab
  · subst hab
    exact absurd hlt (lt_irrefl _)
  · have hle := List.pairwise_iff_getElem.mp hsorted b a hb ha hba
    exact absurd hlt (not_lt_of_ge hle)

/-! ## §2. macOS. -/

/-- The attach loop keeps the names. -/
theorem map_name_attachAll (media : List Macos.RawMedia) : ∀ disks : List PhysicalDisk,
    (Macos.attachAll media disks).map PhysicalDisk.name = disks.map PhysicalDisk.name := by
  unfold Macos.attachAll
  induction media with
  | nil =>
      intro disks
      rfl
  | cons m media ih =>
      intro disks
      rw [List.foldl_cons, ih]
      exact map_updateFirst (f := fun d => Macos.pushPartition d m) _ (fun _ => rfl) disks

/-- Every disk of the listing has the name of a whole medium. -/
theorem name_of_mem_assemble {media : List Macos.RawMedia} {d : PhysicalDisk}
    (h : d ∈ Macos.assemble media) : ∃ m ∈ media, m.whole = true ∧ d.name = m.bsd := by
  unfold Macos.assemble at h
  rw [mem_sortByKey, List.mem_map] at h
  obtain ⟨e, he, hed⟩ := h
  have hname : e.name ∈ (Macos.attachAll (media.filter (fun m => !m.whole))
      ((media.filter Macos.RawMedia.whole).map Macos.diskOf)).map PhysicalDisk.name :=
    List.mem_map_of_mem he
  rw [map_name_attachAll, List.map_map, List.mem_map] at hname
  obtain ⟨m, hm, hme⟩ := hname
  rw [List.mem_filter] at hm
  exact ⟨m, hm.1, hm.2, by rw [← hed]; exact hme.symm⟩

theorem diskName_injective {n m : Nat} (h : Macos.diskName n = Macos.diskName m) : n = m :=
  append_repr_injective "disk" h

/-- **macOS**: always in order, also when two whole disks share a name. -/
theorem indexOrdered_macos {media : List Macos.RawMedia}
    (hnamed : ∀ m ∈ media, m.whole = true → ∃ n < 2 ^ 64, m.bsd = Macos.diskName n) :
    IndexOrdered Macos.diskName (Macos.assemble media) := by
  have hindex : ∀ i, ∀ d ∈ Macos.assemble media, d.name = Macos.diskName i →
      Macos.diskIndex d.name = i := by
    intro i d hd hdi
    obtain ⟨m, hm, hwhole, hdm⟩ := name_of_mem_assemble hd
    obtain ⟨n, hn, hmn⟩ := hnamed m hm hwhole
    have hin : i = n := diskName_injective (by rw [← hdi, hdm, hmn])
    rw [hdi, Macos.diskIndex_diskName (hin ▸ hn)]
  refine indexOrdered_of_key (fun d => Macos.diskIndex d.name) (sortByKey_pairwise _ _) ?_
  intro i j hij d hd e he hdi hej
  show Macos.diskIndex d.name < Macos.diskIndex e.name
  rw [hindex i d hd hdi, hindex j e he hej]
  exact hij

/-! ## §3. Windows. -/

/-- The drive under an index opens, and its layout can be read. -/
def Readable (probe : Nat → OpenOutcome) (n : Nat) : Prop :=
  n < MAX_DRIVES ∧ ∃ handle buf, probe n = .opened handle ∧ handle.layout = some buf

/-- **The order of two drive names**: the larger index comes first exactly when it has two digits,
the smaller one has one, and that one is above the first digit of the other. -/
theorem driveName_lt_iff {i j : Nat} (hij : i < j) (hj : j < MAX_DRIVES) :
    driveName j < driveName i ↔ i < 10 ∧ 10 ≤ j ∧ j < 10 * i := by
  have hj64 : j < 64 := hj
  unfold driveName
  rw [append_repr_lt_iff]
  have htwo : 10 ≤ j → (Nat.toDigits 10 j).length = 2 := by
    intro h
    rw [length_toDigits_of_le h, length_toDigits_of_lt (show j / 10 < 10 by omega)]
  by_cases hi : i < 10
  · have hone := length_toDigits_of_lt hi
    by_cases hj10 : 10 ≤ j
    · rw [toDigits_lt_iff i j (by rw [hone, htwo hj10]; decide), hone, htwo hj10]
      show j / 10 < i ↔ _
      omega
    · rw [toDigits_lt_iff_of_length_eq j i (by rw [hone, length_toDigits_of_lt (by omega)])]
      omega
  · have htwo' : (Nat.toDigits 10 i).length = 2 := by
      rw [length_toDigits_of_le (show 10 ≤ i by omega),
        length_toDigits_of_lt (show i / 10 < 10 by omega)]
    rw [toDigits_lt_iff_of_length_eq j i (by rw [htwo', htwo (by omega)])]
    omega

section Drives

variable {api : ReadApi} {probe : Nat → OpenOutcome}

/-- The listing of a host. -/
def listing (api : ReadApi) (probe : Nat → OpenOutcome) : List PhysicalDisk :=
  (Windows.enumerate api probe).toOption.getD []

/-- A readable drive is listed under its name. -/
theorem mem_listing_of_readable (api : ReadApi) {n : Nat} (h : Readable probe n) :
    ∃ d ∈ listing api probe, d.name = driveName n := by
  obtain ⟨hn, handle, buf, hp, hl⟩ := h
  refine ⟨diskOf n handle (parseDriveLayout api buf.toList), ?_, rfl⟩
  unfold listing
  rw [enumerate_getD_perm.mem_iff]
  exact mem_found.mpr ⟨n, hn, diskAt_eq_some_iff.mpr ⟨handle, buf, hp, hl, rfl⟩⟩

/-- And nothing else is. -/
theorem readable_of_mem_listing {d : PhysicalDisk} (h : d ∈ listing api probe) {n : Nat}
    (hn : d.name = driveName n) : Readable probe n := by
  unfold listing at h
  rw [enumerate_getD_perm.mem_iff] at h
  obtain ⟨m, hm, hdm⟩ := mem_found.mp h
  obtain ⟨handle, buf, hp, hl, hd⟩ := diskAt_eq_some_iff.mp hdm
  have hname : driveName m = driveName n := by rw [← hn, hd]; rfl
  rw [← driveName_injective hname]
  exact ⟨hm, handle, buf, hp, hl⟩

theorem listing_sorted : (listing api probe).Pairwise (fun d e => d.name ≤ e.name) := by
  unfold listing
  rw [enumerate_eq]
  by_cases h : found api probe = [] ∧ ∃ n < MAX_DRIVES, deniedAt probe n = true
  · rw [if_pos h]
    exact List.Pairwise.nil
  · rw [if_neg h]
    exact sortByKey_pairwise _ _

/-- A two-digit drive in front of a one-digit drive. -/
theorem not_indexOrdered {i j : Nat} (hi : Readable probe i) (hj : Readable probe j)
    (h : i < 10 ∧ 10 ≤ j ∧ j < 10 * i) : ¬ IndexOrdered driveName (listing api probe) := by
  intro hordered
  obtain ⟨d, hd, hdi⟩ := mem_listing_of_readable api hi
  obtain ⟨e, he, hej⟩ := mem_listing_of_readable api hj
  obtain ⟨a, ha⟩ := List.getElem?_of_mem hd
  obtain ⟨b, hb⟩ := List.getElem?_of_mem he
  have hij : i < j := by omega
  have hab := hordered i j hij a b d e ha hb hdi hej
  obtain ⟨hal, rfl⟩ := List.getElem?_eq_some_iff.mp ha
  obtain ⟨hbl, rfl⟩ := List.getElem?_eq_some_iff.mp hb
  have hle := List.pairwise_iff_getElem.mp listing_sorted a b hal hbl hab
  rw [hdi, hej] at hle
  exact absurd ((driveName_lt_iff hij hj.1).mpr h) (not_lt_of_ge hle)

/-- No readable two-digit drive has a first digit below a readable one-digit drive. -/
def TextOrdered (probe : Nat → OpenOutcome) : Prop :=
  ∀ i j, Readable probe i → Readable probe j → i < 10 → 10 ≤ j → 10 * i ≤ j

/-- **Windows**: in order exactly when the text order is. -/
theorem indexOrdered_windows :
    IndexOrdered driveName (listing api probe) ↔ TextOrdered probe := by
  constructor
  · intro hordered i j hi hj hi10 hj10
    by_contra hlt
    exact not_indexOrdered hi hj ⟨hi10, hj10, by omega⟩ hordered
  · intro htext
    refine indexOrdered_of_key PhysicalDisk.name listing_sorted ?_
    intro i j hij d hd e he hdi hej
    have hi := readable_of_mem_listing hd hdi
    have hj := readable_of_mem_listing he hej
    rw [hdi, hej]
    have hnot : ¬ driveName j < driveName i := by
      rw [driveName_lt_iff hij hj.1]
      rintro ⟨hi10, hj10, hlt⟩
      have hle := htext i j hi hj hi10 hj10
      omega
    have hne : driveName i ≠ driveName j := fun h => absurd (driveName_injective h) (by omega)
    exact lt_of_le_of_ne (le_of_not_gt hnot) hne

end Drives

/-! ## §4. Both backends. -/

/-- What a backend with numbered disks gets from the operating system. -/
inductive Numbered where
  /-- Whole media are named `disk<n>`, not necessarily each its own. -/
  | macos (media : List Macos.RawMedia)
      (named : ∀ m ∈ media, m.whole = true → ∃ n < 2 ^ 64, m.bsd = Macos.diskName n)
  | windows (probe : Nat → OpenOutcome)

def Numbered.disks (api : ReadApi) : Numbered → List PhysicalDisk
  | .macos media _ => Macos.assemble media
  | .windows probe => listing api probe

/-- The name of the disk with an index. -/
def Numbered.nameOf : Numbered → Nat → String
  | .macos _ _ => Macos.diskName
  | .windows _ => driveName

/-- Only drive names are compared as texts. -/
def Numbered.TextOrdered : Numbered → Prop
  | .macos _ _ => True
  | .windows probe => Enumeration.TextOrdered probe

/-- **WHEN NUMBERED DISKS ARE LISTED IN ORDER**: always on macOS, and on Windows exactly when no
two-digit drive that can be read begins with a digit below a one-digit drive that can be read. -/
theorem indexOrdered_iff (api : ReadApi) (inv : Numbered) :
    IndexOrdered inv.nameOf (inv.disks api) ↔ inv.TextOrdered := by
  cases inv with
  | macos media named => exact iff_of_true (indexOrdered_macos named) trivial
  | windows probe => exact indexOrdered_windows

/-- Drives 2 and 10 open, with an empty table. -/
def twoAndTen : Nat → OpenOutcome
  | 2 => .opened
      { length := none, geometry := none, layout := some (Vector.replicate LAYOUT_BUF 0) }
  | 10 => .opened
      { length := none, geometry := none, layout := some (Vector.replicate LAYOUT_BUF 0) }
  | _ => .failed ERROR_FILE_NOT_FOUND

/-- **The tenth drive in front of the second.** -/
theorem ten_before_two :
    ¬ IndexOrdered driveName (listing referenceApi twoAndTen)
      ∧ driveName 10 < driveName 2 :=
  ⟨not_indexOrdered (i := 2) (j := 10) ⟨by decide, _, _, rfl, rfl⟩ ⟨by decide, _, _, rfl, rfl⟩
    (by decide), (driveName_lt_iff (by decide) (by decide)).mpr (by decide)⟩

end LivediskForensic.Enumeration
