import Mathlib.Data.List.Basic
import Mathlib.Data.List.Induction
import Rpm.Proofs.Package.Steps

/-!
The arrays of files in the metadata header of a built package.

They are set together, and nothing else that a builder sets has one of their tags, so that a header
has them as they were made, and has none of them if there are no files. The directories among them
are different from one another, and each file finds its own.
-/

namespace Rpm

open Header

/-! ### Directories -/

lemma firstOccurrences_concat (strings : List String) (s : String) :
    firstOccurrences (strings ++ [s]) =
      if s ∈ firstOccurrences strings then firstOccurrences strings
      else firstOccurrences strings ++ [s] := by
  simp only [firstOccurrences, List.foldl_append, List.foldl_cons, List.foldl_nil,
    List.contains_iff_mem]

lemma firstOccurrences_spec (strings : List String) :
    (firstOccurrences strings).Nodup ∧ ∀ s, s ∈ firstOccurrences strings ↔ s ∈ strings := by
  induction strings using List.reverseRecOn with
  | nil => exact ⟨List.nodup_nil, fun s => Iff.rfl⟩
  | append_singleton strings s ih =>
    obtain ⟨hnodup, hmem⟩ := ih
    rw [firstOccurrences_concat]
    split
    · rename_i hs
      refine ⟨hnodup, fun t => ?_⟩
      rw [hmem, List.mem_append, List.mem_singleton]
      exact ⟨Or.inl, fun ht => ht.elim id fun heq => heq ▸ (hmem s).mp hs⟩
    · rename_i hs
      refine ⟨List.nodup_append.mpr ⟨hnodup, by simp, ?_⟩, fun t => ?_⟩
      · rintro t ht u hu rfl
        exact hs (List.mem_singleton.mp hu ▸ ht)
      · rw [List.mem_append, List.mem_append, hmem]

lemma nodup_directories (files : List FileRecord) : (directories files).Nodup :=
  (firstOccurrences_spec _).1

lemma directory_mem_directories {files : List FileRecord} {f : FileRecord} (hf : f ∈ files) :
    f.directory ∈ directories files :=
  ((firstOccurrences_spec _).2 _).mpr (List.mem_map_of_mem hf)

/-! ### The arrays -/

/-- The entry for the sizes of files. -/
def sizesEntry (files : List FileRecord) : Entry :=
  if files.all fun f => f.size < 2 ^ 32 then
    ⟨MetadataTag.fileSizes.id, .int32 (files.map fun f => UInt32.ofNat f.size)⟩
  else ⟨MetadataTag.longFileSizes.id, .int64 (files.map fun f => UInt64.ofNat f.size)⟩

open MetadataTag in
def fileEntries (files : List FileRecord) (algorithm : DigestAlgorithm) : List Entry := [
  sizesEntry files,
  ⟨fileModes.id, .int16 (files.map (·.mode))⟩,
  ⟨fileRdevs.id, .int16 (files.map fun _ => 0)⟩,
  ⟨fileMtimes.id, .int32 (files.map (·.mtime))⟩,
  ⟨fileDigests.id, .stringArray (files.map (·.digest))⟩,
  ⟨fileLinkTos.id, .stringArray (files.map (·.linkTo))⟩,
  ⟨fileFlags.id, .int32 (files.map (·.flags))⟩,
  ⟨fileUserName.id, .stringArray (files.map (·.user))⟩,
  ⟨fileGroupName.id, .stringArray (files.map (·.group))⟩,
  ⟨fileVerifyFlags.id, .int32 (files.map fun _ => 0xffffffff)⟩,
  ⟨fileDevices.id, .int32 (files.map fun _ => 1)⟩,
  ⟨fileInodes.id, .int32 (files.map (·.inode))⟩,
  ⟨fileLangs.id, .stringArray (files.map fun _ => "")⟩,
  ⟨fileDigestAlgo.id, .int32 [algorithm.id]⟩,
  ⟨dirIndexes.id, .int32 (files.map fun f => UInt32.ofNat ((directories files).idxOf f.directory))⟩,
  ⟨baseNames.id, .stringArray (files.map (·.baseName))⟩,
  ⟨dirNames.id, .stringArray (directories files)⟩]

def fileTags : List UInt32 :=
  MetadataTag.longFileSizes.id :: (fileEntries [] .default).map Entry.tag

lemma setFiles_eq {files : List FileRecord} (hne : files ≠ []) (h : Header .metadata)
    (algorithm : DigestAlgorithm) :
    h.setFiles files algorithm = .ok (h.extend ⟨fileEntries files algorithm⟩) := by
  have hempty : files.isEmpty = false := by simpa using hne
  have hsizes : h.setFileSizes files =
      .ok (h.setRaw (sizesEntry files).tag (sizesEntry files).value) := by
    unfold Header.setFileSizes sizesEntry
    split <;> rfl
  simp only [Header.setFiles, hempty, Bool.false_eq_true, if_false, hsizes]
  rfl

lemma tag_sizesEntry (files : List FileRecord) :
    (sizesEntry files).tag = MetadataTag.fileSizes.id ∨
      (sizesEntry files).tag = MetadataTag.longFileSizes.id := by
  unfold sizesEntry
  split <;> simp

lemma sizesEntry_of_lt {files : List FileRecord} (hlt : ∀ f ∈ files, f.size < 2 ^ 32) :
    sizesEntry files =
      ⟨MetadataTag.fileSizes.id, .int32 (files.map fun f => UInt32.ofNat f.size)⟩ :=
  if_pos (List.all_eq_true.mpr fun f hf => decide_eq_true (hlt f hf))

lemma distinct_fileEntries (files : List FileRecord) (algorithm : DigestAlgorithm) :
    (⟨fileEntries files algorithm⟩ : Header .metadata).Distinct := by
  unfold Header.Distinct fileEntries
  rw [List.map_cons]
  rcases tag_sizesEntry files with htag | htag <;> rw [htag] <;>
    simp only [List.map_cons, List.map_nil] <;> decide

lemma unambiguous_fileEntries (files : List FileRecord) (algorithm : DigestAlgorithm) :
    (⟨fileEntries files algorithm⟩ : Header .metadata).Unambiguous := by
  intro e he
  rcases List.mem_cons.mp he with rfl | he
  · unfold sizesEntry
    split <;> trivial
  · simp only [List.mem_cons, List.not_mem_nil, or_false] at he
    rcases he with rfl | rfl | rfl | rfl | rfl | rfl | rfl | rfl | rfl | rfl | rfl | rfl | rfl |
      rfl | rfl | rfl <;> trivial

/-- Whether a header has the arrays of some files: none at all, if there are no files. -/
def Header.HasFiles (h : Header .metadata) (files : List FileRecord) (algorithm : DigestAlgorithm) :
    Prop :=
  ∀ t ∈ fileTags, h.getRaw t = if files = [] then none else lookup t (fileEntries files algorithm)

/-! ### A built header -/

variable {b : PackageBuilder} {evr : Version} {buildTime : UInt32} {files : List FileRecord}
  {h : Header .metadata}

/-- **A built header** has the arrays of the files. -/
lemma hasFiles_metadataHeader (hm : b.metadataHeader evr buildTime files = .ok h) :
    h.HasFiles files b.fileDigest := by
  intro t ht
  obtain ⟨h₁, h₂, h₃, h₄, hdescribed, hfiles, hscripts, hdependencies, hchanges⟩ :=
    exists_of_metadataHeader hm
  have hapart : ∀ t ∈ plainTags, t.id ∉ fileTags := by decide
  have hapart' : ∀ kind : DependencyKind, ∀ t ∈ kind.tagIds, t ∉ fileTags := by
    intro kind
    cases kind <;> exact notMem_of_all (by decide)
  have kept := fun value => keptOutside_getRaw ht value
  have hnone : h₁.getRaw t = none := hdescribed fileTags _ (kept none) hapart rfl
  have hset : h.getRaw t = h₂.getRaw t := by
    refine hchanges fileTags _ (kept _) hapart ?_
    refine Keeps.foldlM (fun kind _ => keeps_setDependencies (kept _) (hapart' kind) _) h₃ h₄ ?_
      hdependencies
    exact hscripts fileTags _ (kept _) hapart rfl
  rw [hset]
  split
  · rename_i hnil
    rw [hnil] at hfiles
    rw [← Except.ok.inj hfiles, hnone]
  · rename_i hne
    rw [setFiles_eq hne] at hfiles
    rw [← Except.ok.inj hfiles, getRaw_extend (distinct_fileEntries files _), hnone, Option.or_none]
    rfl

lemma unambiguous_metadataHeader (hm : b.metadataHeader evr buildTime files = .ok h) :
    h.Unambiguous := by
  obtain ⟨h₁, h₂, h₃, h₄, hdescribed, hfiles, hscripts, hdependencies, hchanges⟩ :=
    exists_of_metadataHeader hm
  have kept : KeptOutside [] (@Unambiguous .metadata) := keptBySet_unambiguous.outside []
  have hknown : h₁.Unambiguous := hdescribed [] _ kept (by simp) unambiguous_empty
  have hknown' : h₂.Unambiguous := by
    by_cases hne : files = []
    · rw [hne] at hfiles
      exact Except.ok.inj hfiles ▸ hknown
    · rw [setFiles_eq hne] at hfiles
      exact Except.ok.inj hfiles ▸ hknown.extend (unambiguous_fileEntries files b.fileDigest)
  refine hchanges [] _ kept (by simp) ?_
  refine Keeps.foldlM (fun kind _ => keeps_setDependencies kept (by simp) _) h₃ h₄ ?_ hdependencies
  exact hscripts [] _ kept (by simp) hknown'

/-! ### What the arrays say -/

/-- The tags of the arrays with an element for each file. -/
def perFileTags : List (Tag .metadata) := [
  MetadataTag.fileSizes, MetadataTag.fileModes, MetadataTag.fileRdevs, MetadataTag.fileMtimes,
  MetadataTag.fileDigests, MetadataTag.fileLinkTos, MetadataTag.fileFlags,
  MetadataTag.fileUserName, MetadataTag.fileGroupName, MetadataTag.fileVerifyFlags,
  MetadataTag.fileDevices, MetadataTag.fileInodes, MetadataTag.fileLangs, MetadataTag.dirIndexes,
  MetadataTag.baseNames]

lemma size_lt_of_mem {strings : List String} {s : String} (hs : s ∈ strings) :
    s.utf8ByteSize < (concat (strings.map terminated)).size := by
  induction strings with
  | nil => simp at hs
  | cons t strings ih =>
    rw [List.map_cons, concat_cons, ByteArray.size_append, size_terminated]
    rcases List.mem_cons.mp hs with rfl | hs
    · omega
    · have := ih hs
      omega

def Header.textAt (h : Header .metadata) (tag : Tag .metadata) (i : Nat) : Option String :=
  match h.getStrings tag with
  | .ok (some strings) => strings[i]?
  | _ => none

def Header.numberAt (h : Header .metadata) (tag : Tag .metadata) (i : Nat) : Option UInt32 :=
  match h.getUInt32s tag with
  | .ok (some numbers) => numbers[i]?
  | _ => none

namespace Header

lemma textAt_of_get {tag : Tag .metadata} {strings : List String}
    (hget : h.get tag = some (.stringArray strings)) (i : Nat) : h.textAt tag i = strings[i]? := by
  simp only [textAt, getStrings, typed, hget, Value.asStrings?]

lemma numberAt_of_get {tag : Tag .metadata} {numbers : List UInt32}
    (hget : h.get tag = some (.int32 numbers)) (i : Nat) : h.numberAt tag i = numbers[i]? := by
  simp only [numberAt, getUInt32s, typed, hget, Value.asUInt32s?]

end Header

namespace Header.HasFiles

variable {algorithm : DigestAlgorithm} {g : Header .metadata}

lemma of_getRaw_eq (hh : h.HasFiles files algorithm)
    (heq : ∀ t ∈ fileTags, g.getRaw t = h.getRaw t) : g.HasFiles files algorithm :=
  fun t ht => (heq t ht).trans (hh t ht)

lemma get_eq_none (hh : h.HasFiles [] algorithm) {tag : Tag .metadata} (htag : tag.id ∈ fileTags) :
    h.get tag = none :=
  (hh _ htag).trans (if_pos rfl)

lemma get_eq_some (hh : h.HasFiles files algorithm) (hne : files ≠ []) {tag : Tag .metadata}
    {value : Value} (htag : tag.id ∈ fileTags)
    (hsizes : tag.id ≠ MetadataTag.fileSizes.id ∧ tag.id ≠ MetadataTag.longFileSizes.id)
    (hvalue : lookup tag.id (fileEntries files algorithm).tail = some value) :
    h.get tag = some value := by
  have hother : (sizesEntry files).tag ≠ tag.id := by
    rcases tag_sizesEntry files with heq | heq <;> rw [heq]
    · exact hsizes.1.symm
    · exact hsizes.2.symm
  rw [Header.get, hh _ htag, if_neg hne, ← hvalue]
  exact if_neg hother

section At

variable (hh : h.HasFiles files algorithm) {i : Nat} {f : FileRecord} (hf : files[i]? = some f)
  {tag : Tag .metadata}
include hh hf

lemma text {g : FileRecord → String} (htag : tag.id ∈ fileTags)
    (hsizes : tag.id ≠ MetadataTag.fileSizes.id ∧ tag.id ≠ MetadataTag.longFileSizes.id)
    (hvalue : lookup tag.id (fileEntries files algorithm).tail =
      some (.stringArray (files.map g))) : h.textAt tag i = some (g f) := by
  have hne : files ≠ [] := List.ne_nil_of_mem (List.mem_of_getElem? hf)
  rw [textAt_of_get (hh.get_eq_some hne htag hsizes hvalue), List.getElem?_map, hf, Option.map_some]

lemma number {g : FileRecord → UInt32} (htag : tag.id ∈ fileTags)
    (hsizes : tag.id ≠ MetadataTag.fileSizes.id ∧ tag.id ≠ MetadataTag.longFileSizes.id)
    (hvalue : lookup tag.id (fileEntries files algorithm).tail = some (.int32 (files.map g))) :
    h.numberAt tag i = some (g f) := by
  have hne : files ≠ [] := List.ne_nil_of_mem (List.mem_of_getElem? hf)
  rw [numberAt_of_get (hh.get_eq_some hne htag hsizes hvalue), List.getElem?_map, hf,
    Option.map_some]

lemma directory (hdirectories : (directories files).length ≤ mostStoreSize) :
    ∃ d, h.numberAt MetadataTag.dirIndexes i = some d ∧
      h.textAt MetadataTag.dirNames d.toNat = some f.directory := by
  have hmem : f.directory ∈ directories files :=
    directory_mem_directories (List.mem_of_getElem? hf)
  have hne : files ≠ [] := List.ne_nil_of_mem (List.mem_of_getElem? hf)
  have hlt := List.idxOf_lt_length_of_mem hmem
  have hindex : (UInt32.ofNat ((directories files).idxOf f.directory)).toNat =
      (directories files).idxOf f.directory :=
    UInt32.toNat_ofNat_of_lt (Nat.lt_of_lt_of_le hlt (Nat.le_trans hdirectories (by decide)))
  refine ⟨_, hh.number hf (by decide) (by decide) rfl, ?_⟩
  rw [textAt_of_get (hh.get_eq_some hne (by decide) (by decide) rfl), hindex,
    List.getElem?_eq_getElem hlt, List.getElem_idxOf]

end At

/-- If no file needs more bits for its size, the sizes of all are found under the usual tag. -/
lemma get_fileSizes (hh : h.HasFiles files algorithm) (hne : files ≠ [])
    (hlt : ∀ f ∈ files, f.size < 2 ^ 32) :
    h.get MetadataTag.fileSizes = some (.int32 (files.map fun f => UInt32.ofNat f.size)) := by
  rw [Header.get, hh _ (by decide), if_neg hne, fileEntries, sizesEntry_of_lt hlt]
  rfl

lemma get_longFileSizes (hh : h.HasFiles files algorithm) (hlt : ∀ f ∈ files, f.size < 2 ^ 32) :
    h.get MetadataTag.longFileSizes = none := by
  rw [Header.get, hh _ (by decide), fileEntries, sizesEntry_of_lt hlt]
  exact ite_self none

lemma get_dirNames (hh : h.HasFiles files algorithm) : h.get MetadataTag.dirNames =
    if files = [] then none else some (.stringArray (directories files)) := by
  split
  · rename_i hnil
    subst hnil
    exact hh.get_eq_none (by decide)
  · rename_i hne
    exact hh.get_eq_some hne (by decide) (by decide) rfl

/-- Every array has an element for each file, and none of them is there if there are no files. -/
lemma count_eq (hh : h.HasFiles files algorithm) (hlt : ∀ f ∈ files, f.size < 2 ^ 32)
    {tag : Tag .metadata} (htag : tag ∈ perFileTags) :
    (h.get tag).map Value.count = if files = [] then none else some files.length := by
  by_cases hne : files = []
  · subst hne
    have hmem : ∀ tag ∈ perFileTags, tag.id ∈ fileTags := by decide
    rw [hh.get_eq_none (hmem tag htag), if_pos rfl]
    rfl
  · rw [if_neg hne]
    simp only [perFileTags, List.mem_cons, List.not_mem_nil, or_false] at htag
    rcases htag with rfl | htag
    · rw [hh.get_fileSizes hne hlt]
      simp [Value.count]
    · rcases htag with rfl | rfl | rfl | rfl | rfl | rfl | rfl | rfl | rfl | rfl | rfl | rfl |
        rfl | rfl <;>
      · rw [hh.get_eq_some hne (by decide) (by decide) rfl]
        simp [Value.count]

lemma small (hh : h.HasFiles files algorithm) {data : ByteArray}
    (rendered : h.render true = .ok data) (limits : WithinLimits data) :
    files.length ≤ mostStoreSize ∧ (directories files).length ≤ mostStoreSize ∧
      ∀ f ∈ files, f.directory.utf8ByteSize < mostStoreSize ∧
        f.baseName.utf8ByteSize < mostStoreSize ∧ f.linkTo.utf8ByteSize < mostStoreSize := by
  by_cases hne : files = []
  · subst hne
    exact ⟨Nat.zero_le _, Nat.zero_le _, by simp⟩
  · have hsize : ∀ (tag : Tag .metadata) strings, h.get tag = some (.stringArray strings) →
        (concat (strings.map terminated)).size ≤ mostStoreSize :=
      fun tag strings hget => size_bytes_le_of_getRaw rendered limits hget
    have hdirectories := hsize MetadataTag.dirNames _
      (hh.get_eq_some hne (by decide) (by decide) rfl)
    have hbaseNames := hsize MetadataTag.baseNames _
      (hh.get_eq_some hne (by decide) (by decide) rfl)
    have hlinkTos := hsize MetadataTag.fileLinkTos _
      (hh.get_eq_some hne (by decide) (by decide) rfl)
    have hlength := length_le_size_concat_terminated (files.map (·.baseName))
    rw [List.length_map] at hlength
    refine ⟨Nat.le_trans hlength hbaseNames,
      Nat.le_trans (length_le_size_concat_terminated _) hdirectories, fun f hf => ⟨?_, ?_, ?_⟩⟩
    · exact Nat.lt_of_lt_of_le (size_lt_of_mem (directory_mem_directories hf)) hdirectories
    · exact Nat.lt_of_lt_of_le (size_lt_of_mem (List.mem_map_of_mem hf)) hbaseNames
    · exact Nat.lt_of_lt_of_le (size_lt_of_mem (List.mem_map_of_mem hf)) hlinkTos

end Header.HasFiles

end Rpm
