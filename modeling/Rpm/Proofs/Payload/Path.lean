import Mathlib.Data.List.Basic
import Rpm.Package.FileTable
import Rpm.Payload.Path
import Rpm.Proofs.Text.Utf8

/-!
Paths in their one spelling.

A normalized path holds no zero byte, and normalizing it again changes nothing: between its slashes
stand the very components that it was joined of. It is put together of its directory and its last
component.
-/

namespace Rpm

namespace Path

/-! ### Splitting and joining -/

lemma splitSlashes_ne_nil (cs : List Char) : splitSlashes cs ≠ [] := by
  cases cs with
  | nil => simp [splitSlashes]
  | cons c cs =>
    rw [splitSlashes]
    split
    · simp
    · split <;> simp

lemma splitSlashes_slash (cs : List Char) : splitSlashes ('/' :: cs) = [] :: splitSlashes cs := by
  rw [splitSlashes]
  split
  · rename_i h
    exact absurd h (splitSlashes_ne_nil cs)
  · rename_i h
    rw [if_pos rfl, h]

lemma splitSlashes_append {front cs part : List Char} {parts : List (List Char)}
    (hfront : '/' ∉ front) (h : splitSlashes cs = part :: parts) :
    splitSlashes (front ++ cs) = (front ++ part) :: parts := by
  induction front with
  | nil => exact h
  | cons c front ih =>
    have hc : c ≠ '/' := fun heq => hfront (heq ▸ List.mem_cons_self)
    rw [List.cons_append, splitSlashes, ih fun hmem => hfront (List.mem_cons_of_mem c hmem)]
    simp only [if_neg hc, List.cons_append]

lemma mem_of_mem_splitSlashes {cs part : List Char} (h : part ∈ splitSlashes cs) :
    '/' ∉ part ∧ part ⊆ cs := by
  induction cs generalizing part with
  | nil =>
    obtain rfl : part = [] := by simpa [splitSlashes] using h
    simp
  | cons c cs ih =>
    obtain ⟨first, parts, hsplit⟩ := List.exists_cons_of_ne_nil (splitSlashes_ne_nil cs)
    rw [hsplit] at ih
    simp only [splitSlashes, hsplit] at h
    split_ifs at h with hc
    · rcases List.mem_cons.mp h with rfl | h
      · simp
      · exact ⟨(ih h).1, fun x hx => List.mem_cons_of_mem c ((ih h).2 hx)⟩
    · rcases List.mem_cons.mp h with rfl | h
      · obtain ⟨hslash, hsub⟩ := ih List.mem_cons_self
        refine ⟨fun hmem => ?_, fun x hx => ?_⟩
        · rcases List.mem_cons.mp hmem with heq | hmem
          · exact hc heq.symm
          · exact hslash hmem
        · rcases List.mem_cons.mp hx with rfl | hx
          · exact List.mem_cons_self
          · exact List.mem_cons_of_mem c (hsub hx)
      · have h' := ih (List.mem_cons_of_mem first h)
        exact ⟨h'.1, fun x hx => List.mem_cons_of_mem c (h'.2 hx)⟩

/-- Whether a text can be a component: it is not empty and holds no slash. -/
def IsPart (component : String) : Prop := component.toList ≠ [] ∧ '/' ∉ component.toList

lemma toList_join (parts : List String) :
    (join parts).toList = parts.flatMap fun c => '/' :: c.toList := by
  have h : ∀ s : String, (parts.foldl (fun path c => path ++ "/" ++ c) s).toList =
      s.toList ++ parts.flatMap fun c => '/' :: c.toList := by
    induction parts with
    | nil => simp
    | cons c parts ih =>
      intro s
      rw [List.foldl_cons, ih]
      simp
  rw [join, h]
  rfl

lemma splitSlashes_join {parts : List String} (h : ∀ c ∈ parts, IsPart c) :
    splitSlashes (parts.flatMap fun c => '/' :: c.toList) = [] :: parts.map String.toList := by
  induction parts with
  | nil => rfl
  | cons c parts ih =>
    rw [List.flatMap_cons, List.cons_append, splitSlashes_slash,
      splitSlashes_append (h c (by simp)).2 (ih fun c' hc' => h c' (by simp [hc'])),
      List.append_nil, List.map_cons]

lemma withoutDotSlash_of_slash (cs : List Char) : withoutDotSlash ('/' :: cs) = '/' :: cs := by
  simp [withoutDotSlash]

lemma components_join {parts : List String} (h : ∀ c ∈ parts, IsPart c) :
    components (join parts) = parts := by
  have hfront : withoutDotSlash (join parts).toList = (join parts).toList := by
    rw [toList_join]
    cases parts with
    | nil => rfl
    | cons c parts => exact withoutDotSlash_of_slash _
  have hkept : (parts.map String.toList).filter (fun part => !part.isEmpty) =
      parts.map String.toList := by
    refine List.filter_eq_self.mpr fun part hpart => ?_
    obtain ⟨c, hc, rfl⟩ := List.mem_map.mp hpart
    simpa using (h c hc).1
  rw [components, hfront, toList_join, splitSlashes_join h,
    List.filter_cons_of_neg (by simp), hkept, List.map_map]
  simp

lemma isPart_of_mem_components {path c : String} (h : c ∈ components path) :
    IsPart c ∧ c.toList ⊆ path.toList := by
  obtain ⟨part, hpart, rfl⟩ := List.mem_map.mp h
  obtain ⟨hmem, hne⟩ := List.mem_filter.mp hpart
  obtain ⟨hslash, hsub⟩ := mem_of_mem_splitSlashes hmem
  have hfront : withoutDotSlash path.toList ⊆ path.toList := by
    intro x hx
    unfold withoutDotSlash at hx
    split at hx
    · rename_i heq
      exact heq ▸ List.mem_cons_of_mem _ (List.mem_cons_of_mem _ hx)
    · exact hx
  refine ⟨⟨?_, ?_⟩, ?_⟩
  · simpa using hne
  · simpa using hslash
  · intro x hx
    rw [String.toList_ofList] at hx
    exact hfront (hsub hx)

/-! ### Normalizing -/

variable {path q : String}

lemma normalize_eq_ok_iff : normalize path = .ok q ↔
    '\x00' ∉ path.toList ∧ components path ≠ [] ∧
      (∀ c ∈ components path, isRelative c = false) ∧ q = join (components path) := by
  unfold normalize
  simp only [List.contains_iff_mem, Bool.or_eq_true, List.isEmpty_iff, List.any_eq_true]
  constructor
  · intro h
    split_ifs at h with hnul hparts
    obtain ⟨hne, hrelative⟩ := not_or.mp hparts
    refine ⟨hnul, hne, fun c hc => ?_, (Except.ok.inj h).symm⟩
    exact Bool.eq_false_iff.mpr fun hr => hrelative ⟨c, hc, hr⟩
  · rintro ⟨hnul, hne, hrelative, rfl⟩
    rw [if_neg hnul, if_neg]
    rintro (h | ⟨c, hc, hr⟩)
    · exact hne h
    · rw [hrelative c hc] at hr
      exact absurd hr (by simp)

lemma nul_notMem_of_normalize (h : normalize path = .ok q) : '\x00' ∉ q.toList := by
  obtain ⟨hnul, -, -, rfl⟩ := normalize_eq_ok_iff.mp h
  rw [toList_join]
  intro hmem
  obtain ⟨c, hc, hx⟩ := List.mem_flatMap.mp hmem
  rcases List.mem_cons.mp hx with heq | hx
  · exact absurd heq (by decide)
  · exact hnul ((isPart_of_mem_components hc).2 hx)

/-- **Normalizing is idempotent.** -/
lemma normalize_normalize (h : normalize path = .ok q) : normalize q = .ok q := by
  have hnul := nul_notMem_of_normalize h
  obtain ⟨-, hne, hrelative, rfl⟩ := normalize_eq_ok_iff.mp h
  have hparts : components (join (components path)) = components path :=
    components_join fun c hc => (isPart_of_mem_components hc).1
  rw [normalize_eq_ok_iff, hparts]
  exact ⟨hnul, hne, hrelative, rfl⟩

lemma nul_notMem_archiveName (h : normalize path = .ok q) : '\x00' ∉ (archiveName q).toList := by
  intro hmem
  rw [archiveName, String.toList_append, List.mem_append] at hmem
  rcases hmem with hmem | hmem
  · revert hmem
    decide
  · exact nul_notMem_of_normalize h hmem

lemma holdsNul_archiveName (h : normalize path = .ok q) : holdsNul (archiveName q) = false :=
  holdsNul_eq_false (nul_notMem_archiveName h)

/-- The name of a path in an archive begins with a point and a slash, and that of the trailer does
not. -/
lemma archiveName_ne_trailerName (path : String) :
    archiveName path ≠ Archive.trailerName := by
  intro h
  have := congrArg String.toList h
  rw [archiveName, String.toList_append] at this
  exact absurd (List.cons_eq_cons.mp this).1 (by decide)

end Path

lemma FileRecord.directoryOf_append_baseNameOf (path : String) :
    directoryOf path ++ baseNameOf path = path := by
  refine String.toList_injective ?_
  simp only [directoryOf, baseNameOf, String.toList_append, String.toList_ofList]
  rw [← List.reverse_append, List.takeWhile_append_dropWhile, List.reverse_reverse]

end Rpm
