import Rpm.Proofs.Payload.Path

/-!
The many spellings of a path.

A path has the parts between its slashes, of which empty ones do not count. All paths with the same
parts are spellings of one file: they are normalized to the same text, and no others are. The name
in an archive is one of them, and its parts lead nowhere but down.
-/

namespace Rpm.Path

/-! ### Parts -/

/-- What stands between the slashes of a text, empty parts included. -/
def slashed (cs : List Char) : List String := (cs.splitOn '/').map String.ofList

/-- The characters of a path, without a point and a slash at their front. -/
def trimmed (path : String) : List Char :=
  if ['.', '/'] <+: path.toList then path.toList.drop 2 else path.toList

/-- The parts of a path that are not empty. -/
def parts (path : String) : List String := (slashed (trimmed path)).filter (· ≠ "")

variable {path path' q q' : String} {cs : List Char} {ps : List String}

lemma splitSlashes_eq_splitOn (cs : List Char) : splitSlashes cs = cs.splitOn '/' := by
  induction cs with
  | nil => rfl
  | cons c cs ih =>
    obtain ⟨part, rest, hsplit⟩ := List.exists_cons_of_ne_nil (splitSlashes_ne_nil cs)
    rw [List.splitOn, List.splitOnP_cons_eq_if_modifyHead, ← List.splitOn, ← ih]
    simp only [splitSlashes, hsplit, beq_iff_eq, List.modifyHead_cons]

lemma withoutDotSlash_toList (path : String) : withoutDotSlash path.toList = trimmed path := by
  unfold withoutDotSlash trimmed
  split
  · rename_i cs hcs
    rw [hcs, if_pos ⟨cs, rfl⟩]
    rfl
  · rename_i hother
    rw [if_neg]
    rintro ⟨cs, hcs⟩
    exact hother cs hcs.symm

lemma components_eq_parts (path : String) : components path = parts path := by
  have hempty : (fun part : List Char => !part.isEmpty) =
      (fun part : String => decide (part ≠ "")) ∘ String.ofList := by
    funext part
    cases part <;> simp
  rw [components, parts, slashed, withoutDotSlash_toList, splitSlashes_eq_splitOn, hempty,
    List.filter_map]

lemma isPart_of_mem_parts {c : String} (h : c ∈ parts path) : IsPart c :=
  (isPart_of_mem_components (components_eq_parts path ▸ h)).1

/-! ### Joining -/

/-- Each part has a slash in front: the first one, and one that sets it off from the part before. -/
lemma join_eq_intercalate (h : ps ≠ []) : join ps = "/" ++ "/".intercalate ps := by
  rw [← String.toList_inj, toList_join]
  induction ps with
  | nil => contradiction
  | cons c ps ih =>
    cases ps with
    | nil => simp
    | cons d ps =>
      rw [List.flatMap_cons, ih (List.cons_ne_nil d ps),
        String.intercalate_cons_of_ne_nil (List.cons_ne_nil d ps)]
      simp

lemma slashed_slash (cs : List Char) : slashed ('/' :: cs) = "" :: slashed cs := by
  rw [slashed, ← splitSlashes_eq_splitOn, splitSlashes_slash, splitSlashes_eq_splitOn,
    List.map_cons]
  rfl

lemma exists_toList_join (h : ps ≠ []) : ∃ cs, (join ps).toList = '/' :: cs := by
  cases ps with
  | nil => contradiction
  | cons c ps => exact ⟨_, by rw [toList_join, List.flatMap_cons, List.cons_append]⟩

lemma slashed_join (h : ∀ c ∈ ps, IsPart c) : slashed (join ps).toList = "" :: ps := by
  rw [slashed, ← splitSlashes_eq_splitOn, toList_join, splitSlashes_join h, List.map_cons,
    List.map_map]
  simp

/-- Between the slashes of the name in an archive are a point and the parts of the path. -/
lemma slashed_archiveName (h : ∀ c ∈ ps, IsPart c) :
    slashed (archiveName (join ps)).toList = "." :: ps := by
  have hsplit := splitSlashes_join h
  rw [slashed, ← splitSlashes_eq_splitOn, archiveName, String.toList_append, toList_join,
    splitSlashes_append (by decide) hsplit, List.map_cons, List.map_map]
  simp

/-- The name in an archive has the parts of the path, for the point goes with its first slash. -/
lemma parts_archiveName (hne : ps ≠ []) (h : ∀ c ∈ ps, IsPart c) :
    parts (archiveName (join ps)) = ps := by
  obtain ⟨cs, hcs⟩ := exists_toList_join hne
  have hslashed : slashed cs = ps := by
    have hjoin := slashed_join h
    rw [hcs, slashed_slash] at hjoin
    exact (List.cons.inj hjoin).2
  have hname : (archiveName (join ps)).toList = '.' :: '/' :: cs := by
    rw [archiveName, String.toList_append, hcs]
    rfl
  have htrimmed : trimmed (archiveName (join ps)) = cs := by
    rw [trimmed, hname, if_pos ⟨cs, rfl⟩]
    rfl
  rw [parts, htrimmed, hslashed]
  refine List.filter_eq_self.mpr fun c hc => ?_
  have hchars := (h c hc).1
  simpa using hchars

/-! ### Normalizing -/

lemma isRelative_eq_false_iff {c : String} : isRelative c = false ↔ c ≠ "." ∧ c ≠ ".." := by
  rw [isRelative, Bool.or_eq_false_iff, decide_eq_false_iff_not, decide_eq_false_iff_not]

/-- **Which paths are accepted**, by their parts. -/
structure Acceptable (path : String) : Prop where
  nul_notMem : '\x00' ∉ path.toList
  ne_nil : parts path ≠ []
  notMem_current : "." ∉ parts path
  notMem_above : ".." ∉ parts path

lemma normalize_eq_ok_iff_acceptable :
    normalize path = .ok q ↔ Acceptable path ∧ q = join (parts path) := by
  rw [normalize_eq_ok_iff, components_eq_parts]
  simp only [isRelative_eq_false_iff]
  constructor
  · rintro ⟨hnul, hne, hrelative, hq⟩
    exact ⟨⟨hnul, hne, fun h => (hrelative _ h).1 rfl, fun h => (hrelative _ h).2 rfl⟩, hq⟩
  · rintro ⟨⟨hnul, hne, hcurrent, habove⟩, hq⟩
    exact ⟨hnul, hne, fun c hc => ⟨fun h => hcurrent (h ▸ hc), fun h => habove (h ▸ hc)⟩, hq⟩

lemma normalize_of_parts_eq (h : Acceptable path) (hnul : '\x00' ∉ path'.toList)
    (hparts : parts path' = parts path) : normalize path' = .ok (join (parts path)) := by
  obtain ⟨-, hne, hcurrent, habove⟩ := h
  refine normalize_eq_ok_iff_acceptable.mpr ⟨⟨hnul, ?_, ?_, ?_⟩, by rw [hparts]⟩ <;> rwa [hparts]

lemma join_parts_inj (h : join (parts path') = join (parts path)) : parts path' = parts path := by
  have hpath := components_join fun c (hc : c ∈ parts path) => isPart_of_mem_parts hc
  have hpath' := components_join fun c (hc : c ∈ parts path') => isPart_of_mem_parts hc
  rw [← hpath', h, hpath]

/-- **Normalizing is canonical and safe.** A path is accepted exactly if it has no zero character
and, without a point and a slash at its front, at least one part, none of them a point or two. The
result is these parts with a slash in front of each, and two accepted paths have the same one
exactly if they have the same parts. It is its own normal form and that of its name in an archive,
which is never that of the trailer and in which, behind the point at its front, no part is a point
or two. -/
theorem normalize_canonical (path : String) :
    ((∃ q, normalize path = .ok q) ↔ Acceptable path) ∧
    ∀ q, normalize path = .ok q →
      q = "/" ++ "/".intercalate (parts path) ∧
      (∀ path' q', normalize path' = .ok q' → (q' = q ↔ parts path' = parts path)) ∧
      normalize q = .ok q ∧ normalize (archiveName q) = .ok q ∧
      archiveName q ≠ Archive.trailerName ∧
      slashed (archiveName q).toList = "." :: parts path ∧
      "." ∉ parts path ∧ ".." ∉ parts path := by
  refine ⟨⟨fun ⟨q, hq⟩ => ?_, fun h => ?_⟩, fun q hq => ?_⟩
  · exact (normalize_eq_ok_iff_acceptable.mp hq).1
  · exact ⟨_, normalize_eq_ok_iff_acceptable.mpr ⟨h, rfl⟩⟩
  · have hnul := nul_notMem_archiveName hq
    obtain ⟨h, rfl⟩ := normalize_eq_ok_iff_acceptable.mp hq
    have hparts : ∀ c ∈ parts path, IsPart c := fun c hc => isPart_of_mem_parts hc
    refine ⟨join_eq_intercalate h.ne_nil, fun path' q' hq' => ?_, normalize_normalize hq,
      normalize_of_parts_eq h hnul (parts_archiveName h.ne_nil hparts),
      archiveName_ne_trailerName _, slashed_archiveName hparts, h.notMem_current, h.notMem_above⟩
    obtain ⟨-, rfl⟩ := normalize_eq_ok_iff_acceptable.mp hq'
    exact ⟨join_parts_inj, congrArg join⟩

theorem normalize_canonical_spellings :
    Acceptable "./usr//bin/foo/" ∧ normalize "./usr//bin/foo/" = .ok "/usr/bin/foo" ∧
      normalize "usr/bin/foo" = .ok "/usr/bin/foo" ∧
      parts "usr/bin/foo" = parts "./usr//bin/foo/" ∧
      normalize "/usr/bin/foo" = .ok "/usr/bin/foo" ∧
      normalize "./usr/bin/foo" = .ok "/usr/bin/foo" ∧
      slashed (archiveName "/usr/bin/foo").toList = "." :: parts "./usr//bin/foo/" := by
  obtain ⟨haccepted, hnormal⟩ := normalize_canonical "./usr//bin/foo/"
  have hpath : normalize "./usr//bin/foo/" = .ok "/usr/bin/foo" := by decide
  have hother : normalize "usr/bin/foo" = .ok "/usr/bin/foo" := by decide
  obtain ⟨-, hsame, hagain, hname, -, hslashed, -⟩ := hnormal _ hpath
  exact ⟨haccepted.mp ⟨_, hpath⟩, hpath, hother, (hsame _ _ hother).mp rfl, hagain, hname, hslashed⟩

end Rpm.Path
