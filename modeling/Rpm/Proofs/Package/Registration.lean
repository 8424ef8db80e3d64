import Mathlib.Data.List.Induction
import Mathlib.Data.String.Basic
import Rpm.Package.Builder
import Rpm.Proofs.Except

/-!
Files registered with a package.

Registering puts a file into its place by the order of paths, or in place of the one that has its
path. So after any registrations, the files stand in that order, each path once, and each with the
last file that was registered for it.
-/

namespace Rpm.PackageBuilder

/-- A file to be registered. -/
structure Registration where
  path : String
  source : FileSource
  options : FileOptions

def addFiles (b : PackageBuilder) (registrations : List Registration) :
    Except Error PackageBuilder :=
  registrations.foldlM (fun b r => b.addFile r.path r.source r.options) b

/-- Whether a file is the last one that is registered for a path. -/
def LastOf (registrations : List Registration) (path : String) (file : PackageFile) : Prop :=
  ∃ before r after, registrations = before ++ r :: after ∧ Path.normalize r.path = .ok path ∧
    file = ⟨r.source, r.options⟩ ∧ ∀ r' ∈ after, Path.normalize r'.path ≠ .ok path

/-! ### One file -/

variable {files : List (String × PackageFile)} {path : String} {file : PackageFile}

/-- Whether files stand in the order of their paths, each path once. -/
def Ordered (files : List (String × PackageFile)) : Prop := files.Pairwise fun f g => f.1 < g.1

lemma Ordered.lt_of_mem {p : String} {old : PackageFile} {f : String × PackageFile}
    (h : Ordered ((p, old) :: files)) (hf : f ∈ files) : p < f.1 :=
  (List.pairwise_cons.mp h).1 f hf

lemma Ordered.tail {f : String × PackageFile} (h : Ordered (f :: files)) : Ordered files :=
  (List.pairwise_cons.mp h).2

lemma mem_insertFile_iff (h : Ordered files) {f : String × PackageFile} :
    f ∈ insertFile path file files ↔ f = (path, file) ∨ f ∈ files ∧ f.1 ≠ path := by
  induction files with
  | nil => simp [insertFile]
  | cons g files ih =>
    obtain ⟨p, old⟩ := g
    rw [insertFile]
    split
    · rename_i hlt
      -- The path is not there yet, since all others are greater.
      have hne : f ∈ (p, old) :: files → f.1 ≠ path := by
        intro hf
        refine (lt_of_lt_of_le (compare_lt_iff_lt.mp hlt) ?_).ne'
        rcases List.mem_cons.mp hf with rfl | hf
        · exact le_refl p
        · exact (h.lt_of_mem hf).le
      rw [List.mem_cons]
      exact or_congr_right ⟨fun hf => ⟨hf, hne hf⟩, And.left⟩
    · rename_i heq
      obtain rfl : path = p := compare_eq_iff_eq.mp heq
      have hne : f ∈ files → f.1 ≠ path := fun hf => (h.lt_of_mem hf).ne'
      rw [List.mem_cons, List.mem_cons]
      refine or_congr_right ⟨fun hf => ⟨Or.inr hf, hne hf⟩, ?_⟩
      rintro ⟨rfl | hf, hpath⟩
      · exact absurd rfl hpath
      · exact hf
    · rename_i hgt
      have hlt : p < path := compare_gt_iff_gt.mp hgt
      rw [List.mem_cons, List.mem_cons, ih h.tail]
      constructor
      · rintro (rfl | rfl | ⟨hf, hpath⟩)
        · exact Or.inr ⟨Or.inl rfl, hlt.ne⟩
        · exact Or.inl rfl
        · exact Or.inr ⟨Or.inr hf, hpath⟩
      · rintro (rfl | ⟨rfl | hf, hpath⟩)
        · exact Or.inr (Or.inl rfl)
        · exact Or.inl rfl
        · exact Or.inr (Or.inr ⟨hf, hpath⟩)

lemma ordered_insertFile (h : Ordered files) : Ordered (insertFile path file files) := by
  induction files with
  | nil => exact List.pairwise_singleton _ _
  | cons g files ih =>
    obtain ⟨p, old⟩ := g
    rw [insertFile]
    split
    · rename_i hlt
      refine List.pairwise_cons.mpr ⟨fun f hf => ?_, h⟩
      have hlt' : path < p := compare_lt_iff_lt.mp hlt
      rcases List.mem_cons.mp hf with rfl | hf
      · exact hlt'
      · exact hlt'.trans (h.lt_of_mem hf)
    · rename_i heq
      obtain rfl : path = p := compare_eq_iff_eq.mp heq
      exact List.pairwise_cons.mpr ⟨fun f hf => h.lt_of_mem hf, h.tail⟩
    · rename_i hgt
      refine List.pairwise_cons.mpr ⟨fun f hf => ?_, ih h.tail⟩
      rcases (mem_insertFile_iff h.tail).mp hf with rfl | ⟨hf, -⟩
      · exact compare_gt_iff_gt.mp hgt
      · exact h.lt_of_mem hf

variable {b b' : PackageBuilder} {source : FileSource} {options : FileOptions}

lemma addFile_eq_ok (h : b.addFile path source options = .ok b') :
    ∃ q, Path.normalize path = .ok q ∧
      b' = { b with files := insertFile q ⟨source, options⟩ b.files } := by
  have hrest : (do
      let q ← Path.normalize path
      return { b with files := insertFile q ⟨source, options⟩ b.files }) = Except.ok b' := by
    unfold addFile at h
    split at h
    · split at h
      · simp [throw, throwThe, MonadExceptOf.throw, bind, Except.bind] at h
      · exact h
    · exact h
  obtain ⟨q, hq, h⟩ := bind_eq_ok_iff.mp hrest
  exact ⟨q, hq, (pure_eq_ok_iff.mp h).symm⟩

/-! ### All files -/

variable {registrations : List Registration}

lemma lastOf_concat_iff {r : Registration} :
    LastOf (registrations ++ [r]) path file ↔
      (Path.normalize r.path = .ok path ∧ file = ⟨r.source, r.options⟩) ∨
        LastOf registrations path file ∧ Path.normalize r.path ≠ .ok path := by
  constructor
  · rintro ⟨before, r', after, heq, hpath, hfile, hlast⟩
    -- If nothing follows the file, it is the one that comes last of all.
    rcases List.eq_nil_or_concat' after with rfl | ⟨after, r'', rfl⟩
    · obtain ⟨-, hr⟩ := List.append_inj' heq rfl
      obtain rfl := List.singleton_inj.mp hr
      exact Or.inl ⟨hpath, hfile⟩
    · rw [← List.cons_append, ← List.append_assoc] at heq
      obtain ⟨hbefore, hr⟩ := List.append_inj' heq rfl
      obtain rfl := List.singleton_inj.mp hr
      exact Or.inr ⟨⟨before, r', after, hbefore, hpath, hfile,
        fun r' hr' => hlast r' (by simp [hr'])⟩, hlast r (by simp)⟩
  · rintro (⟨hpath, hfile⟩ | ⟨⟨before, r', after, rfl, hpath, hfile, hlast⟩, hne⟩)
    · exact ⟨registrations, r, [], rfl, hpath, hfile, by simp⟩
    · refine ⟨before, r', after ++ [r], by simp, hpath, hfile, fun r'' hr'' => ?_⟩
      rcases List.mem_append.mp hr'' with hr'' | hr''
      · exact hlast r'' hr''
      · exact List.mem_singleton.mp hr'' ▸ hne

/-- **What is registered**: the files in the order of their paths, and for each path the last file
that was registered for it. Nothing else of the builder changes. -/
lemma addFiles_eq_ok (hempty : b.files = []) (h : b.addFiles registrations = .ok b') :
    (∃ files, b' = { b with files }) ∧ Ordered b'.files ∧
      ∀ path file, (path, file) ∈ b'.files ↔ LastOf registrations path file := by
  induction registrations using List.reverseRecOn generalizing b' with
  | nil =>
    obtain rfl := pure_eq_ok_iff.mp h
    refine ⟨⟨b.files, rfl⟩, by rw [hempty]; exact .nil, fun path file => ?_⟩
    rw [hempty]
    refine iff_of_false (by simp) ?_
    rintro ⟨before, r, after, heq, -⟩
    exact absurd heq (by simp)
  | append_singleton registrations r ih =>
    rw [addFiles, List.foldlM_append] at h
    obtain ⟨c, hc, h⟩ := bind_eq_ok_iff.mp h
    obtain ⟨⟨files, hfiles⟩, hordered, hmem⟩ := ih hc
    rw [List.foldlM_cons] at h
    obtain ⟨c', hadd, h⟩ := bind_eq_ok_iff.mp h
    obtain rfl := pure_eq_ok_iff.mp h
    obtain ⟨q, hq, rfl⟩ := addFile_eq_ok hadd
    refine ⟨⟨_, by rw [hfiles]⟩, ordered_insertFile hordered, fun path file => ?_⟩
    rw [mem_insertFile_iff hordered, hmem, lastOf_concat_iff, hq]
    simp only [Except.ok.injEq, Prod.mk.injEq, ne_eq]
    refine or_congr (and_congr_left fun _ => eq_comm) (and_congr_right fun _ => not_congr eq_comm)

end Rpm.PackageBuilder
