import Rpm.Proofs.Package.Dependencies

/-!
Packages whose parts are registered in another order.

The files of a builder are kept in the order of their paths, its scripts are looked up by kind, and
its dependencies become a set when they are written. So what is built depends only on what has been
registered; only changes are listed in the order in which they were added.
-/

namespace Rpm.PackageBuilder

/-- What can be registered with a builder. -/
inductive Item where
  | file (registration : Registration)
  | dependency (kind : DependencyKind) (d : Dependency)
  | script (kind : ScriptKind) (text : String)
  | change (change : Change)

def register (b : PackageBuilder) : Item → Except Error PackageBuilder
  | .file r => b.addFile r.path r.source r.options
  | .dependency kind d => .ok (b.addDependency kind d)
  | .script kind text => .ok (b.setScript kind text)
  | .change change => .ok (b.addChange change)

def registerAll (b : PackageBuilder) (items : List Item) : Except Error PackageBuilder :=
  items.foldlM register b

namespace Item

def file? : Item → Option Registration
  | file r => some r
  | _ => none

def dependency? : Item → Option (DependencyKind × Dependency)
  | dependency kind d => some (kind, d)
  | _ => none

def script? : Item → Option (ScriptKind × String)
  | script kind text => some (kind, text)
  | _ => none

def change? : Item → Option Change
  | change c => some c
  | _ => none

lemma mem_filterMap_dependency? {items : List Item} {kind : DependencyKind} {d : Dependency} :
    (kind, d) ∈ items.filterMap dependency? ↔ dependency kind d ∈ items := by
  rw [List.mem_filterMap]
  constructor
  · rintro ⟨item, hitem, heq⟩
    cases item with
    | dependency k e =>
      obtain ⟨rfl, rfl⟩ := Prod.mk.inj (Option.some.inj heq)
      exact hitem
    | _ => contradiction
  · exact fun hitem => ⟨_, hitem, rfl⟩

/-- Whether the same is registered, in whatever order but that of the changes. No path and no kind of
script comes twice; dependencies may. -/
structure Reordered (items others : List Item) : Prop where
  files : (items.filterMap file?).Perm (others.filterMap file?)
  paths : (items.filterMap file?).Pairwise fun r s => Path.normalize r.path ≠ Path.normalize s.path
  dependencies : ∀ kind d, dependency kind d ∈ items ↔ dependency kind d ∈ others
  scripts : (items.filterMap script?).Perm (others.filterMap script?)
  kinds : ((items.filterMap script?).map Prod.fst).Nodup
  changes : items.filterMap change? = others.filterMap change?

end Item

variable {b b₁ : PackageBuilder}

/-! ### Packages of like builders -/

/-- The builder with other dependencies, scripts and changes. -/
def withOthers (b : PackageBuilder) (dependencies : List (DependencyKind × Dependency))
    (scripts : List (ScriptKind × String)) (changes : List Change) : PackageBuilder :=
  { b with dependencies, scripts, changes }

variable {dependencies : List (DependencyKind × Dependency)}
  {scripts : List (ScriptKind × String)} {changes : List Change}

lemma build_congr
    (hdependencies : ∀ kind d, (kind, d) ∈ dependencies ↔ (kind, d) ∈ b.dependencies)
    (hscripts : ∀ kind, scripts.lookup kind = b.scripts.lookup kind) {τ : Type} [ByteSink τ]
    (sink : τ) : (b.withOthers dependencies scripts b.changes).build sink = b.build sink := by
  set other := b.withOthers dependencies scripts b.changes with hother
  have hordered : other.orderedScripts = b.orderedScripts := by
    simp only [orderedScripts, hother, withOthers, hscripts]
  have hmem : ∀ evr kind d, d ∈ other.dependenciesOf evr kind ↔ d ∈ b.dependenciesOf evr kind := by
    intro evr kind d
    have hadded : d ∈ other.addedDependencies kind ↔ d ∈ b.addedDependencies kind := by
      rw [mem_addedDependencies, mem_addedDependencies]
      exact hdependencies kind d
    unfold dependenciesOf
    rw [List.mem_append, List.mem_append, hadded, hordered]
    rfl
  have hheader : ∀ evr buildTime files,
      other.metadataHeader evr buildTime files = b.metadataHeader evr buildTime files := by
    intro evr buildTime files
    unfold metadataHeader
    simp only [hordered, Header.setDependencies_congr (hmem evr _)]
    rfl
  have hcontent : other.content = b.content := by
    unfold content
    simp only [hheader]
    rfl
  unfold build
  rw [hcontent]
  rfl

/-! ### Files -/

/-- The place of a file: its path in normal form, if that and the target of a link are valid. -/
def Registration.place (r : Registration) : Except Error String := do
  match r.source with
  | .symlink target => if !Recorder.isTarget target then throw (.invalidPath target)
  | _ => pure ()
  Path.normalize r.path

lemma addFile_eq (b : PackageBuilder) (r : Registration) :
    b.addFile r.path r.source r.options = r.place.map fun path =>
      { b with files := insertFile path ⟨r.source, r.options⟩ b.files } := by
  obtain ⟨path, source, options⟩ := r
  unfold addFile Registration.place
  cases source with
  | symlink target =>
    simp only
    split
    · rfl
    · cases Path.normalize path <;> rfl
  | _ => cases Path.normalize path <;> rfl

lemma exists_addFiles_iff {registrations : List Registration} :
    (∃ c, b.addFiles registrations = .ok c) ↔ ∀ r ∈ registrations, ∃ path, r.place = .ok path := by
  induction registrations generalizing b with
  | nil => simp [addFiles, pure, Except.pure]
  | cons r registrations ih =>
    rw [List.forall_mem_cons, addFiles, List.foldlM_cons, addFile_eq]
    cases hr : r.place with
    | error e => simp [Except.map, bind, Except.bind]
    | ok path =>
      simp only [Except.map, bind, Except.bind, Except.ok.injEq, exists_eq', true_and]
      exact ih

lemma lastOf_iff_of_pairwise {registrations : List Registration} {path : String}
    {file : PackageFile}
    (hpaths : registrations.Pairwise fun r s => Path.normalize r.path ≠ Path.normalize s.path) :
    LastOf registrations path file ↔ ∃ r ∈ registrations, Path.normalize r.path = .ok path ∧
      file = ⟨r.source, r.options⟩ := by
  constructor
  · rintro ⟨before, r, after, rfl, hpath, hfile, -⟩
    exact ⟨r, by simp, hpath, hfile⟩
  · rintro ⟨r, hr, hpath, hfile⟩
    obtain ⟨before, after, rfl⟩ := List.append_of_mem hr
    refine ⟨before, r, after, rfl, hpath, hfile, fun s hs hsame => ?_⟩
    have hafter := (List.pairwise_append.mp hpaths).2.1
    exact (List.pairwise_cons.mp hafter).1 s hs (hpath.trans hsame.symm)

lemma Ordered.eq_of_mem_iff {files others : List (String × PackageFile)} (h : Ordered files)
    (h' : Ordered others) (hmem : ∀ f, f ∈ files ↔ f ∈ others) : files = others := by
  have : Std.Irrefl fun f g : String × PackageFile => f.1 < g.1 := ⟨fun f => lt_irrefl f.1⟩
  have : Std.Antisymm fun f g : String × PackageFile => f.1 < g.1 :=
    ⟨fun _ _ hfg hgf => absurd hgf (lt_asymm hfg)⟩
  exact List.Pairwise.eq_of_mem_iff h h' hmem

/-- **Files in another order** are put into the same places. -/
lemma addFiles_perm {registrations others : List Registration} {c : PackageBuilder}
    (unregistered : b.files = []) (hperm : registrations.Perm others)
    (hpaths : registrations.Pairwise fun r s => Path.normalize r.path ≠ Path.normalize s.path)
    (hadded : b.addFiles registrations = .ok c) : b.addFiles others = .ok c := by
  have hplaces : ∀ r ∈ others, ∃ path, r.place = .ok path := fun r hr =>
    exists_addFiles_iff.mp ⟨c, hadded⟩ r (hperm.mem_iff.mpr hr)
  obtain ⟨c', hadded'⟩ := exists_addFiles_iff.mpr hplaces
  obtain ⟨⟨files, rfl⟩, hordered, hmem⟩ := addFiles_eq_ok unregistered hadded
  obtain ⟨⟨files', rfl⟩, hordered', hmem'⟩ := addFiles_eq_ok unregistered hadded'
  have hpaths' := (hperm.pairwise_iff fun h => h.symm).mp hpaths
  have hfiles : files = files' := by
    refine hordered.eq_of_mem_iff hordered' fun ⟨path, file⟩ => ?_
    rw [hmem, hmem', lastOf_iff_of_pairwise hpaths, lastOf_iff_of_pairwise hpaths']
    simp only [hperm.mem_iff]
  rw [hadded', hfiles]

/-! ### Scripts -/

/-- Sets scripts in turn, each in place of an earlier one of its kind. -/
def setScripts (scripts new : List (ScriptKind × String)) : List (ScriptKind × String) :=
  new.foldl (fun scripts script => script :: scripts.filter (·.1 ≠ script.1)) scripts

lemma lookup_filter_ne {kind other : ScriptKind} (hne : other ≠ kind)
    (scripts : List (ScriptKind × String)) :
    (scripts.filter (·.1 ≠ kind)).lookup other = scripts.lookup other := by
  induction scripts with
  | nil => rfl
  | cons script scripts ih =>
    obtain ⟨k, text⟩ := script
    by_cases hk : k = kind
    · have hother : (other == k) = false := by simpa [hk] using hne
      rw [List.filter_cons_of_neg (by simp [hk]), List.lookup_cons, hother]
      exact ih
    · rw [List.filter_cons_of_pos (by simp [hk]), List.lookup_cons, List.lookup_cons, ih]

lemma lookup_setScripts_eq_some_iff {scripts new : List (ScriptKind × String)}
    (hkinds : (new.map Prod.fst).Nodup) {kind : ScriptKind} {text : String} :
    (setScripts scripts new).lookup kind = some text ↔
      (kind, text) ∈ new ∨ kind ∉ new.map Prod.fst ∧ scripts.lookup kind = some text := by
  induction new generalizing scripts with
  | nil => simp [setScripts]
  | cons script new ih =>
    obtain ⟨k, t⟩ := script
    rw [List.map_cons, List.nodup_cons] at hkinds
    obtain ⟨hk, hkinds⟩ := hkinds
    have hfold : setScripts scripts ((k, t) :: new) =
        setScripts ((k, t) :: scripts.filter (·.1 ≠ k)) new := rfl
    rw [hfold, ih hkinds, List.map_cons, List.mem_cons, List.mem_cons, not_or]
    by_cases hkind : kind = k
    · subst hkind
      have hnew : (kind, text) ∉ new := fun hmem => hk (List.mem_map.mpr ⟨_, hmem, rfl⟩)
      simp [hnew, hk, eq_comm]
    · have hother : (kind == k) = false := by simpa using hkind
      rw [List.lookup_cons, hother, lookup_filter_ne hkind]
      simp [hkind]

lemma lookup_setScripts_perm {scripts new others : List (ScriptKind × String)}
    (hperm : new.Perm others) (hkinds : (new.map Prod.fst).Nodup) (kind : ScriptKind) :
    (setScripts scripts others).lookup kind = (setScripts scripts new).lookup kind := by
  refine Option.ext fun text => ?_
  have hkinds' : (others.map Prod.fst).Nodup := ((hperm.map Prod.fst).nodup_iff).mp hkinds
  rw [lookup_setScripts_eq_some_iff hkinds', lookup_setScripts_eq_some_iff hkinds, hperm.mem_iff,
    (hperm.map Prod.fst).mem_iff]

/-! ### All items -/

lemma addFiles_withOthers (registrations : List Registration) :
    (b.withOthers dependencies scripts changes).addFiles registrations =
      (b.addFiles registrations).map (·.withOthers dependencies scripts changes) := by
  induction registrations generalizing b with
  | nil => rfl
  | cons r registrations ih =>
    rw [addFiles, addFiles, List.foldlM_cons, List.foldlM_cons, addFile_eq, addFile_eq]
    cases r.place with
    | error e => rfl
    | ok path => exact ih (b := { b with files := insertFile path ⟨r.source, r.options⟩ b.files })

lemma registerAll_eq (items : List Item) : b.registerAll items =
    (b.addFiles (items.filterMap Item.file?)).map (·.withOthers
      (b.dependencies ++ items.filterMap Item.dependency?)
      (setScripts b.scripts (items.filterMap Item.script?))
      (b.changes ++ items.filterMap Item.change?)) := by
  induction items generalizing b with
  | nil =>
    simp only [List.filterMap_nil, List.append_nil]
    rfl
  | cons item items ih =>
    have hcons : b.registerAll (item :: items) = b.register item >>= (·.registerAll items) :=
      List.foldlM_cons
    have hrest : ∀ dependencies scripts changes,
        (b.withOthers dependencies scripts changes).registerAll items =
          (b.addFiles (items.filterMap Item.file?)).map (·.withOthers
            (dependencies ++ items.filterMap Item.dependency?)
            (setScripts scripts (items.filterMap Item.script?))
            (changes ++ items.filterMap Item.change?)) := by
      intro dependencies scripts changes
      rw [ih, addFiles_withOthers]
      cases b.addFiles (items.filterMap Item.file?) <;> rfl
    rw [hcons]
    cases item with
    | file r =>
      have hfiles : b.addFiles ((Item.file r :: items).filterMap Item.file?) =
          b.register (.file r) >>= (·.addFiles (items.filterMap Item.file?)) := List.foldlM_cons
      rw [hfiles]
      cases hadd : b.register (.file r) with
      | error e => rfl
      | ok c =>
        obtain ⟨path, -, rfl⟩ := addFile_eq_ok hadd
        exact ih
    | dependency kind d =>
      have h := hrest (b.dependencies ++ [(kind, d)]) b.scripts b.changes
      rw [List.append_assoc] at h
      exact h
    | script kind text =>
      exact hrest b.dependencies ((kind, text) :: b.scripts.filter (·.1 ≠ kind)) b.changes
    | change change =>
      have h := hrest b.dependencies b.scripts (b.changes ++ [change])
      rw [List.append_assoc] at h
      exact h

/-- **Packages do not depend on the order in which their parts are registered.** Whatever can be
registered can be in any other order, and then the same is written to a sink, or the same error
occurs; files have to have different paths and scripts different kinds, changes stay in their
order, and how often a dependency is added does not matter. -/
theorem build_of_reordered {items others : List Item} (unregistered : b.files = [])
    (reordered : Item.Reordered items others) (registered : b.registerAll items = .ok b₁) :
    ∃ b₂, b.registerAll others = .ok b₂ ∧
      ∀ {τ : Type} [ByteSink τ] (sink : τ), b₂.build sink = b₁.build sink := by
  rw [registerAll_eq] at registered
  obtain ⟨c, hadded, rfl⟩ := map_eq_ok_iff.mp registered
  have hadded' := addFiles_perm unregistered reordered.files reordered.paths hadded
  refine ⟨_, by rw [registerAll_eq, hadded']; rfl, fun sink => ?_⟩
  rw [← reordered.changes]
  have hdependencies : ∀ kind d, (kind, d) ∈ b.dependencies ++ others.filterMap Item.dependency? ↔
      (kind, d) ∈ b.dependencies ++ items.filterMap Item.dependency? := by
    intro kind d
    rw [List.mem_append, List.mem_append, Item.mem_filterMap_dependency?,
      Item.mem_filterMap_dependency?, reordered.dependencies]
  exact build_congr (b := c.withOthers _ _ _) hdependencies
    (lookup_setScripts_perm reordered.scripts reordered.kinds) sink

/-- A program and a link to it, with what they require. -/
def serviceItems : List Item := [
  .file ⟨"/opt/tool", .data "tool".toUTF8, { permissions := 0o755 }⟩,
  .dependency .require ⟨"zlib", "1", Sense.equal⟩,
  .script .postInstall "true",
  .change ⟨1, "first", "added"⟩,
  .file ⟨"opt//link", .symlink "tool", { permissions := 0o777 }⟩,
  .script .preUninstall "false",
  .dependency .conflict ⟨"old", "", Sense.any⟩,
  .change ⟨2, "second", "changed"⟩]

def shuffledItems : List Item := [
  .dependency .conflict ⟨"old", "", Sense.any⟩,
  .change ⟨1, "first", "added"⟩,
  .script .preUninstall "false",
  .file ⟨"opt//link", .symlink "tool", { permissions := 0o777 }⟩,
  .dependency .require ⟨"zlib", "1", Sense.equal⟩,
  .change ⟨2, "second", "changed"⟩,
  .file ⟨"/opt/tool", .data "tool".toUTF8, { permissions := 0o755 }⟩,
  .dependency .conflict ⟨"old", "", Sense.any⟩,
  .script .postInstall "true"]

theorem build_of_reordered_shuffledItems :
    ∃ b₁ b₂, toolBuilder.registerAll serviceItems = .ok b₁ ∧
      toolBuilder.registerAll shuffledItems = .ok b₂ ∧
      b₂.build ({} : Sink) = b₁.build ({} : Sink) := by
  have hpath : Path.normalize "/opt/tool" = .ok "/opt/tool" := by decide +kernel
  have hpath' : Path.normalize "opt//link" = .ok "/opt/link" := by decide +kernel
  have hregistered : ∃ b₁, toolBuilder.registerAll serviceItems = .ok b₁ ∧ b₁.files.length = 2 :=
    exists_of_any (by decide +kernel)
  obtain ⟨b₁, hregistered, -⟩ := hregistered
  have hreordered : Item.Reordered serviceItems shuffledItems := {
    files := List.Perm.swap _ _ _
    paths := by
      simp [serviceItems, List.filterMap_cons, Item.file?, hpath, hpath']
    dependencies := by
      intro kind d
      simp only [serviceItems, shuffledItems, List.mem_cons, List.not_mem_nil, or_false,
        reduceCtorEq, false_or]
      tauto
    scripts := List.Perm.swap _ _ _
    kinds := by decide
    changes := rfl }
  obtain ⟨b₂, hregistered', hbuild⟩ := build_of_reordered rfl hreordered hregistered
  exact ⟨b₁, b₂, hregistered, hregistered', hbuild _⟩

end Rpm.PackageBuilder
