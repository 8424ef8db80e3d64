import Rpm.Package.Builder
import Rpm.Proofs.Dependency

/-!
The steps in which the metadata header of a package is built.

What describes the package, its scripts and its changes are values of tags of their own. So these
steps keep whatever a header says of other things: the files and the dependencies, which are arrays
that have to agree with each other.
-/

namespace Rpm

open Header

/-! ### Properties that steps keep -/

/-- Whether setting the value of any tag that is not among some tags keeps a property. -/
def KeptOutside (tags : List UInt32) (P : Header .metadata → Prop) : Prop :=
  ∀ (h : Header .metadata) (tag : Tag .metadata) value h', tag.id ∉ tags → P h →
    h.set tag value = .ok h' → P h'

/-- Whether a step that can fail keeps a property. -/
def Keeps (P : Header .metadata → Prop)
    (step : Header .metadata → Except Error (Header .metadata)) : Prop :=
  ∀ h h', P h → step h = .ok h' → P h'

/-- Lists of tags that have none in common, as can be seen by going through them. -/
lemma notMem_of_all {tags others : List UInt32}
    (h : tags.all (fun t => !others.contains t) = true) : ∀ t ∈ tags, t ∉ others := by
  intro t ht hmem
  have hnot := List.all_eq_true.mp h t ht
  rw [List.contains_iff_mem.mpr hmem] at hnot
  contradiction

lemma Header.KeptBySet.outside {P : Header .metadata → Prop} (kept : KeptBySet P)
    (tags : List UInt32) : KeptOutside tags P :=
  fun h tag value h' _ => kept h tag value h'

lemma keptOutside_getRaw {tags : List UInt32} {t : UInt32} (ht : t ∈ tags) (value : Option Value) :
    KeptOutside tags fun h => h.getRaw t = value := by
  intro h tag v h' htag hvalue hset
  obtain ⟨-, rfl⟩ := set_eq_ok_iff.mp hset
  have hne : tag.id ≠ t := fun heq => htag (heq ▸ ht)
  rw [getRaw_setRaw, if_neg hne, hvalue]

open MetadataTag in
/-- The tags of what describes the package, its size, its scripts and its changes. -/
def plainTags : List (Tag .metadata) := [
  headerI18nTable, name, version, release, epoch, summary, description, buildTime, buildHost,
  license, group, url, vendor, packager, os, arch, sourceRpm, encoding, size, longSize,
  prein, postin, preun, postun, preinProg, postinProg, preunProg, postunProg, preinFlags,
  postinFlags, preunFlags, postunFlags, changelogTime, changelogName, changelogText]

section Keeps

variable {P : Header .metadata → Prop} {tags : List UInt32}
  {f g : Header .metadata → Except Error (Header .metadata)}

lemma Keeps.pure : Keeps P (fun h => .ok h) := by
  intro h h' hp hstep
  exact Except.ok.inj hstep ▸ hp

lemma Keeps.bind (hf : Keeps P f) (hg : Keeps P g) : Keeps P fun h => f h >>= g := by
  intro h h' hp hstep
  obtain ⟨m, hm, hstep⟩ := bind_eq_ok_iff.mp hstep
  exact hg m h' (hf h m hp hm) hstep

lemma KeptOutside.set (kept : KeptOutside tags P) {tag : Tag .metadata} {value : Value}
    (htag : tag.id ∉ tags) : Keeps P fun h => h.set tag value :=
  fun h h' => kept h tag value h' htag

lemma Keeps.foldlM {α : Type} {step : Header .metadata → α → Except Error (Header .metadata)}
    {xs : List α} (hstep : ∀ x ∈ xs, Keeps P fun h => step h x) :
    Keeps P fun h => xs.foldlM step h :=
  fun _ _ hp hfold =>
    foldlM_induction hp (fun b x b' hx hb hb' => hstep x hx b b' hb hb') hfold

variable (kept : KeptOutside tags P)
include kept

lemma keeps_setDependencies {kind : DependencyKind} (apart : ∀ t ∈ kind.tagIds, t ∉ tags)
    (ds : List Dependency) : Keeps P fun h => h.setDependencies kind ds := by
  have hnames : kind.tags.names.id ∉ tags := apart _ (by simp [DependencyKind.tagIds])
  have hversions : kind.tags.versions.id ∉ tags := apart _ (by simp [DependencyKind.tagIds])
  have hflags : kind.tags.flags.id ∉ tags := apart _ (by simp [DependencyKind.tagIds])
  unfold Header.setDependencies
  split
  · exact .pure
  · exact .bind (kept.set hnames) (.bind (kept.set hversions) (kept.set hflags))

variable (apart : ∀ t ∈ plainTags, t.id ∉ tags)
include apart

lemma keeps_setOptional {tag : Tag .metadata} (htag : tag ∈ plainTags) (s : Option String) :
    Keeps P fun h => PackageBuilder.setOptional h tag s := by
  cases s with
  | none => exact .pure
  | some s => exact kept.set (apart _ htag)

lemma keeps_setDescription (b : PackageBuilder) (buildTime : UInt32) :
    Keeps P fun h => b.setDescription h buildTime := by
  have hset : ∀ {tag : Tag .metadata} {value : Value}, tag ∈ plainTags →
      Keeps P fun h => h.set tag value := fun htag => kept.set (apart _ htag)
  unfold PackageBuilder.setDescription
  refine .bind (hset (by decide)) (.bind (hset (by decide)) (.bind (hset (by decide))
    (.bind (hset (by decide)) ?_)))
  -- With an epoch or without one, the same steps follow.
  cases b.epoch
  case' none => refine .bind .pure ?_
  case' some => refine .bind (hset (by decide)) ?_
  all_goals
    refine .bind (hset (by decide)) (.bind (hset (by decide)) (.bind (hset (by decide))
      (.bind (hset (by decide)) (.bind (hset (by decide)) (.bind (hset (by decide)) ?_)))))
    refine .bind (keeps_setOptional kept apart (by decide) _)
      (.bind (keeps_setOptional kept apart (by decide) _)
        (.bind (keeps_setOptional kept apart (by decide) _) ?_))
    exact .bind (hset (by decide)) (.bind (hset (by decide)) (.bind (hset (by decide))
      (hset (by decide))))

lemma keeps_setSize (n : Nat) :
    Keeps P fun h => h.setSize MetadataTag.size MetadataTag.longSize n := by
  unfold Header.setSize
  split
  · exact kept.set (apart _ (by decide))
  · exact kept.set (apart _ (by decide))

lemma keeps_setScriptEntries (script : ScriptKind × String) :
    Keeps P fun h => PackageBuilder.setScriptEntries h script := by
  obtain ⟨kind, text⟩ := script
  have htags : kind.textTag ∈ plainTags ∧ kind.programTag ∈ plainTags ∧
      kind.flagsTag ∈ plainTags := by
    cases kind <;> decide
  exact .bind (kept.set (apart _ htags.1))
    (.bind (kept.set (apart _ htags.2.1)) (kept.set (apart _ htags.2.2)))

lemma keeps_setChanges (changes : List Change) :
    Keeps P fun h => PackageBuilder.setChanges h changes := by
  unfold PackageBuilder.setChanges
  split
  · exact .pure
  · exact .bind (kept.set (apart _ (by decide)))
      (.bind (kept.set (apart _ (by decide))) (kept.set (apart _ (by decide))))

end Keeps

/-! ### The header as a whole -/

/-- Whether a header comes from another one by setting plain tags: what no plain tag says anything
about still holds. -/
def SetPlainly (h h' : Header .metadata) : Prop :=
  ∀ tags P, KeptOutside tags P → (∀ t ∈ plainTags, t.id ∉ tags) → P h → P h'

/-- A header is built in five steps, of which only the second one sets the arrays of files, and the
fourth one those of dependencies. -/
lemma exists_of_metadataHeader {b : PackageBuilder} {evr : Version} {buildTime : UInt32}
    {files : List FileRecord} {h : Header .metadata}
    (hm : b.metadataHeader evr buildTime files = .ok h) :
    ∃ h₁ h₂ h₃ h₄, SetPlainly .empty h₁ ∧ h₁.setFiles files b.fileDigest = .ok h₂ ∧
      SetPlainly h₂ h₃ ∧ DependencyKind.all.foldlM
        (fun h kind => h.setDependencies kind (b.dependenciesOf evr kind)) h₃ = .ok h₄ ∧
      SetPlainly h₄ h := by
  simp only [PackageBuilder.metadataHeader, bind_eq_ok_iff] at hm
  obtain ⟨m₁, hm₁, h₁, hh₁, h₂, hh₂, h₃, hh₃, h₄, hh₄, hm⟩ := hm
  refine ⟨h₁, h₂, h₃, h₄, fun tags P kept apart start => ?_, hh₂, fun tags P kept apart start => ?_,
    hh₄, fun tags P kept apart start => ?_⟩
  · have hdescribed : P m₁ := keeps_setDescription kept apart b buildTime _ m₁ start hm₁
    exact keeps_setSize kept apart _ m₁ h₁ hdescribed hh₁
  · exact Keeps.foldlM (fun script _ => keeps_setScriptEntries kept apart script) h₂ h₃ start hh₃
  · exact keeps_setChanges kept apart b.changes h₄ h start hm

end Rpm
