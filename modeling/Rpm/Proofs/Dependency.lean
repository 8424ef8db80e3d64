import Mathlib.Data.List.Basic
import Mathlib.Data.List.Sort
import Mathlib.Data.String.Basic
import Rpm.Dependency
import Rpm.Proofs.Header.Mapping

/-!
Dependencies of a kind as a set.

The order of dependencies tells all of them apart, so that a canonical list is the only ascending one
of its elements. A header holds it in three arrays, from which it is put together again.
-/

namespace Rpm

open Std (Antisymm Irrefl OrientedCmp ReflCmp TransCmp)

namespace Dependency

variable {a b c d : Dependency} {ds es : List Dependency}

/-! ### The order -/

/-- Whether a dependency stands before another one: by name, then by version, then by sense bits. -/
def Precedes (a b : Dependency) : Prop :=
  a.name < b.name ∨ a.name = b.name ∧
    (a.version < b.version ∨ a.version = b.version ∧ a.flags < b.flags)

instance : TransCmp Dependency.compare :=
  inferInstanceAs (TransCmp (compareLex (compareOn name)
    (compareLex (compareOn version) (compareOn flags))))

lemma compare_eq_lt_iff : a.compare b = .lt ↔ a.Precedes b := by
  simp only [compare, Ordering.then_eq_lt, Std.compare_eq_iff_eq, compare_lt_iff_lt,
    Std.compare_eq_lt, Precedes]

lemma eq_of_compare (h : a.compare b = .eq) : a = b := by
  obtain ⟨name, version, flags⟩ := a
  simp only [compare, Ordering.then_eq_eq, Std.compare_eq_iff_eq] at h
  obtain ⟨rfl, rfl, rfl⟩ := h
  rfl

lemma Precedes.trans (hab : a.Precedes b) (hbc : b.Precedes c) : a.Precedes c :=
  compare_eq_lt_iff.mp
    (TransCmp.lt_trans (compare_eq_lt_iff.mpr hab) (compare_eq_lt_iff.mpr hbc))

instance : Irrefl Precedes where
  irrefl d h := by
    have hlt := compare_eq_lt_iff.mpr h
    have hself : d.compare d = .eq := ReflCmp.compare_self
    rw [hself] at hlt
    contradiction

instance : Antisymm Precedes where
  antisymm d _ h h' := absurd (h.trans h') (Irrefl.irrefl d)

lemma isLE_compare_iff : (a.compare b).isLE = true ↔ a = b ∨ a.Precedes b := by
  rw [← compare_eq_lt_iff]
  constructor
  · intro h
    cases hc : a.compare b with
    | lt => exact .inr rfl
    | eq => exact .inl (eq_of_compare hc)
    | gt => simp [hc] at h
  · rintro (rfl | h)
    · exact ReflCmp.isLE_rfl
    · rw [h]
      rfl

/-! ### Canonical lists -/

lemma mem_dropRepeats : d ∈ dropRepeats ds ↔ d ∈ ds := by
  fun_induction dropRepeats ds with
  | case1 => rfl
  | case2 => rfl
  | case3 e ds ih => rw [ih, List.mem_cons (b := e) (l := e :: ds), List.mem_cons, or_self_left]
  | case4 e f ds hne ih => rw [List.mem_cons, ih, List.mem_cons (b := e)]

lemma pairwise_dropRepeats (h : ds.Pairwise fun a b => (a.compare b).isLE = true) :
    (dropRepeats ds).Pairwise Precedes := by
  fun_induction dropRepeats ds with
  | case1 => exact .nil
  | case2 => exact List.pairwise_singleton _ _
  | case3 e ds ih => exact ih h.of_cons
  | case4 e f ds hne ih =>
    refine List.pairwise_cons.mpr ⟨fun d hd => ?_, ih h.of_cons⟩
    have hef : e.Precedes f :=
      (isLE_compare_iff.mp (List.rel_of_pairwise_cons h List.mem_cons_self)).resolve_left hne
    rcases List.mem_cons.mp (mem_dropRepeats.mp hd) with rfl | hd
    · exact hef
    · rcases isLE_compare_iff.mp (List.rel_of_pairwise_cons h.of_cons hd) with rfl | hfd
      · exact hef
      · exact hef.trans hfd

lemma mem_canonical : d ∈ canonical ds ↔ d ∈ ds := by
  rw [canonical, mem_dropRepeats, List.mem_mergeSort]

lemma pairwise_canonical (ds : List Dependency) : (canonical ds).Pairwise Precedes := by
  refine pairwise_dropRepeats (List.pairwise_mergeSort (fun a b c hab hbc => ?_) (fun a b => ?_) ds)
  · exact TransCmp.isLE_trans hab hbc
  · rw [Bool.or_eq_true]
    cases hc : a.compare b with
    | lt => exact .inl rfl
    | eq => exact .inl rfl
    | gt => exact .inr (OrientedCmp.isLE_of_isGE (by rw [hc]; rfl))

/-- **Dependencies are a set.** The canonical list is the only ascending one of the same
dependencies. -/
lemma eq_canonical_of_pairwise (h : es.Pairwise Precedes) (hmem : ∀ d, d ∈ ds ↔ d ∈ es) :
    canonical ds = es :=
  (pairwise_canonical ds).eq_of_mem_iff h fun d => mem_canonical.trans (hmem d)

lemma canonical_congr (h : ∀ d, d ∈ ds ↔ d ∈ es) : canonical ds = canonical es :=
  eq_canonical_of_pairwise (pairwise_canonical es) fun d => (h d).trans mem_canonical.symm

end Dependency

/-! ### The arrays of a header -/

/-- The numbers of the tags of a kind of dependency. -/
def DependencyKind.tagIds (kind : DependencyKind) : List UInt32 :=
  [kind.tags.names.id, kind.tags.versions.id, kind.tags.flags.id]

namespace DependencyKind

variable {kind other : DependencyKind}

lemma mem_all (kind : DependencyKind) : kind ∈ all := by
  cases kind <;> decide

lemma tagIds_apart (hne : other ≠ kind) : ∀ t ∈ other.tagIds, t ∉ kind.tagIds := by
  -- as a computation, so that the tags are not looked for among all numbers
  have hall : (all.all fun kind => all.all fun other =>
      other = kind || other.tagIds.all (· ∉ kind.tagIds)) = true := by decide
  simp only [List.all_eq_true, Bool.or_eq_true, decide_eq_true_eq] at hall
  exact (hall kind (mem_all kind) other (mem_all other)).resolve_left hne

end DependencyKind

namespace Header

variable {h h' g : Header .metadata} {kind : DependencyKind} {ds es : List Dependency}

lemma setDependencies_eq (hne : ds ≠ []) : h.setDependencies kind ds = .ok
    (((h.setRaw kind.tags.names.id (.stringArray ((Dependency.canonical ds).map (·.name)))).setRaw
      kind.tags.versions.id (.stringArray ((Dependency.canonical ds).map (·.version)))).setRaw
        kind.tags.flags.id (.int32 ((Dependency.canonical ds).map (·.flags)))) := by
  have hempty : ds.isEmpty = false := by simpa using hne
  unfold setDependencies
  rw [hempty]
  cases kind <;> rfl

/-- It does not matter in which order dependencies come, and how often. -/
lemma setDependencies_congr (hmem : ∀ d, d ∈ ds ↔ d ∈ es) (h : Header .metadata) :
    h.setDependencies kind ds = h.setDependencies kind es := by
  have hnil : ds = [] ↔ es = [] := by
    rw [List.eq_nil_iff_forall_not_mem, List.eq_nil_iff_forall_not_mem]
    exact forall_congr' fun d => not_congr (hmem d)
  by_cases hds : ds = []
  · rw [hds, hnil.mp hds]
  · rw [setDependencies_eq hds, setDependencies_eq fun hes => hds (hnil.mpr hes),
      Dependency.canonical_congr hmem]

/-- What is read depends on three tags only. -/
lemma dependencies_congr (heq : ∀ t ∈ kind.tagIds, g.getRaw t = h.getRaw t) :
    g.dependencies kind = h.dependencies kind := by
  have hnames : g.get kind.tags.names = h.get kind.tags.names := heq _ (by simp [DependencyKind.tagIds])
  have hversions : g.get kind.tags.versions = h.get kind.tags.versions :=
    heq _ (by simp [DependencyKind.tagIds])
  have hflags : g.get kind.tags.flags = h.get kind.tags.flags :=
    heq _ (by simp [DependencyKind.tagIds])
  simp only [dependencies, getStrings, getUInt32s, typed, hnames, hversions, hflags]

/-- **The arrays are put together again.** -/
lemma dependencies_of_ne_nil (hne : ds ≠ []) (hset : h.setDependencies kind ds = .ok h') :
    h'.dependencies kind = .ok (Dependency.canonical ds) := by
  rw [setDependencies_eq hne] at hset
  obtain rfl := Except.ok.inj hset
  generalize Dependency.canonical ds = ds
  have hids : kind.tags.versions.id ≠ kind.tags.names.id ∧
      kind.tags.flags.id ≠ kind.tags.names.id ∧ kind.tags.flags.id ≠ kind.tags.versions.id := by
    cases kind <;> decide
  obtain ⟨hversions, hflags, hflags'⟩ := hids
  simp only [dependencies, getStrings, getUInt32s, typed, Header.get, getRaw_setRaw,
    if_neg hversions, if_neg hflags, if_neg hflags', if_true, Value.asStrings?,
    Value.asUInt32s?, bind, Except.bind]
  simp only [List.length_map, ne_eq, not_true_eq_false, decide_false, Bool.or_self,
    Bool.false_eq_true, if_false, List.zip_map', List.map_map]
  exact congrArg Except.ok (List.map_id ds)

lemma getRaw_of_setDependencies (hset : h.setDependencies kind ds = .ok h') {t : UInt32}
    (ht : t ∉ kind.tagIds) : h'.getRaw t = h.getRaw t := by
  by_cases hne : ds = []
  · subst hne
    obtain rfl : h = h' := Except.ok.inj hset
    rfl
  · rw [setDependencies_eq hne] at hset
    obtain rfl := Except.ok.inj hset
    simp only [DependencyKind.tagIds, List.mem_cons, List.not_mem_nil, or_false, not_or] at ht
    obtain ⟨hnames, hversions, hflags⟩ := ht
    rw [getRaw_setRaw, if_neg (Ne.symm hflags), getRaw_setRaw, if_neg (Ne.symm hversions),
      getRaw_setRaw, if_neg (Ne.symm hnames)]

/-- **Written dependencies are a set.** They are read back in ascending order, each once, and two lists
make the same header exactly if they have the same elements. The other kinds and all other tags stay
as they are, and nothing changes when the header is rendered, sorted or not, and read again. -/
theorem setDependencies_canonical {h : Header .metadata} {kind : DependencyKind}
    {ds : List Dependency} (nonempty : ds ≠ []) :
    ∃ h' es, h.setDependencies kind ds = .ok h' ∧ h'.dependencies kind = .ok es ∧
      es.Pairwise Dependency.Precedes ∧ (∀ d, d ∈ es ↔ d ∈ ds) ∧
      (∀ others, others ≠ [] →
        (h.setDependencies kind others = .ok h' ↔ ∀ d, d ∈ others ↔ d ∈ ds)) ∧
      (∀ other ≠ kind, h'.dependencies other = h.dependencies other) ∧
      (∀ t ∉ kind.tagIds, h'.getRaw t = h.getRaw t) ∧
      ∀ sort data, h'.render sort = .ok data → WithinLimits data → h'.Unambiguous →
        ∃ g : Header .metadata, Header.parse data = .ok g ∧ g.dependencies kind = .ok es := by
  have hset := @setDependencies_eq h kind _ nonempty
  have hread := dependencies_of_ne_nil nonempty hset
  refine ⟨_, Dependency.canonical ds, hset, hread, Dependency.pairwise_canonical ds,
    fun d => Dependency.mem_canonical, fun others hothers => ⟨fun hsame d => ?_, fun hmem => ?_⟩,
    fun other hne => ?_, fun t ht => getRaw_of_setDependencies hset ht,
    fun sort data rendered limits known => ?_⟩
  · have hread' := dependencies_of_ne_nil hothers hsame
    have hcanonical := Except.ok.inj (hread'.symm.trans hread)
    rw [← Dependency.mem_canonical, hcanonical, Dependency.mem_canonical]
  · rw [setDependencies_congr hmem, hset]
  · refine dependencies_congr fun t ht => ?_
    exact getRaw_of_setDependencies hset (DependencyKind.tagIds_apart hne t ht)
  · obtain ⟨g, hg, hraw⟩ := exists_parse_of_render rendered limits known
    exact ⟨g, hg, (dependencies_congr fun t _ => hraw t).trans hread⟩

/-- A dependency that is there twice, under sense bits that have no name, around another one. -/
def scattered : List Dependency :=
  [⟨"zlib", "1", 0x80000008⟩, ⟨"old", "", Sense.any⟩, ⟨"zlib", "1", 0x80000008⟩]

def gathered : List Dependency := [⟨"old", "", Sense.any⟩, ⟨"zlib", "1", 0x80000008⟩]

theorem setDependencies_canonical_scattered :
    ∃ h' : Header .metadata, Header.empty.setDependencies .require scattered = .ok h' ∧
      h'.dependencies .require = .ok gathered ∧
      Header.empty.setDependencies .require gathered = .ok h' := by
  obtain ⟨h', es, hset, hread, hascending, hmem, hsame, -⟩ :=
    @setDependencies_canonical .empty .require scattered (by decide)
  have hpair : gathered.Pairwise Dependency.Precedes := by
    refine List.pairwise_pair.mpr (Dependency.compare_eq_lt_iff.mp ?_)
    decide +kernel
  have hgathered : ∀ d, d ∈ gathered ↔ d ∈ scattered := by
    intro d
    simp only [gathered, scattered, List.mem_cons, List.not_mem_nil, or_false]
    tauto
  obtain rfl : es = gathered :=
    hascending.eq_of_mem_iff hpair fun d => (hmem d).trans (hgathered d).symm
  exact ⟨h', hset, hread, (hsame _ (by decide)).mpr hgathered⟩

end Header

end Rpm
