import Mathlib.Data.List.Nodup
import Rpm.Proofs.Header.RoundTrip

/-!
Headers as maps from tags to values.

Setting a value changes what one tag is mapped to, and keeps the tags distinct. Sorting the entries
does not change the map, since of those with the same tag the first stays the first.
-/

namespace Rpm

lemma Value.unambiguous_of_type?_eq {value : Value} {t : ValueType} (h : value.type? = some t) :
    value.Unambiguous := by
  cases value with
  | unknown => simp [Value.type?] at h
  | _ => trivial

lemma Value.asStrings?_eq_some_iff {value : Value} {strings : List String} :
    value.asStrings? = some strings ↔
      value = .stringArray strings ∨ value = .i18nString strings := by
  cases value <;> simp [Value.asStrings?]

lemma Value.asUInt32?_eq_some_iff {value : Value} {n : UInt32} :
    value.asUInt32? = some n ↔ value = .int32 [n] := by
  constructor
  · intro h
    unfold Value.asUInt32? at h
    split at h
    · simpa using h
    · contradiction
  · rintro rfl
    rfl

namespace Header

variable {ns : Namespace} {h h' other : Header ns} {entries : List Entry}

/-- Whether no tag has two entries. -/
def Distinct (h : Header ns) : Prop := (h.entries.map Entry.tag).Nodup

/-- Whether the type of every value tells how the value is to be read. -/
def Unambiguous (h : Header ns) : Prop := ∀ e ∈ h.entries, e.value.Unambiguous

lemma distinct_empty : Distinct (.empty : Header ns) := List.nodup_nil

lemma unambiguous_empty : Unambiguous (.empty : Header ns) := by simp [Unambiguous, Header.empty]

/-! ### Lookups -/

lemma lookup_eq_head?_filter (tag : UInt32) (entries : List Entry) :
    lookup tag entries = ((entries.filter (·.tag = tag)).head?).map Entry.value := by
  induction entries with
  | nil => rfl
  | cons e entries ih =>
    by_cases ht : e.tag = tag
    · simp [lookup, ht]
    · simp [lookup, ht, ih]

lemma lookup_eq_none_iff {tag : UInt32} : lookup tag entries = none ↔ tag ∉ entries.map Entry.tag := by
  induction entries with
  | nil => simp [lookup]
  | cons e entries ih =>
    by_cases ht : e.tag = tag
    · simp [lookup, ht]
    · simp [lookup, ht, ih, Ne.symm ht]

lemma lookup_of_mem (hd : (entries.map Entry.tag).Nodup) {e : Entry} (he : e ∈ entries) :
    lookup e.tag entries = some e.value := by
  induction entries with
  | nil => simp at he
  | cons e' entries ih =>
    rw [List.map_cons, List.nodup_cons] at hd
    rcases List.mem_cons.mp he with rfl | he
    · simp [lookup]
    · have hne : e'.tag ≠ e.tag := fun h => hd.1 (h ▸ List.mem_map_of_mem he)
      rw [lookup, if_neg hne, ih hd.2 he]

lemma mem_of_lookup {tag : UInt32} {value : Value} (h : lookup tag entries = some value) :
    ⟨tag, value⟩ ∈ entries := by
  induction entries with
  | nil => simp [lookup] at h
  | cons e entries ih =>
    rw [lookup] at h
    split at h
    · rename_i htag
      obtain rfl := Option.some.inj h
      exact htag ▸ List.mem_cons_self
    · exact List.mem_cons_of_mem _ (ih h)

lemma lookup_assign (tag t : UInt32) (value : Value) (entries : List Entry) :
    lookup t (assign tag value entries) = if tag = t then some value else lookup t entries := by
  induction entries with
  | nil => simp [assign, lookup]
  | cons e entries ih =>
    by_cases he : e.tag = tag
    · by_cases ht : tag = t
      · simp [assign, lookup, he, ht]
      · simp [assign, lookup, he, ht]
    · rw [assign, if_neg he, lookup, lookup, ih]
      by_cases ht : tag = t
      · rw [if_neg (ht ▸ he), if_pos ht, if_pos ht]
      · simp only [if_neg ht]

lemma eq_or_mem_of_mem_assign {tag : UInt32} {value : Value} {e : Entry}
    (he : e ∈ assign tag value entries) : e = ⟨tag, value⟩ ∨ e ∈ entries := by
  induction entries with
  | nil => simpa [assign] using he
  | cons e' entries ih =>
    rw [assign] at he
    split at he
    · rcases List.mem_cons.mp he with rfl | he
      · exact Or.inl rfl
      · exact Or.inr (List.mem_cons_of_mem _ he)
    · rcases List.mem_cons.mp he with rfl | he
      · exact Or.inr List.mem_cons_self
      · exact (ih he).imp id (List.mem_cons_of_mem _)

lemma map_tag_assign (tag : UInt32) (value : Value) (entries : List Entry) :
    (assign tag value entries).map Entry.tag =
      if tag ∈ entries.map Entry.tag then entries.map Entry.tag
      else entries.map Entry.tag ++ [tag] := by
  induction entries with
  | nil => simp [assign]
  | cons e entries ih =>
    by_cases he : e.tag = tag
    · simp [assign, he]
    · by_cases ht : tag ∈ entries.map Entry.tag
      · rw [if_pos ht] at ih
        rw [assign, if_neg he, List.map_cons, ih, if_pos (by simp [ht])]
        rfl
      · rw [if_neg ht] at ih
        rw [assign, if_neg he, List.map_cons, ih, if_neg (by simp [Ne.symm he, ht])]
        rfl

lemma lookup_of_stablySorted {sorted : List Entry} (hs : StablySorted entries sorted)
    (tag : UInt32) : lookup tag sorted = lookup tag entries := by
  rw [lookup_eq_head?_filter, lookup_eq_head?_filter, hs.stable]

/-! ### Typed values -/

variable {α : Type} {tag : Tag ns} {expected : ValueType} {view : Value → Option α}

lemma typed_eq_none_iff : h.typed tag expected view = .ok none ↔ h.get tag = none := by
  unfold Header.typed
  cases h.get tag with
  | none => simp
  | some value => cases hv : view value <;> simp [hv]

lemma typed_eq_some_iff {a : α} : h.typed tag expected view = .ok (some a) ↔
    ∃ value, h.get tag = some value ∧ view value = some a := by
  unfold Header.typed
  cases h.get tag with
  | none => simp
  | some value => cases hv : view value <;> simp [hv]

lemma typed_eq_error {e : Error} (he : h.typed tag expected view = .error e) :
    ∃ actual, e = .tagTypeMismatch tag.id expected actual := by
  unfold Header.typed at he
  cases hg : h.get tag with
  | none => simp [hg] at he
  | some value => cases hv : view value <;> simp [hg, hv] at he; exact ⟨_, he.symm⟩

/-! ### Setting values -/

lemma getRaw_setRaw (h : Header ns) (tag t : UInt32) (value : Value) :
    (h.setRaw tag value).getRaw t = if tag = t then some value else h.getRaw t :=
  lookup_assign tag t value h.entries

lemma Distinct.setRaw (hd : h.Distinct) (tag : UInt32) (value : Value) :
    (h.setRaw tag value).Distinct := by
  unfold Distinct Header.setRaw
  rw [map_tag_assign]
  split
  · exact hd
  · rename_i hmem
    exact List.nodup_append.mpr ⟨hd, by simp, by
      rintro a ha b hb rfl
      rw [List.mem_singleton] at hb
      exact hmem (hb ▸ ha)⟩

lemma forall_mem_setRaw {Q : Entry → Prop} (hq : ∀ e ∈ h.entries, Q e) {tag : UInt32}
    {value : Value} (hv : Q ⟨tag, value⟩) : ∀ e ∈ (h.setRaw tag value).entries, Q e := by
  intro e he
  rcases eq_or_mem_of_mem_assign he with rfl | he
  · exact hv
  · exact hq e he

lemma Unambiguous.setRaw (hu : h.Unambiguous) (tag : UInt32) {value : Value}
    (hv : value.Unambiguous) : (h.setRaw tag value).Unambiguous :=
  forall_mem_setRaw hu hv

lemma set_eq_ok_iff {tag : Tag ns} {value : Value} :
    h.set tag value = .ok h' ↔ value.type? = some tag.type ∧ h' = h.setRaw tag.id value := by
  unfold Header.set
  by_cases ht : value.type? = some tag.type
  · simp [ht, eq_comm]
  · simp [ht]

/-- Whether setting the value of a tag of a header keeps a property. -/
def KeptBySet (P : Header ns → Prop) : Prop :=
  ∀ (h : Header ns) tag value h', P h → h.set tag value = .ok h' → P h'

lemma keptBySet_distinct : KeptBySet (@Distinct ns) := by
  intro h tag value h' hd hset
  obtain ⟨-, rfl⟩ := set_eq_ok_iff.mp hset
  exact hd.setRaw tag.id value

lemma keptBySet_unambiguous : KeptBySet (@Unambiguous ns) := by
  intro h tag value h' hu hset
  obtain ⟨htype, rfl⟩ := set_eq_ok_iff.mp hset
  exact hu.setRaw tag.id (Value.unambiguous_of_type?_eq htype)

lemma getRaw_extend (hd : other.Distinct) (tag : UInt32) :
    (h.extend other).getRaw tag = (other.getRaw tag).or (h.getRaw tag) := by
  obtain ⟨entries⟩ := other
  unfold Header.extend
  unfold Distinct at hd
  simp only [getRaw] at hd ⊢
  induction entries generalizing h with
  | nil => simp [lookup]
  | cons e entries ih =>
    rw [List.map_cons, List.nodup_cons] at hd
    rw [List.foldl_cons, ih hd.2]
    by_cases ht : e.tag = tag
    · have hnone : lookup tag entries = none := lookup_eq_none_iff.mpr (ht ▸ hd.1)
      simp [lookup, ht, hnone, Header.setRaw, lookup_assign]
    · simp [lookup, ht, Header.setRaw, lookup_assign]

lemma extend_induction {P : Header ns → Prop} (start : P h)
    (step : ∀ g : Header ns, ∀ e ∈ other.entries, P g → P (g.setRaw e.tag e.value)) :
    P (h.extend other) := by
  unfold Header.extend
  generalize other.entries = entries at step
  induction entries generalizing h with
  | nil => exact start
  | cons e entries ih =>
    exact ih (step h e (by simp) start) fun g e' he' => step g e' (by simp [he'])

lemma getRaw_extend_of_none {tag : UInt32} (hnone : other.getRaw tag = none) :
    (h.extend other).getRaw tag = h.getRaw tag := by
  have hnot := lookup_eq_none_iff.mp hnone
  refine extend_induction (P := fun g => g.getRaw tag = h.getRaw tag) rfl fun g e he hg => ?_
  have hne : e.tag ≠ tag := fun htag => hnot (htag ▸ List.mem_map_of_mem he)
  rw [getRaw_setRaw, if_neg hne, hg]

lemma Distinct.extend (hd : h.Distinct) (other : Header ns) : (h.extend other).Distinct :=
  extend_induction hd fun _ e _ hg => hg.setRaw e.tag e.value

/-- What holds of the entries of both headers holds of those of the extended one. -/
lemma forall_mem_extend {Q : Entry → Prop} (hq : ∀ e ∈ h.entries, Q e)
    (ho : ∀ e ∈ other.entries, Q e) : ∀ e ∈ (h.extend other).entries, Q e :=
  extend_induction (P := fun g => ∀ e ∈ g.entries, Q e) hq fun _ e he hg =>
    forall_mem_setRaw hg (ho e he)

lemma Unambiguous.extend (hu : h.Unambiguous) (ho : other.Unambiguous) :
    (h.extend other).Unambiguous :=
  forall_mem_extend hu ho

lemma roomFor_assign_le (tag : UInt32) (value : Value) (entries : List Entry) :
    roomFor (assign tag value entries) ≤ roomFor entries + (value.bytes.size + 7) := by
  induction entries with
  | nil => simp [assign, roomFor]
  | cons e entries ih =>
    simp only [assign]
    split
    · simp only [roomFor]
      omega
    · simp only [roomFor]
      omega

lemma length_assign_le (tag : UInt32) (value : Value) (entries : List Entry) :
    (assign tag value entries).length ≤ entries.length + 1 := by
  induction entries with
  | nil => simp [assign]
  | cons e entries ih =>
    simp only [assign]
    split
    · simp
    · simp only [List.length_cons]
      omega

lemma size_extend_le (h other : Header ns) :
    roomFor (h.extend other).entries ≤ roomFor h.entries + roomFor other.entries ∧
      (h.extend other).entries.length ≤ h.entries.length + other.entries.length := by
  obtain ⟨entries⟩ := other
  unfold Header.extend
  simp only
  induction entries generalizing h with
  | nil => simp
  | cons e entries ih =>
    have hnext := ih (h.setRaw e.tag e.value)
    have hroom := roomFor_assign_le e.tag e.value h.entries
    have hlength := length_assign_le e.tag e.value h.entries
    simp only [List.foldl_cons, roomFor, List.length_cons, Header.setRaw] at hnext hroom hlength ⊢
    omega

/-! ### Comparing and reading back -/

/-- Headers that are the same map, with distinct tags, are the same by comparison. -/
lemma same_of_getRaw_eq (hd : h.Distinct) (hlen : h.entries.length = other.entries.length)
    (heq : ∀ tag, h.getRaw tag = other.getRaw tag) : h.same other = true := by
  rw [Header.same, Bool.and_eq_true, decide_eq_true_eq, List.all_eq_true]
  refine ⟨hlen, fun e he => ?_⟩
  rw [decide_eq_true_eq, ← heq]
  exact lookup_of_mem hd he

/-- What a header within the limits of readers says of a tag is no larger than a store may be. -/
lemma size_bytes_le_of_getRaw {data : ByteArray} {tag : UInt32} {value : Value}
    (rendered : h.render true = .ok data) (limits : WithinLimits data)
    (hvalue : h.getRaw tag = some value) : value.bytes.size ≤ mostStoreSize :=
  size_bytes_le_of_render rendered limits _ (mem_of_lookup hvalue)

lemma read_append_of_render {data : ByteArray} (rendered : h.render true = .ok data)
    (limits : WithinLimits data) (rest : ByteArray) (failure : Option StreamError) :
    (Header.read ⟨data ++ rest, failure⟩ : Except Error (Header ns × ByteArray × Source)) =
      (Header.parse data).map fun g => (g, data, ⟨rest, failure⟩) := by
  obtain ⟨records, store, hdata, -, hcount, hstore, -⟩ := exists_sectionBytes_of_render rendered
  have hlimits := limits
  rw [hdata, withinLimits_sectionBytes_iff hcount hstore] at hlimits
  have hprologue := Prologue.parse_sectionBytes ByteArray.empty hlimits.1 hlimits.2
  rw [ByteArray.append_empty] at hprologue
  refine read_append (hdata ▸ hprologue) ?_ rest failure
  rw [hdata, size_sectionBytes]
  rfl

lemma parse_of_render {data : ByteArray} (rendered : h.render true = .ok data)
    (limits : WithinLimits data) (known : h.Unambiguous) :
    (Header.parse data : Except Error (Header ns)) = .ok ⟨sortedByTag h.entries⟩ := by
  have hparse := parseEntries_append_of_render rendered limits known ByteArray.empty
  rw [ByteArray.append_empty] at hparse
  rw [Header.parse, hparse]
  rfl

lemma exists_parse_of_render {data : ByteArray} {sort : Bool} (rendered : h.render sort = .ok data)
    (limits : WithinLimits data) (known : h.Unambiguous) :
    ∃ g : Header ns, Header.parse data = .ok g ∧ ∀ t, g.getRaw t = h.getRaw t := by
  have hparse := parseEntries_append_of_render rendered limits known ByteArray.empty
  rw [ByteArray.append_empty] at hparse
  refine ⟨_, map_eq_ok_iff.mpr ⟨_, hparse, rfl⟩, fun t => ?_⟩
  cases sort with
  | false => rfl
  | true => exact lookup_of_stablySorted (stablySorted_sortedByTag h.entries) t

lemma lookup_of_forall₂ {read : List Entry} {tag : UInt32}
    (hread : List.Forall₂
      (fun e' e : Entry => e'.tag = e.tag ∧ (e.value.Unambiguous → e'.value = e.value)) read entries)
    (known : ∀ value, lookup tag entries = some value → value.Unambiguous) :
    lookup tag read = lookup tag entries := by
  induction hread with
  | nil => rfl
  | @cons e' e read entries he _ ih =>
    obtain ⟨htag, hvalue⟩ := he
    simp only [lookup, htag] at known ⊢
    split
    · rename_i heq
      rw [hvalue (known e.value (if_pos heq))]
    · rename_i hne
      exact ih fun value hv => known value (by rw [if_neg hne, hv])

/-- Whatever is read from a rendered header, a tag has the same value as before if its type tells how
it is to be read. -/
lemma getRaw_of_parse {g : Header ns} {data : ByteArray} {tag : UInt32}
    (rendered : h.render true = .ok data) (limits : WithinLimits data)
    (hg : Header.parse data = .ok g)
    (known : ∀ value, h.getRaw tag = some value → value.Unambiguous) :
    g.getRaw tag = h.getRaw tag := by
  obtain ⟨read, hread, rfl⟩ := map_eq_ok_iff.mp hg
  have hsorted := lookup_of_stablySorted (stablySorted_sortedByTag h.entries) tag
  rw [← ByteArray.append_empty (b := data)] at hread
  have hforall := forall₂_of_parseEntries rendered limits hread
  exact (lookup_of_forall₂ hforall fun value hv => known value (hsorted.symm.trans hv)).trans hsorted

end Header

end Rpm
