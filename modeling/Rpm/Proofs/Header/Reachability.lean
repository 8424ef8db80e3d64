import Rpm.Proofs.Header.Canonical

/-!
Headers that can come about, and what their operations rely on.

Comparing, looking up and removing take it that no tag has two entries. Setting a value, removing one
and extending keep that, but a section that is read is taken as it is, even if its index has a tag
twice. So it is the sections that decide whether all headers that come about are maps.
-/

namespace Rpm

/-! ### Tags of a section -/

/-- The index records of the section at the front of the data. -/
def sectionRecords (data : ByteArray) : List IndexRecord :=
  (List.range (ofBigEndian (data.extract 8 12))).map fun i => IndexRecord.ofBytes data (16 + 16 * i)

def sectionTags (region : UInt32) (data : ByteArray) : List UInt32 :=
  (dropRegion region (sectionRecords data)).map IndexRecord.tag

lemma Prologue.entryCount_of_parse {data : ByteArray} {p : Prologue} (h : parse data = .ok p) :
    p.entryCount = ofBigEndian (data.extract 8 12) := by
  obtain ⟨-, -, -, hp⟩ := parse_eq_ok_iff.mp h
  rw [hp]

lemma map_tag_of_decodeRecords {store : ByteArray} {records : List IndexRecord}
    {entries : List Entry} (h : decodeRecords store records = .ok entries) :
    entries.map Entry.tag = records.map IndexRecord.tag := by
  induction decodeRecords_eq_ok_iff.mp h with
  | nil => rfl
  | cons he hrest ih =>
    rw [List.map_cons, List.map_cons, ih (decodeRecords_eq_ok_iff.mpr hrest), he.1]

/-- **What is read from a section** has its tags, in their order. -/
lemma map_tag_of_parseEntries {data : ByteArray} {region : UInt32} {entries : List Entry}
    (h : parseEntries data region = .ok entries) :
    entries.map Entry.tag = sectionTags region data := by
  unfold parseEntries at h
  obtain ⟨p, hp, hrest⟩ := bind_eq_ok_iff.mp h
  split_ifs at hrest
  · simp [bind, Except.bind, throw, throwThe, MonadExceptOf.throw] at hrest
  rw [sectionTags, sectionRecords, ← Prologue.entryCount_of_parse hp]
  exact map_tag_of_decodeRecords hrest

namespace Header

variable {ns : Namespace} {a b h : Header ns} {entries : List Entry}

lemma distinct_iff_of_parse {data : ByteArray} (hparse : parse data = .ok h) :
    h.Distinct ↔ (sectionTags ns.region data).Nodup := by
  obtain ⟨entries, hentries, rfl⟩ := map_eq_ok_iff.mp hparse
  rw [Distinct, map_tag_of_parseEntries hentries]

/-! ### Removing values -/

lemma map_tag_without (tag : UInt32) (entries : List Entry) :
    (without tag entries).map Entry.tag = (entries.map Entry.tag).erase tag := by
  induction entries with
  | nil => rfl
  | cons e entries ih =>
    rw [without, List.map_cons]
    by_cases he : e.tag = tag
    · rw [if_pos he, he, List.erase_cons_head]
    · rw [if_neg he, List.erase_cons_tail (by simpa using he), List.map_cons, ih]

lemma Distinct.erase (hd : h.Distinct) (tag : Tag ns) : (h.erase tag).Distinct := by
  unfold Distinct Header.erase
  rw [map_tag_without]
  exact List.Nodup.erase tag.id hd

lemma contains_erase_eq_false_iff (h : Header ns) (tag : Tag ns) :
    (h.erase tag).contains tag = false ↔ (h.entries.map Entry.tag).count tag.id ≤ 1 := by
  rw [contains, Option.isSome_eq_false_iff, Option.isNone_iff_eq_none, get, getRaw,
    lookup_eq_none_iff, erase, map_tag_without, ← List.count_eq_zero, List.count_erase_self]
  omega

/-! ### Comparing -/

lemma Distinct.same_self (hd : h.Distinct) : h.same h = true := same_of_perm hd (.refl _)

lemma Distinct.same_comm (ha : a.Distinct) (hb : b.Distinct) : a.same b = b.same a := by
  rw [Bool.eq_iff_iff]
  exact ⟨fun hsame => same_of_perm ha (perm_of_same ha hsame).symm,
    fun hsame => same_of_perm hb (perm_of_same hb hsame).symm⟩

lemma getRaw_eq_some_iff (hd : h.Distinct) {tag : UInt32} {value : Value} :
    h.getRaw tag = some value ↔ ⟨tag, value⟩ ∈ h.entries :=
  ⟨mem_of_lookup, fun hmem => lookup_of_mem hd hmem⟩

/-- **Comparing** headers with distinct tags tells whether they are the same map. -/
lemma same_iff_getRaw (ha : a.Distinct) (hb : b.Distinct) :
    a.same b = true ↔ ∀ tag, a.getRaw tag = b.getRaw tag := by
  constructor
  · intro hsame tag
    refine Option.ext fun value => ?_
    rw [getRaw_eq_some_iff ha, getRaw_eq_some_iff hb, (perm_of_same ha hsame).mem_iff]
  · intro heq
    refine same_of_perm hb ((List.perm_ext_iff_of_nodup (.of_map _ ha) (.of_map _ hb)).mpr ?_)
    rintro ⟨tag, value⟩
    rw [← getRaw_eq_some_iff ha, ← getRaw_eq_some_iff hb, heq tag]

/-! ### What can come about -/

/-- Whether a header can come about where nothing is read but some sections. -/
inductive Reachable (sections : ByteArray → Prop) : Header ns → Prop
  | empty : Reachable sections .empty
  | parse {data : ByteArray} {h : Header ns} (hdata : sections data)
    (hparse : Header.parse data = .ok h) : Reachable sections h
  | read {s s' : Source} {data : ByteArray} {h : Header ns} (hdata : sections data)
    (hread : Header.read s = .ok (h, data, s')) : Reachable sections h
  | set {h h' : Header ns} {tag : Tag ns} {value : Value} (hh : Reachable sections h)
    (hset : h.set tag value = .ok h') : Reachable sections h'
  | setRaw {h : Header ns} (hh : Reachable sections h) (tag : UInt32) (value : Value) :
    Reachable sections (h.setRaw tag value)
  | erase {h : Header ns} (hh : Reachable sections h) (tag : Tag ns) :
    Reachable sections (h.erase tag)
  | extend {h other : Header ns} (hh : Reachable sections h) (ho : Reachable sections other) :
    Reachable sections (h.extend other)

variable {sections : ByteArray → Prop}

/-- **Every operation keeps the tags distinct**, if they are in what is read. -/
lemma Reachable.distinct (hh : Reachable sections h)
    (hsections : ∀ data, sections data → ∀ g : Header ns, Header.parse data = .ok g →
      (sectionTags ns.region data).Nodup) : h.Distinct := by
  induction hh with
  | empty => exact distinct_empty
  | parse hdata hparse => exact (distinct_iff_of_parse hparse).mpr (hsections _ hdata _ hparse)
  | read hdata hread =>
    obtain ⟨-, -, -, hparse⟩ := read_eq_ok hread
    exact (distinct_iff_of_parse hparse).mpr (hsections _ hdata _ hparse)
  | set _ hset ih => exact keptBySet_distinct _ _ _ _ ih hset
  | setRaw _ tag value ih => exact ih.setRaw tag value
  | erase _ tag ih => exact ih.erase tag
  | extend _ _ ih _ => exact ih.extend _

/-- **Headers are maps** as far as sections are: no header that comes about has a tag twice, exactly if
no section that is read and accepted has one twice; and then comparing is reflexive and symmetric, and
a tag is gone once it is removed. -/
theorem distinct_iff_sections {ns : Namespace} {sections : ByteArray → Prop} :
    ((∀ h : Header ns, Reachable sections h → h.Distinct) ↔
      ∀ data, sections data → ∀ h : Header ns, Header.parse data = .ok h →
        (sectionTags ns.region data).Nodup) ∧
    ((∀ h : Header ns, Reachable sections h → h.Distinct) →
      ∀ h g : Header ns, Reachable sections h → Reachable sections g →
        h.same h = true ∧ h.same g = g.same h ∧ ∀ tag, (h.erase tag).contains tag = false) := by
  refine ⟨⟨fun hall data hdata h hparse => ?_, fun hsections h hh => hh.distinct hsections⟩,
    fun hall h g hh hg => ⟨(hall h hh).same_self, (hall h hh).same_comm (hall g hg), fun tag => ?_⟩⟩
  · exact (distinct_iff_of_parse hparse).mp (hall h (.parse hdata hparse))
  · exact (contains_erase_eq_false_iff h tag).mpr (List.nodup_iff_count_le_one.mp (hall h hh) tag.id)

/-- A section of two numbers with one tag. -/
def twofold : ByteArray :=
  sectionBytes [⟨1006, 4, 0, 1⟩, ⟨1006, 4, 4, 1⟩] (bigEndian 4 7 ++ bigEndian 4 8)

/-- A section of a number and a text. -/
def onefold : ByteArray :=
  sectionBytes [⟨1000, 6, 0, 1⟩, ⟨1006, 4, 4, 1⟩] ("abc".toUTF8.push 0 ++ bigEndian 4 8)

theorem distinct_iff_sections_onefold :
    ∃ h : Header .metadata, Reachable (· = onefold) h ∧ h.size = 2 ∧ h.same h = true ∧
      (h.erase MetadataTag.buildTime).contains MetadataTag.buildTime = false := by
  have hentries : parseEntries onefold Namespace.metadata.region =
      .ok [⟨1000, .string "abc"⟩, ⟨1006, .int32 [8]⟩] := by decide +kernel
  have hparse : (Header.parse onefold : Except Error (Header .metadata)) =
      .ok ⟨[⟨1000, .string "abc"⟩, ⟨1006, .int32 [8]⟩]⟩ := by rw [Header.parse, hentries]; rfl
  have hdistinct : (sectionTags Namespace.metadata.region onefold).Nodup := by decide +kernel
  obtain ⟨hiff, hlaws⟩ := @distinct_iff_sections .metadata (· = onefold)
  have hreachable : Reachable (· = onefold) _ := .parse rfl hparse
  obtain ⟨hsame, -, herase⟩ := hlaws (hiff.mpr fun data hdata _ _ => hdata ▸ hdistinct) _ _
    hreachable hreachable
  exact ⟨_, hreachable, rfl, hsame, herase MetadataTag.buildTime⟩

/-- A tag that a section has twice is still there once it was removed, and the header is not even the
same as itself. -/
theorem not_distinct_twofold :
    ∃ h : Header .metadata, Header.parse twofold = .ok h ∧ Reachable (fun _ => True) h ∧
      ¬h.Distinct ∧ h.same h = false ∧
      (h.erase MetadataTag.buildTime).contains MetadataTag.buildTime = true := by
  have hentries : parseEntries twofold Namespace.metadata.region =
      .ok [⟨1006, .int32 [7]⟩, ⟨1006, .int32 [8]⟩] := by decide +kernel
  have hparse : (Header.parse twofold : Except Error (Header .metadata)) =
      .ok ⟨[⟨1006, .int32 [7]⟩, ⟨1006, .int32 [8]⟩]⟩ := by rw [Header.parse, hentries]; rfl
  exact ⟨_, hparse, .parse trivial hparse, by unfold Distinct; decide, by decide +kernel,
    by decide +kernel⟩

end Header

end Rpm
