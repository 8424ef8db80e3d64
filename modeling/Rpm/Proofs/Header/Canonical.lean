import Mathlib.Data.List.Perm.Subperm
import Rpm.Proofs.Header.Mapping

/-!
Sorted sections as a normal form of headers.

Headers with distinct tags that are the same map have the same entries in some order. Sorting by
tag leaves only one order of them, so that they are rendered alike, down to the error if there is
one; and since a section is read back, two headers with the same section are the same map.
-/

namespace Rpm.Header

variable {ns : Namespace} {a b : Header ns} {entries other : List Entry}

/-! ### The same map -/

lemma eq_of_tag_eq (hd : (entries.map Entry.tag).Nodup) {e e' : Entry} (he : e ∈ entries)
    (he' : e' ∈ entries) (htag : e.tag = e'.tag) : e = e' := by
  have hvalue : some e.value = some e'.value := by
    rw [← lookup_of_mem hd he, ← lookup_of_mem hd he', htag]
  obtain ⟨tag, value⟩ := e
  obtain ⟨tag', value'⟩ := e'
  obtain rfl : tag = tag' := htag
  obtain rfl : value = value' := Option.some.inj hvalue
  rfl

/-- As many entries as the other header, all of them found there, are all that there are. -/
lemma perm_of_same (hd : a.Distinct) (h : a.same b = true) : a.entries.Perm b.entries := by
  rw [Header.same, Bool.and_eq_true, decide_eq_true_eq, List.all_eq_true] at h
  obtain ⟨hlength, hfound⟩ := h
  have hsub : a.entries ⊆ b.entries := fun e he =>
    mem_of_lookup (of_decide_eq_true (hfound e he))
  have hsubperm : a.entries.Subperm b.entries := List.Nodup.subperm (List.Nodup.of_map _ hd) hsub
  exact hsubperm.perm_of_length_le (Nat.le_of_eq hlength.symm)

lemma same_of_perm (hd' : b.Distinct) (h : a.entries.Perm b.entries) : a.same b = true := by
  rw [Header.same, Bool.and_eq_true, decide_eq_true_eq, List.all_eq_true]
  exact ⟨h.length_eq, fun e he => decide_eq_true (lookup_of_mem hd' (h.mem_iff.mp he))⟩

/-! ### The same section -/

lemma sortedByTag_eq_of_perm (hd : (entries.map Entry.tag).Nodup) (h : entries.Perm other) :
    sortedByTag entries = sortedByTag other := by
  have hs := stablySorted_sortedByTag entries
  have hs' := stablySorted_sortedByTag other
  refine List.Perm.eq_of_pairwise (fun e e' he he' hle hge => ?_) hs.ascending hs'.ascending
    (hs.perm.trans (h.trans hs'.perm.symm))
  have he'' : e' ∈ entries := h.mem_iff.mpr (hs'.perm.mem_iff.mp he')
  exact eq_of_tag_eq hd (hs.perm.mem_iff.mp he) he'' (UInt32.le_antisymm hle hge)

lemma perm_of_sortedByTag_eq (h : sortedByTag entries = sortedByTag other) :
    entries.Perm other :=
  (stablySorted_sortedByTag entries).perm.symm.trans (h ▸ (stablySorted_sortedByTag other).perm)

/-- **Sorted sections are canonical.** Headers that are the same map are rendered alike, or fail
alike; and headers with the same section are the same map. -/
theorem render_canonical (distinct : a.Distinct) (distinct' : b.Distinct) :
    (a.same b = true → a.render true = b.render true) ∧
      ∀ data, a.render true = .ok data → b.render true = .ok data → WithinLimits data →
        a.Unambiguous → b.Unambiguous → a.same b = true := by
  constructor
  · intro hsame
    have hsorted := sortedByTag_eq_of_perm distinct (perm_of_same distinct hsame)
    simp only [Header.render, renderEntries, if_true, hsorted]
  · intro data rendered rendered' limits known known'
    have hparse := parseEntries_append_of_render rendered limits known ByteArray.empty
    have hparse' := parseEntries_append_of_render rendered' limits known' ByteArray.empty
    have hsorted : sortedByTag a.entries = sortedByTag b.entries :=
      Except.ok.inj (hparse.symm.trans hparse')
    exact same_of_perm distinct' (perm_of_sortedByTag_eq hsorted)

/-- Three tags in descending order, with a value of a type that is not known. -/
def descending : Header .metadata :=
  ⟨[⟨5000, .unknown 12 ⟨#[1, 2]⟩⟩, ⟨1003, .int32 [7]⟩, ⟨1000, .string "name"⟩]⟩

def shuffled : Header .metadata :=
  ⟨[⟨1003, .int32 [7]⟩, ⟨5000, .unknown 12 ⟨#[1, 2]⟩⟩, ⟨1000, .string "name"⟩]⟩

theorem render_canonical_shuffled :
    ∃ data, descending.render true = .ok data ∧ shuffled.render true = .ok data ∧
      descending.same shuffled = true := by
  have distinct : descending.Distinct := by simp only [Distinct, descending]; decide
  have distinct' : shuffled.Distinct := by simp only [Distinct, shuffled]; decide
  have hplaceable : ∀ e ∈ descending.entries, e.Placeable Namespace.metadata.region := by
    intro e he
    simp only [descending, List.mem_cons, List.not_mem_nil, or_false] at he
    rcases he with rfl | rfl | rfl <;> exact ⟨by decide, by decide +kernel⟩
  obtain ⟨data, rendered, limits⟩ := exists_render true hplaceable (by decide) (by decide +kernel)
  have hsame : descending.same shuffled = true := by decide +kernel
  have rendered' : shuffled.render true = .ok data :=
    ((render_canonical distinct distinct').1 hsame).symm.trans rendered
  have known : descending.Unambiguous := by simp [Unambiguous, descending, Value.Unambiguous]
  have known' : shuffled.Unambiguous := by simp [Unambiguous, shuffled, Value.Unambiguous]
  exact ⟨data, rendered, rendered',
    (render_canonical distinct distinct').2 data rendered rendered' limits known known'⟩

end Rpm.Header
