import Rpm.Proofs.Header.WellFormed

/-!
Sections written again after they were read.

A section that is read may have its values anywhere, overlapping or not aligned. Written again, they
have places of their own, so that the new section is another one. But its entries are the same: what is
read can be placed as far as there is room, and its types tell how to read it.
-/

namespace Rpm

variable {data : ByteArray} {region : UInt32} {entries : List Entry} {error : Error}

/-! ### What can be refused -/

lemma Layout.eq_of_place_eq_error {l : Layout} {e : Entry} (he : e.Placeable region)
    (h : place region l e = .error error) : error = .headerTooLarge .offset := by
  simp only [place] at h
  split_ifs at h with htag hsize hnul hcount
  · exact absurd htag he.tag_ne
  · exact (Except.error.inj h).symm
  · exact absurd (hnul.symm.trans he.hasNul_eq) (by simp)
  · exact (Except.error.inj h).symm

lemma Layout.eq_of_section_eq_error {l : Layout} (h : l.section region = .error error) :
    error = .headerTooLarge .offset := by
  simp only [Layout.section] at h
  split_ifs at h
  · exact (Except.error.inj h).symm
  · exact (Except.error.inj h).symm

lemma eq_of_render_eq_error {sort : Bool} (he : ∀ e ∈ entries, e.Placeable region)
    (h : renderEntries entries sort region = .error error) : error = .headerTooLarge .offset := by
  cases hl : Layout.ofEntries region (if sort then sortedByTag entries else entries) with
  | error error' =>
    obtain ⟨e, hmem, l, hplace⟩ := foldlM_eq_error hl
    rw [renderEntries, hl] at h
    rw [← Except.error.inj h]
    exact Layout.eq_of_place_eq_error (he e ((perm_of_sort sort entries).mem_iff.mp hmem)) hplace
  | ok l =>
    rw [renderEntries, hl] at h
    exact Layout.eq_of_section_eq_error h

/-! ### What is read -/

lemma exists_says_of_parseEntries (h : parseEntries data region = .ok entries) :
    ∀ e ∈ entries, ∃ r : IndexRecord, r.Says (sectionStore data) e.value := by
  have hall := forall₂_says_of_parseEntries h
  clear h
  generalize dropRegion region (sectionRecords data) = records at hall
  induction hall with
  | nil => simp
  | cons hr _ ih => exact List.forall_mem_cons.mpr ⟨⟨_, hr.2⟩, ih⟩

lemma placeable_of_parseEntries (h : parseEntries data region = .ok entries)
    (notRegion : ∀ e ∈ entries, e.tag ≠ region) : ∀ e ∈ entries, e.Placeable region := fun e he =>
  ⟨notRegion e he, (exists_says_of_parseEntries h e he).elim fun _ hr => hr.hasNul_eq⟩

lemma unambiguous_of_parseEntries (h : parseEntries data region = .ok entries) :
    ∀ e ∈ entries, e.value.Unambiguous := fun e he =>
  (exists_says_of_parseEntries h e he).elim fun _ hr => hr.unambiguous

/-- **Rendering after reading.** What was read from a section is rendered again unless there is no room
for it, and what is then read from the new section is the same. -/
theorem rerender_of_parse {sort : Bool} (hparse : parseEntries data region = .ok entries)
    (notRegion : ∀ e ∈ entries, e.tag ≠ region) :
    ((∃ out, renderEntries entries sort region = .ok out) ∨
      renderEntries entries sort region = .error (.headerTooLarge .offset)) ∧
    ∀ out, renderEntries entries sort region = .ok out → WithinLimits out →
      ∃ read, parseEntries out region = .ok read ∧ (sort = false → read = entries) ∧
        (sort = true → StablySorted entries read) := by
  constructor
  · cases hrender : renderEntries entries sort region with
    | ok out => exact .inl ⟨out, rfl⟩
    | error e =>
      have hplaceable := placeable_of_parseEntries hparse notRegion
      exact .inr (congrArg _ (eq_of_render_eq_error hplaceable hrender))
  · intro out rendered limits
    have known := unambiguous_of_parseEntries hparse
    have hread := parseEntries_append_of_render rendered limits known ByteArray.empty
    rw [ByteArray.append_empty] at hread
    refine ⟨_, hread, by simp +contextual, ?_⟩
    rintro rfl
    exact stablySorted_sortedByTag entries

/-- What was read from values that overlap is read again from values that do not. -/
theorem rerender_of_parse_overlapping :
    ∃ out read, parseEntries overlapping 63 = .ok overlappingEntries ∧
      renderEntries overlappingEntries true 63 = .ok out ∧ parseEntries out 63 = .ok read ∧
      StablySorted overlappingEntries read := by
  have notRegion : ∀ e ∈ overlappingEntries, e.tag ≠ 63 := by decide
  obtain ⟨out, rendered, limits⟩ := exists_render true
    (placeable_of_parseEntries parseEntries_overlapping notRegion) (by decide) (by decide +kernel)
  obtain ⟨read, hread, -, hsorted⟩ :=
    (rerender_of_parse parseEntries_overlapping notRegion).2 out rendered limits
  exact ⟨out, read, parseEntries_overlapping, rendered, hread, hsorted rfl⟩

end Rpm
