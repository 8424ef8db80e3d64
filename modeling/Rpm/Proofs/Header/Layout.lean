import Mathlib.Data.List.Basic
import Rpm.Proofs.Header.Section

/-!
Header sections laid out.

Values are placed in the store one after another, each at its alignment and each with its record. A
section can be laid out if no entry has the tag of the region, no string holds a zero byte, and
there is room for all values.
-/

namespace Rpm

variable {region : UInt32} {entries : List Entry} {data : ByteArray}

/-! ### The order of entries -/

/-- Whether the second list has the entries of the first by ascending tag, and those with the same
tag in their order. -/
structure StablySorted (entries sorted : List Entry) : Prop where
  perm : sorted.Perm entries
  ascending : sorted.Pairwise fun a b => a.tag ≤ b.tag
  stable : ∀ tag, sorted.filter (·.tag = tag) = entries.filter (·.tag = tag)

lemma stablySorted_sortedByTag (entries : List Entry) :
    StablySorted entries (sortedByTag entries) := by
  have htrans : ∀ a b c : Entry, decide (a.tag ≤ b.tag) = true → decide (b.tag ≤ c.tag) = true →
      decide (a.tag ≤ c.tag) = true := by
    intro a b c hab hbc
    simp only [decide_eq_true_eq] at hab hbc ⊢
    exact UInt32.le_trans hab hbc
  have htotal : ∀ a b : Entry, (decide (a.tag ≤ b.tag) || decide (b.tag ≤ a.tag)) = true := by
    intro a b
    simpa using UInt32.le_total a.tag b.tag
  have hperm : (sortedByTag entries).Perm entries := List.mergeSort_perm entries _
  refine ⟨hperm, ?_, fun tag => ?_⟩
  · exact (List.pairwise_mergeSort htrans htotal entries).imp of_decide_eq_true
  · -- The entries with one tag are in order, so that sorting keeps them as a subsequence.
    have hsub : (entries.filter (·.tag = tag)).Sublist (sortedByTag entries) := by
      refine List.sublist_mergeSort htrans htotal ?_ List.filter_sublist
      refine List.pairwise_of_forall_mem_list fun a ha b hb => ?_
      rw [List.mem_filter, decide_eq_true_eq] at ha hb
      simp [ha.2, hb.2]
    have hsub' := hsub.filter (·.tag = tag)
    simp only [List.filter_filter, Bool.and_self] at hsub'
    exact (hsub'.eq_of_length (hperm.filter _).length_eq.symm).symm

lemma perm_of_sort (sort : Bool) (entries : List Entry) :
    (if sort then sortedByTag entries else entries).Perm entries := by
  cases sort
  · exact .refl _
  · exact (stablySorted_sortedByTag entries).perm

/-! ### Placing values -/

/-- How much room the values take at most, with the zeros in front of each. -/
def roomFor : List Entry → Nat
  | [] => 0
  | e :: entries => e.value.bytes.size + 7 + roomFor entries

lemma roomFor_perm {other : List Entry} (h : entries.Perm other) :
    roomFor entries = roomFor other := by
  induction h with
  | nil => rfl
  | cons e _ ih => rw [roomFor, roomFor, ih]
  | swap => simp only [roomFor]; omega
  | trans _ _ ih₁ ih₂ => exact ih₁.trans ih₂

lemma roomFor_le {n : Nat} (h : ∀ e ∈ entries, e.value.bytes.size ≤ n) :
    roomFor entries ≤ entries.length * (n + 7) := by
  induction entries with
  | nil => simp [roomFor]
  | cons e entries ih =>
    have he := h e (by simp)
    have hrest := ih fun e' he' => h e' (by simp [he'])
    rw [roomFor, List.length_cons, Nat.succ_mul]
    omega

/-- Whether an entry can be placed where there is room. -/
structure Entry.Placeable (e : Entry) (region : UInt32) : Prop where
  tag_ne : e.tag ≠ region
  hasNul_eq : e.value.hasNul = false

lemma Value.alignment_le (v : Value) : v.alignment ≤ 8 := by
  cases v <;> simp [Value.alignment, Value.type?, ValueType.alignment]

lemma Value.alignment_pos (v : Value) : 0 < v.alignment := by
  cases v <;> simp [Value.alignment, Value.type?, ValueType.alignment]

lemma length_le_size_concat_terminated (strings : List String) :
    strings.length ≤ (concat (strings.map terminated)).size := by
  induction strings with
  | nil => simp
  | cons s strings ih =>
    rw [List.map_cons, concat_cons, ByteArray.size_append, size_terminated, List.length_cons]
    omega

/-- Each element of a value takes a byte at least, except for that of the null value. -/
lemma Value.count_le (v : Value) : v.count ≤ v.bytes.size + 1 := by
  cases v with
  | int16 values | int32 values | int64 values =>
    simp only [Value.count, Value.bytes]
    rw [size_concat_map _ fun _ => size_bigEndian _ _]
    omega
  | stringArray strings | i18nString strings =>
    exact Nat.le_succ_of_le (length_le_size_concat_terminated strings)
  | _ => simp [Value.count, Value.bytes]

namespace Layout

lemma place_eq_ok_iff {l l' : Layout} {e : Entry} :
    place region l e = .ok l' ↔
      e.tag ≠ region ∧ (aligned e.value.alignment l.store).size < 2 ^ 31 ∧
        e.value.hasNul = false ∧ e.value.count < 2 ^ 32 ∧
        l' = ⟨l.records.push ⟨e.tag, e.value.typeId, (aligned e.value.alignment l.store).size,
            e.value.count⟩, aligned e.value.alignment l.store ++ e.value.bytes⟩ := by
  simp only [place]
  constructor
  · intro h
    split_ifs at h with htag hsize hnul hcount
    exact ⟨htag, by omega, by simpa using hnul, by omega, (Except.ok.inj h).symm⟩
  · rintro ⟨htag, hsize, hnul, hcount, rfl⟩
    rw [if_neg htag, if_neg (by omega), if_neg (by simp [hnul]), if_neg (by omega)]

lemma size_aligned_lt {alignment : Nat} (hpos : 0 < alignment) (store : ByteArray) :
    (aligned alignment store).size < store.size + alignment := by
  rw [aligned, ByteArray.size_append, size_replicateByte, paddingFor]
  have := Nat.mod_lt (alignment - store.size % alignment) hpos
  omega

lemma exists_place {l : Layout} {e : Entry} (he : e.Placeable region)
    (hroom : l.store.size + (e.value.bytes.size + 7) < 2 ^ 31) :
    ∃ l', place region l e = .ok l' ∧ l'.records.size = l.records.size + 1 ∧
      l'.store.size ≤ l.store.size + (e.value.bytes.size + 7) := by
  have hlt := size_aligned_lt e.value.alignment_pos l.store
  have hle := e.value.alignment_le
  have hcount := e.value.count_le
  refine ⟨_, place_eq_ok_iff.mpr ⟨he.tag_ne, by omega, he.hasNul_eq, by omega, rfl⟩, by simp, ?_⟩
  rw [ByteArray.size_append]
  omega

lemma exists_foldlM {l : Layout} (he : ∀ e ∈ entries, e.Placeable region)
    (hroom : l.store.size + roomFor entries < 2 ^ 31) :
    ∃ l', entries.foldlM (place region) l = .ok l' ∧
      l'.records.size = l.records.size + entries.length ∧
      l'.store.size ≤ l.store.size + roomFor entries := by
  induction entries generalizing l with
  | nil => exact ⟨l, rfl, rfl, Nat.le_add_right _ _⟩
  | cons e entries ih =>
    rw [roomFor] at hroom ⊢
    obtain ⟨m, hm, hrecords, hstore⟩ := exists_place (l := l) (he e (by simp)) (by omega)
    obtain ⟨l', hl', hrecords', hstore'⟩ := ih (l := m) (fun e' he' => he e' (by simp [he']))
      (by omega)
    refine ⟨l', ?_, ?_, by omega⟩
    · rw [List.foldlM_cons, hm]
      exact hl'
    · rw [hrecords', hrecords, List.length_cons]
      omega

lemma tag_ne_of_foldlM {l l' : Layout} (hp : entries.foldlM (place region) l = .ok l') :
    ∀ e ∈ entries, e.tag ≠ region := by
  induction entries generalizing l with
  | nil => simp
  | cons e entries ih =>
    rw [List.foldlM_cons, bind_eq_ok_iff] at hp
    obtain ⟨m, hm, hp⟩ := hp
    intro e' he'
    rcases List.mem_cons.mp he' with rfl | he'
    · exact (place_eq_ok_iff.mp hm).1
    · exact ih hp e' he'

lemma size_le_of_foldlM {l l' : Layout} (hp : entries.foldlM (place region) l = .ok l') :
    l.store.size ≤ l'.store.size ∧ ∀ e ∈ entries, e.value.bytes.size ≤ l'.store.size := by
  induction entries generalizing l with
  | nil =>
    rw [List.foldlM_nil, pure_eq_ok_iff] at hp
    exact ⟨Nat.le_of_eq (by rw [hp]), by simp⟩
  | cons e entries ih =>
    rw [List.foldlM_cons, bind_eq_ok_iff] at hp
    obtain ⟨m, hm, hp⟩ := hp
    obtain ⟨hle, hentries⟩ := ih hp
    obtain ⟨-, -, -, -, rfl⟩ := place_eq_ok_iff.mp hm
    simp only [aligned, ByteArray.size_append] at hle
    refine ⟨by omega, fun e' he' => ?_⟩
    rcases List.mem_cons.mp he' with rfl | he'
    · omega
    · exact hentries e' he'

/-- The record of the region, which comes first. -/
def regionRecord (region : UInt32) (l : Layout) : IndexRecord :=
  ⟨region, ValueType.bin.id, l.store.size, 16⟩

/-- The value of the region, which comes last: a record that points back over the index. -/
def trailer (region : UInt32) (l : Layout) : IndexRecord :=
  ⟨region, ValueType.bin.id, -(16 * (l.records.size + 1) : Nat), 16⟩

lemma section_eq_ok_iff {l : Layout} :
    l.section region = .ok data ↔
      l.store.size < 2 ^ 31 ∧ 16 * (l.records.size + 1) < 2 ^ 31 ∧
        data = sectionBytes (l.regionRecord region :: l.records.toList)
          (l.store ++ (l.trailer region).bytes) := by
  unfold Layout.section
  by_cases hstore : l.store.size < 2 ^ 31
  · by_cases hcount : 16 * (l.records.size + 1) < 2 ^ 31
    · rw [if_neg (by omega), if_neg (by omega)]
      simp only [hstore, hcount, true_and, Except.ok.injEq]
      simp [sectionBytes, regionRecord, trailer, ByteArray.append_assoc, eq_comm]
    · rw [if_neg (by omega), if_pos (by omega)]
      exact iff_of_false (by simp) fun h => hcount h.2.1
  · rw [if_pos (by omega)]
    exact iff_of_false (by simp) fun h => hstore h.1

end Layout

lemma exists_render (sort : Bool) (he : ∀ e ∈ entries, e.Placeable region)
    (hlength : entries.length < mostIndexEntries) (hroom : roomFor entries + 16 ≤ mostStoreSize) :
    ∃ data, renderEntries entries sort region = .ok data ∧ WithinLimits data := by
  set ordered := if sort then sortedByTag entries else entries with hordered
  have hperm : ordered.Perm entries := perm_of_sort sort entries
  have hroom' : roomFor ordered = roomFor entries := roomFor_perm hperm
  have hmost : mostStoreSize < 2 ^ 31 := by decide
  have hmost' : mostIndexEntries < 2 ^ 16 := by decide
  obtain ⟨l, hl, hrecords, hstore⟩ := Layout.exists_foldlM (l := {})
    (fun e h => he e (hperm.mem_iff.mp h)) (by simp; omega)
  rw [hperm.length_eq] at hrecords
  simp only [List.size_toArray, List.length_nil, ByteArray.size_empty] at hrecords hstore
  refine ⟨_, bind_eq_ok_iff.mpr ⟨l, hl, Layout.section_eq_ok_iff.mpr ⟨by omega, by omega, rfl⟩⟩,
    (withinLimits_sectionBytes_iff ?_ ?_).mpr ?_⟩ <;> simp <;> omega

end Rpm
