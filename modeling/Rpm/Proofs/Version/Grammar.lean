import Mathlib.Data.List.TakeDrop
import Mathlib.Data.List.TakeWhile
import Mathlib.Data.Option.Basic
import Rpm.Proofs.Except
import Rpm.Proofs.Text.Digits
import Rpm.Version

/-!
Which texts are versions.

A version is spelled as an epoch and a colon, a version text, and a hyphen and a release. No part has
the character that ends the one before it, so that the first colon and the first hyphen behind it tell
the parts apart, and there is no other way to read a text. Versions that are printed lose nothing but
zeros in front of the epoch.
-/

namespace Rpm.Version

/-! ### Splitting texts -/

section Splitting

variable {c : Char} {cs before after : List Char}

lemma splitAtFirst_append (h : c ∉ before) :
    splitAtFirst c (before ++ c :: after) = (before, some after) := by
  have hbefore : ∀ d ∈ before, decide (d ≠ c) = true := by
    intro d hd
    exact decide_eq_true fun heq => h (heq ▸ hd)
  rw [splitAtFirst, List.span_eq_takeWhile_dropWhile, List.takeWhile_append_of_pos hbefore,
    List.dropWhile_append_of_pos hbefore]
  simp

lemma splitAtFirst_of_notMem (h : c ∉ cs) : splitAtFirst c cs = (cs, none) := by
  have hcs : ∀ d ∈ cs, decide (d ≠ c) = true := by
    intro d hd
    exact decide_eq_true fun heq => h (heq ▸ hd)
  rw [splitAtFirst, List.span_eq_takeWhile_dropWhile, List.takeWhile_eq_self_iff.mpr hcs,
    List.dropWhile_eq_nil_iff.mpr hcs]

/-- A text without a character is not split, and any other one at the first place of it. -/
lemma splitAtFirst_cases (c : Char) (cs : List Char) :
    (c ∉ cs ∧ splitAtFirst c cs = (cs, none)) ∨
      ∃ before after, cs = before ++ c :: after ∧ c ∉ before ∧
        splitAtFirst c cs = (before, some after) := by
  by_cases h : c ∈ cs
  · obtain ⟨before, after, rfl, hbefore⟩ := List.eq_append_cons_of_mem h
    exact .inr ⟨before, after, rfl, hbefore, splitAtFirst_append hbefore⟩
  · exact .inl ⟨h, splitAtFirst_of_notMem h⟩

end Splitting

/-! ### The grammar -/

/-- Whether a text can be a version or a release: it has letters and digits of ASCII and five marks,
and at least one of all these. -/
structure IsPart (text : String) : Prop where
  ne_empty : text ≠ ""
  allowed : ∀ c ∈ text.toList, c.isAlphanum = true ∨ c ∈ ['.', '_', '+', '~', '^']

/-- Whether a text can stand for an epoch: it has digits, at least one, and they denote it. -/
structure IsEpoch (digits : String) (epoch : UInt32) : Prop where
  ne_empty : digits ≠ ""
  isDigit : ∀ c ∈ digits.toList, c.isDigit = true
  value_eq : Nat.ofDigitChars 10 digits.toList 0 = epoch.toNat

/-- A version text with what may stand in front of it and behind it. -/
def spelled (digits : Option String) (version : String) (release : Option String) : String :=
  digits.elim "" (· ++ ":") ++ version ++ release.elim "" ("-" ++ ·)

/-- Whether a text spells a version with these parts, its epoch in these digits. -/
structure Spells (s : String) (digits : Option String) (epoch : Option UInt32) (version : String)
    (release : Option String) : Prop where
  text_eq : s = spelled digits version release
  epoch : Option.Rel IsEpoch digits epoch
  version : IsPart version
  release : ∀ r ∈ release, IsPart r

/-- The digits of an epoch without superfluous zeros. -/
def withoutZeros (digits : String) : String := String.ofList (significant digits.toList)

/-! ### Parts -/

variable {s version whole : String} {release : Option String} {epoch : Option UInt32} {n : UInt32}
  {rest digits : List Char} {v : Version}

lemma isComponent_iff : isComponent version = true ↔ IsPart version := by
  have hempty : (!version.isEmpty) = true ↔ version ≠ "" := by
    rw [Bool.not_eq_true', ← Bool.not_eq_true, String.isEmpty_iff]
  have hchar : ∀ c, isVersionChar c = true ↔
      c.isAlphanum = true ∨ c ∈ ['.', '_', '+', '~', '^'] := by
    intro c
    simp [isVersionChar, or_assoc]
  rw [isComponent, Bool.and_eq_true, hempty, List.all_eq_true]
  simp only [hchar]
  exact ⟨fun ⟨hne, hall⟩ => ⟨hne, hall⟩, fun ⟨hne, hall⟩ => ⟨hne, hall⟩⟩

lemma isPart_text (c : Component) : IsPart c.text := isComponent_iff.mp c.isComponent_text

lemma isPart_of_mem_release : ∀ r ∈ v.release.map Component.text, IsPart r := by
  intro r hr
  obtain ⟨c, -, rfl⟩ := Option.mem_map.mp hr
  exact isPart_text c

lemma IsPart.notMem {c : Char} (h : IsPart version) (hc : isVersionChar c = false) :
    c ∉ version.toList := by
  intro hmem
  have hall := (Bool.and_eq_true _ _ ▸ isComponent_iff.mpr h).2
  rw [List.all_eq_true.mp hall c hmem] at hc
  contradiction

lemma new_eq_ok_iff : new epoch version release = .ok v ↔
    v.epoch = epoch ∧ v.version.text = version ∧ v.release.map Component.text = release := by
  constructor
  · intro h
    unfold new at h
    split_ifs at h
    cases release with
    | none =>
      obtain rfl := Except.ok.inj h
      exact ⟨rfl, rfl, rfl⟩
    | some r =>
      simp only at h
      split_ifs at h
      obtain rfl := Except.ok.inj h
      exact ⟨rfl, rfl, rfl⟩
  · obtain ⟨epoch', ⟨text, htext⟩, release'⟩ := v
    rintro ⟨rfl, rfl, rfl⟩
    rw [new, dif_pos htext]
    cases release' with
    | none => rfl
    | some r => exact dif_pos r.isComponent_text

lemma parseEpoch_eq_ok_iff : parseEpoch whole digits = .ok n ↔ IsEpoch (String.ofList digits) n := by
  have hempty : String.ofList digits ≠ "" ↔ digits ≠ [] := by
    rw [← String.toList_inj.ne, String.toList_ofList]
    rfl
  constructor
  · intro h
    unfold parseEpoch at h
    split_ifs at h with hform hfits
    rw [Bool.not_eq_true, Bool.or_eq_false_iff, List.isEmpty_eq_false_iff, Bool.not_eq_false',
      List.all_eq_true] at hform
    obtain rfl := Except.ok.inj h
    refine ⟨hempty.mpr hform.1, ?_, ?_⟩
    · rw [String.toList_ofList]
      exact hform.2
    · rw [String.toList_ofList, UInt32.toNat_ofNat_of_lt' hfits]
  · rintro ⟨hne, hdigit, hvalue⟩
    rw [String.toList_ofList] at hdigit hvalue
    have hform : (digits.isEmpty || !digits.all Char.isDigit) = false := by
      rw [Bool.or_eq_false_iff, List.isEmpty_eq_false_iff, Bool.not_eq_false', List.all_eq_true]
      exact ⟨hempty.mp hne, hdigit⟩
    rw [parseEpoch, hform, hvalue, if_neg (by simp), if_pos n.toNat_lt, UInt32.ofNat_toNat]

/-! ### Reading -/

/-- The characters of a version text and of what stands behind it. -/
def tailChars (version : String) (release : Option String) : List Char :=
  version.toList ++ release.elim [] ('-' :: ·.toList)

def parseTail (epoch : Option UInt32) (rest : List Char) : Except Error Version :=
  new epoch (String.ofList (splitAtFirst '-' rest).1) ((splitAtFirst '-' rest).2.map String.ofList)

lemma toList_spelled (digits : Option String) (version : String) (release : Option String) :
    (spelled digits version release).toList =
      digits.elim [] (·.toList ++ [':']) ++ tailChars version release := by
  cases digits <;> cases release <;> simp [spelled, tailChars]

lemma parseTail_eq_ok_iff : parseTail epoch rest = .ok v ↔
    v.epoch = epoch ∧ rest = tailChars v.version.text (v.release.map Component.text) := by
  rw [parseTail, new_eq_ok_iff]
  refine and_congr_right' ?_
  have hversion : '-' ∉ v.version.text.toList := (isPart_text v.version).notMem rfl
  constructor
  · rintro ⟨htext, hrelease⟩
    rcases splitAtFirst_cases '-' rest with ⟨-, hsplit⟩ | ⟨before, after, rfl, -, hsplit⟩
    · rw [hsplit] at htext hrelease
      rw [htext, hrelease, tailChars]
      simp
    · rw [hsplit] at htext hrelease
      rw [htext, hrelease, tailChars]
      simp
  · rintro rfl
    cases v.release with
    | none =>
      have hsplit := splitAtFirst_of_notMem hversion
      simp [tailChars, hsplit]
    | some r =>
      have hsplit := @splitAtFirst_append _ _ r.text.toList hversion
      simp [tailChars, hsplit]

lemma parse_of_notMem (h : ':' ∉ s.toList) : parse s = parseTail none s.toList := by
  rw [parse, splitAtFirst_of_notMem h]
  rfl

lemma parse_of_append (h : s.toList = digits ++ ':' :: rest) (hdigits : ':' ∉ digits) :
    parse s = parseEpoch s digits >>= fun epoch => parseTail (some epoch) rest := by
  rw [parse, h, splitAtFirst_append hdigits]
  simp only [pure_bind]
  rfl

lemma IsEpoch.notMem {digits : String} (h : IsEpoch digits n) : ':' ∉ digits.toList := by
  intro hmem
  have hdigit := h.isDigit _ hmem
  contradiction

lemma notMem_tailChars (v : Version) :
    ':' ∉ tailChars v.version.text (v.release.map Component.text) := by
  have hpart : ∀ c : Component, ':' ∉ c.text.toList := fun c => (isPart_text c).notMem rfl
  cases hr : v.release with
  | none => simpa [tailChars] using hpart v.version
  | some r => simp [tailChars, hpart v.version, hpart r]

/-- **Exactly the texts of the grammar are read**, and as their parts. -/
lemma parse_eq_ok_iff : parse s = .ok v ↔
    ∃ digits, Spells s digits v.epoch v.version.text (v.release.map Component.text) := by
  constructor
  · intro h
    by_cases hcolon : ':' ∈ s.toList
    · obtain ⟨before, rest, hsplit, hbefore⟩ := List.eq_append_cons_of_mem hcolon
      rw [parse_of_append hsplit hbefore] at h
      obtain ⟨n, hn, h⟩ := bind_eq_ok_iff.mp h
      obtain ⟨hepoch, rfl⟩ := parseTail_eq_ok_iff.mp h
      refine ⟨some (String.ofList before), ?_, ?_, isPart_text v.version, isPart_of_mem_release⟩
      · rw [← String.toList_inj, toList_spelled, hsplit]
        simp
      · rw [hepoch]
        exact .some (parseEpoch_eq_ok_iff.mp hn)
    · rw [parse_of_notMem hcolon] at h
      obtain ⟨hepoch, hrest⟩ := parseTail_eq_ok_iff.mp h
      refine ⟨none, ?_, ?_, isPart_text v.version, isPart_of_mem_release⟩
      · rw [← String.toList_inj, toList_spelled, hrest]
        rfl
      · rw [hepoch]
        exact .none
  · rintro ⟨digits, htext, hepoch, -, -⟩
    have hchars := toList_spelled digits v.version.text (v.release.map Component.text)
    rw [← htext] at hchars
    generalize hv : v.epoch = epoch at hepoch
    cases hepoch with
    | none =>
      replace hchars : s.toList = tailChars v.version.text (v.release.map Component.text) := hchars
      rw [parse_of_notMem (hchars ▸ notMem_tailChars v)]
      exact parseTail_eq_ok_iff.mpr ⟨hv, hchars⟩
    | @some ds n hds =>
      replace hchars : s.toList = ds.toList ++ ':' ::
          tailChars v.version.text (v.release.map Component.text) := by
        rw [hchars, Option.elim_some, List.append_assoc, List.singleton_append]
      rw [parse_of_append hchars hds.notMem, bind_eq_ok_iff]
      refine ⟨n, parseEpoch_eq_ok_iff.mpr ?_, parseTail_eq_ok_iff.mpr ⟨hv, rfl⟩⟩
      rwa [String.ofList_toList]

lemma exists_parse_of_spells {digits : Option String} (h : Spells s digits epoch version release) :
    ∃ v, parse s = .ok v ∧ v.epoch = epoch ∧ v.version.text = version ∧
      v.release.map Component.text = release := by
  have hversion := isComponent_iff.mpr h.version
  obtain ⟨r, hr⟩ : ∃ r : Option Component, r.map Component.text = release := by
    cases release with
    | none => exact ⟨none, rfl⟩
    | some text => exact ⟨some ⟨text, isComponent_iff.mpr (h.release text rfl)⟩, rfl⟩
  exact ⟨⟨epoch, ⟨version, hversion⟩, r⟩, parse_eq_ok_iff.mpr ⟨digits, hr.symm ▸ h⟩, rfl, rfl, hr⟩

/-! ### Printing -/

def epochDigits (n : UInt32) : String := toString n.toNat

lemma toList_epochDigits (n : UInt32) : (epochDigits n).toList = Nat.toDigits 10 n.toNat :=
  Nat.toList_repr

lemma isEpoch_epochDigits (n : UInt32) : IsEpoch (epochDigits n) n where
  ne_empty := by
    rw [← String.toList_inj.ne, toList_epochDigits]
    exact Nat.toDigits_ne_nil
  isDigit c hc := by
    rw [toList_epochDigits] at hc
    exact Nat.isDigit_of_mem_toDigits (by decide) (by decide) hc
  value_eq := by rw [toList_epochDigits, Nat.ofDigitChars_toDigits (by decide) (by decide)]

lemma withoutZeros_eq {digits : String} (h : IsEpoch digits n) :
    withoutZeros digits = epochDigits n := by
  rw [withoutZeros, ← toDigits_ofDigitChars h.isDigit, h.value_eq, ← toList_epochDigits,
    String.ofList_toList]

lemma display_eq (v : Version) : v.display =
    spelled (v.epoch.map epochDigits) v.version.text (v.release.map Component.text) := by
  unfold display spelled
  cases v.epoch <;> cases v.release <;> rfl

/-- **What is printed is read back.** -/
lemma parse_display (v : Version) : parse v.display = .ok v := by
  refine parse_eq_ok_iff.mpr ⟨v.epoch.map epochDigits, display_eq v, ?_, isPart_text v.version,
    isPart_of_mem_release⟩
  cases v.epoch with
  | none => exact .none
  | some n => exact .some (isEpoch_epochDigits n)

lemma display_of_spells {digits : Option String}
    (h : Spells s digits v.epoch v.version.text (v.release.map Component.text)) : v.display =
      spelled (digits.map withoutZeros) v.version.text (v.release.map Component.text) := by
  have hdigits : digits.map withoutZeros = v.epoch.map epochDigits := by
    have hepoch := h.epoch
    generalize v.epoch = epoch at hepoch
    cases hepoch with
    | none => rfl
    | some hds => exact congrArg some (withoutZeros_eq hds)
  rw [display_eq, hdigits]

/-- **Versions are read by their grammar.** A text is read exactly if it spells a version, and gives the
parts that it spells. Printed again, it has lost the superfluous zeros in front of its epoch and
nothing else. And every version with parts that it may have is read back from its text. -/
theorem parse_iff_spells (s : String) :
    ((∃ v, parse s = .ok v) ↔
      ∃ digits epoch version release, Spells s digits epoch version release) ∧
    (∀ v digits epoch version release, parse s = .ok v → Spells s digits epoch version release →
      v.epoch = epoch ∧ v.version.text = version ∧ v.release.map Component.text = release ∧
        v.display = spelled (digits.map withoutZeros) version release) ∧
    ∀ epoch version release v, new epoch version release = .ok v →
      parse v.display = .ok v ∧ v.epoch = epoch ∧ v.version.text = version ∧
        v.release.map Component.text = release := by
  refine ⟨⟨fun ⟨v, hv⟩ => ?_, fun ⟨_, _, _, _, h⟩ => ?_⟩,
    fun v digits epoch version release hv h => ?_, fun epoch version release v hv => ?_⟩
  · obtain ⟨digits, hspells⟩ := parse_eq_ok_iff.mp hv
    exact ⟨digits, _, _, _, hspells⟩
  · obtain ⟨v, hv, -⟩ := exists_parse_of_spells h
    exact ⟨v, hv⟩
  · obtain ⟨w, hw, hepoch, hversion, hrelease⟩ := exists_parse_of_spells h
    obtain rfl := Except.ok.inj (hw.symm.trans hv)
    subst hepoch hversion hrelease
    exact ⟨rfl, rfl, rfl, display_of_spells h⟩
  · exact ⟨parse_display v, new_eq_ok_iff.mp hv⟩

theorem parse_iff_spells_zeros : ∃ v, parse "007:1.0~rc1-2.fc35" = .ok v ∧ v.epoch = some 7 ∧
    v.display = "7:1.0~rc1-2.fc35" := by
  have hrelease : ∀ r ∈ some "2.fc35", IsPart r := by
    intro r hr
    obtain rfl := Option.mem_some_iff.mp hr
    exact isComponent_iff.mp (by decide)
  have hepoch : IsEpoch "007" 7 := ⟨by decide, List.all_eq_true.mp (by decide), by decide⟩
  have hspells : Spells "007:1.0~rc1-2.fc35" (some "007") (some 7) "1.0~rc1" (some "2.fc35") :=
    ⟨by decide, .some hepoch, isComponent_iff.mp (by decide), hrelease⟩
  obtain ⟨hread, hparts, -⟩ := parse_iff_spells "007:1.0~rc1-2.fc35"
  obtain ⟨v, hv⟩ := hread.mpr ⟨_, _, _, _, hspells⟩
  obtain ⟨hepoch, -, -, hdisplay⟩ := hparts v _ _ _ _ hv hspells
  exact ⟨v, hv, hepoch, hdisplay⟩

end Rpm.Version
