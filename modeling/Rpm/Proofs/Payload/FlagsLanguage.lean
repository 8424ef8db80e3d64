import Mathlib.Computability.Language
import Mathlib.Data.Set.Function
import Rpm.Proofs.Payload.Flags
import Rpm.Proofs.Text.Digits

/-!
Which texts are payload flags.

The flags of each coding are a language: a concatenation of parts that may be left out. Every part
is a number that is set or not, written after its letter, and these texts are just the numerals
without superfluous zeros. So the language of a coding has the texts of those flags that it fits,
and each of these once, for they are read back from their text.
-/

namespace Rpm.PayloadFlags

/-! ### The languages -/

/-- Whether characters are a numeral: digits without superfluous zeros, at most nine. -/
structure IsNumeral (digits : List Char) : Prop where
  isDigit : ∀ c ∈ digits, c.isDigit = true
  significant_eq : significant digits = digits
  length_le : digits.length ≤ 9

/-- The numerals of numbers that have a property. -/
def numeral (P : Nat → Prop) : Language Char :=
  {digits | IsNumeral digits ∧ P (Nat.ofDigitChars 10 digits 0)}

/-- Single digits from a first one on. -/
def digit (first : Char) : Language Char := {digits | ∃ c, first ≤ c ∧ c ≤ '9' ∧ digits = [c]}

/-- The texts that are flags of a coding. -/
def language : Coding → Language Char
  | .none => 1
  | .gzip | .lzma => 1 + digit '0'
  | .bzip2 => (1 + digit '1') * (1 + {['s']})
  | .xz => (1 + digit '0') * (1 + {['T']} * numeral fun _ => True)
  | .zstd =>
    (1 + numeral (· ≤ 22)) * (1 + {['T']} * numeral fun _ => True) *
      (1 + {['L']} * numeral fun n => 10 ≤ n ∧ n ≤ 31)

/-! ### Numbers as parts -/

/-- The texts of a part that is a number after some letters, or is not set. -/
def numbers (letters : List Char) (p : UInt32 → Bool) : Language Char :=
  {cs | ∃ n : Option UInt32, n.all p = true ∧ numberChars letters n = cs}

/-- The texts of the part that is the mark for little memory, which only one coding has. -/
def marks (c : Coding) : Language Char :=
  {cs | ∃ small : Bool, (small = true → c = .bzip2) ∧ smallChars small = cs}

variable {letters cs : List Char} {p : UInt32 → Bool} {P : Nat → Prop} {l : Language Char}

lemma mem_numbers_iff : cs ∈ numbers letters p ↔
    ∃ n : Option UInt32, n.all p = true ∧ numberChars letters n = cs := Iff.rfl

lemma isNumeral_toDigits_iff {n : Nat} : IsNumeral (Nat.toDigits 10 n) ↔ n < 10 ^ 9 := by
  have hdigits : ∀ c ∈ Nat.toDigits 10 n, c.isDigit = true := fun c hc =>
    Nat.isDigit_of_mem_toDigits (by decide) (by decide) hc
  have hlength := Nat.length_toDigits_le_iff (b := 10) (n := n) (by decide) (show 0 < 9 by decide)
  refine ⟨fun h => hlength.mp h.length_le, fun h => ⟨hdigits, ?_, hlength.mpr h⟩⟩
  rw [← toDigits_ofDigitChars hdigits, Nat.ofDigitChars_toDigits (by decide) (by decide)]

/-- **Numerals are how numbers are written.** -/
lemma mem_numeral_iff : cs ∈ numeral P ↔
    ∃ n : UInt32, n.toNat < 10 ^ 9 ∧ P n.toNat ∧ Nat.toDigits 10 n.toNat = cs := by
  constructor
  · rintro ⟨h, hP⟩
    have hcs : Nat.toDigits 10 (Nat.ofDigitChars 10 cs 0) = cs :=
      (toDigits_ofDigitChars h.isDigit).trans h.significant_eq
    have hlt : Nat.ofDigitChars 10 cs 0 < 10 ^ 9 := isNumeral_toDigits_iff.mp (hcs.symm ▸ h)
    have hn : (UInt32.ofNat (Nat.ofDigitChars 10 cs 0)).toNat = Nat.ofDigitChars 10 cs 0 :=
      UInt32.toNat_ofNat_of_lt (Nat.lt_trans hlt (by decide))
    exact ⟨_, hn.symm ▸ hlt, hn.symm ▸ hP, hn.symm ▸ hcs⟩
  · rintro ⟨n, hlt, hP, rfl⟩
    refine ⟨isNumeral_toDigits_iff.mpr hlt, ?_⟩
    rwa [Nat.ofDigitChars_toDigits (by decide) (by decide)]

lemma mem_digit_iff {first : Char} (hfirst : '0' ≤ first) : cs ∈ digit first ↔
    ∃ n : UInt32, (first.toNat ≤ 48 + n.toNat ∧ n.toNat ≤ 9) ∧ Nat.toDigits 10 n.toNat = cs := by
  constructor
  · rintro ⟨c, hge, hle, rfl⟩
    have hge' : first.toNat ≤ c.toNat := hge
    have hle' : c.toNat ≤ 57 := hle
    have hdigit : c.isDigit = true :=
      Char.isDigit_iff_toNat.mpr ⟨Nat.le_trans hfirst hge', hle'⟩
    obtain ⟨hlt, hchar⟩ := toDigits_of_isDigit hdigit
    have hn : (UInt32.ofNat (c.toNat - '0'.toNat)).toNat = c.toNat - '0'.toNat :=
      UInt32.toNat_ofNat_of_lt (Nat.lt_trans hlt (by decide))
    rw [show '0'.toNat = 48 from rfl] at hlt hchar hn
    refine ⟨UInt32.ofNat (c.toNat - 48), ⟨?_, ?_⟩, ?_⟩ <;> rw [hn]
    · omega
    · omega
    · exact hchar
  · rintro ⟨n, ⟨hge, hle⟩, rfl⟩
    have hchar : ∀ n ≤ 9, Nat.toDigits 10 n = [Char.ofNat (48 + n)] ∧
        (Char.ofNat (48 + n)).toNat = 48 + n := by decide
    obtain ⟨hdigits, hvalue⟩ := hchar n.toNat hle
    refine ⟨_, ?_, ?_, hdigits⟩
    · show first.toNat ≤ (Char.ofNat (48 + n.toNat)).toNat
      rwa [hvalue]
    · show (Char.ofNat (48 + n.toNat)).toNat ≤ 57
      omega

lemma one_add_eq_numbers (h : ∀ cs, cs ∈ l ↔
    ∃ n : UInt32, p n = true ∧ letters ++ Nat.toDigits 10 n.toNat = cs) :
    1 + l = numbers letters p := by
  refine Language.ext fun cs => ?_
  rw [Language.mem_add, Language.mem_one, mem_numbers_iff, h]
  constructor
  · rintro (rfl | ⟨n, hn, rfl⟩)
    · exact ⟨none, rfl, rfl⟩
    · exact ⟨some n, hn, rfl⟩
  · rintro ⟨_ | n, hn, rfl⟩
    · exact .inl rfl
    · exact .inr ⟨n, hn, rfl⟩

lemma one_eq_numbers (letters : List Char) : 1 = numbers letters fun _ => false := by
  rw [← one_add_eq_numbers (l := 0) (by simp), add_zero]

lemma one_add_digit {first : Char} (hfirst : '0' ≤ first)
    (hp : ∀ n, p n = true ↔ first.toNat ≤ 48 + n.toNat ∧ n.toNat ≤ 9) :
    1 + digit first = numbers [] p :=
  one_add_eq_numbers fun cs => by simp only [mem_digit_iff hfirst, hp, List.nil_append]

lemma one_add_numeral (hp : ∀ n, p n = true ↔ n.toNat < 10 ^ 9 ∧ P n.toNat) :
    1 + numeral P = numbers [] p :=
  one_add_eq_numbers fun cs => by simp only [mem_numeral_iff, hp, List.nil_append, and_assoc]

lemma one_add_letter_mul_numeral {letter : Char}
    (hp : ∀ n, p n = true ↔ n.toNat < 10 ^ 9 ∧ P n.toNat) :
    1 + {[letter]} * numeral P = numbers [letter] p := by
  refine one_add_eq_numbers fun cs => ?_
  rw [Language.mem_mul]
  constructor
  · rintro ⟨_, rfl, digits, hdigits, rfl⟩
    obtain ⟨n, hlt, hP, rfl⟩ := mem_numeral_iff.mp hdigits
    exact ⟨n, (hp n).mpr ⟨hlt, hP⟩, rfl⟩
  · rintro ⟨n, hn, rfl⟩
    obtain ⟨hlt, hP⟩ := (hp n).mp hn
    exact ⟨_, rfl, _, mem_numeral_iff.mpr ⟨n, hlt, hP, rfl⟩, rfl⟩

lemma one_eq_marks {c : Coding} (hc : c ≠ .bzip2) : 1 = marks c := by
  refine Language.ext fun cs => ?_
  rw [Language.mem_one]
  constructor
  · rintro rfl
    exact ⟨false, by simp, rfl⟩
  · rintro ⟨_ | _, hsmall, rfl⟩
    · rfl
    · exact absurd (hsmall rfl) hc

lemma one_add_mark : 1 + {['s']} = marks .bzip2 := by
  refine Language.ext fun cs => ?_
  rw [Language.mem_add, Language.mem_one]
  constructor
  · rintro (rfl | rfl)
    · exact ⟨false, by simp, rfl⟩
    · exact ⟨true, by simp, rfl⟩
  · rintro ⟨_ | _, -, rfl⟩
    · exact .inl rfl
    · exact .inr rfl

lemma numbers_isThreads {c : Coding} (hc : c ≠ .xz ∧ c ≠ .zstd) :
    numbers ['T'] (isThreads c) = 1 := by
  have hp : isThreads c = fun _ => false := by
    funext n
    cases c <;> simp_all [isThreads]
  rw [hp, one_eq_numbers]

lemma numbers_isWindow {c : Coding} (hc : c ≠ .zstd) : numbers ['L'] (isWindow c) = 1 := by
  have hp : isWindow c = fun _ => false := by
    funext n
    cases c <;> simp_all [isWindow]
  rw [hp, one_eq_numbers]

lemma one_add_threads {c : Coding} (hc : c = .xz ∨ c = .zstd) :
    1 + {['T']} * numeral (fun _ => True) = numbers ['T'] (isThreads c) := by
  refine one_add_letter_mul_numeral fun n => ?_
  rcases hc with rfl | rfl <;> simp [isThreads, UInt32.lt_iff_toNat_lt]

/-- **The languages by their parts.** All codings have the same ones, of which some cannot be set.
-/
lemma language_eq (c : Coding) : language c = numbers [] (isLevel c) *
    (marks c * (numbers ['T'] (isThreads c) * numbers ['L'] (isWindow c))) := by
  have hlevel : ∀ c, c = .gzip ∨ c = .lzma ∨ c = .xz → 1 + digit '0' = numbers [] (isLevel c) := by
    rintro c (rfl | rfl | rfl) <;>
      exact one_add_digit (by decide) fun n => by simp [isLevel, UInt32.le_iff_toNat_le]
  cases c with
  | none =>
    rw [numbers_isThreads (by simp), numbers_isWindow (by simp), ← one_eq_marks (by simp), mul_one,
      mul_one, mul_one]
    exact one_eq_numbers []
  | gzip | lzma =>
    rw [numbers_isThreads (by simp), numbers_isWindow (by simp), ← one_eq_marks (by simp), mul_one,
      mul_one, mul_one, ← hlevel _ (by simp)]
    rfl
  | bzip2 =>
    rw [numbers_isThreads (by simp), numbers_isWindow (by simp), ← one_add_mark, mul_one, mul_one]
    refine congrArg (· * _) (one_add_digit (by decide) fun n => ?_)
    rw [show '1'.toNat = 49 from rfl, isLevel, Bool.and_eq_true, decide_eq_true_eq,
      decide_eq_true_eq, UInt32.le_iff_toNat_le, UInt32.le_iff_toNat_le]
    simp only [UInt32.reduceToNat]
    omega
  | xz =>
    rw [numbers_isWindow (by simp), ← one_eq_marks (by simp), one_mul, mul_one,
      ← hlevel _ (by simp), ← one_add_threads (.inl rfl)]
    rfl
  | zstd =>
    have hlevel : 1 + numeral (· ≤ 22) = numbers [] (isLevel .zstd) := by
      refine one_add_numeral fun n => ?_
      rw [isLevel, decide_eq_true_eq, UInt32.le_iff_toNat_le]
      simp only [UInt32.reduceToNat]
      omega
    have hwindow : 1 + {['L']} * numeral (fun n => 10 ≤ n ∧ n ≤ 31) =
        numbers ['L'] (isWindow .zstd) := by
      refine one_add_letter_mul_numeral fun n => ?_
      rw [isWindow, isWindowLog, Bool.and_eq_true, decide_eq_true_eq, decide_eq_true_eq,
        UInt32.le_iff_toNat_le, UInt32.le_iff_toNat_le]
      simp only [UInt32.reduceToNat]
      omega
    rw [← one_eq_marks (by simp), one_mul, ← mul_assoc, ← one_add_threads (.inr rfl), ← hlevel,
      ← hwindow]
    rfl

/-! ### Flags and their texts -/

variable {c : Coding} {s : String} {f : PayloadFlags}

lemma mem_language_iff : cs ∈ language c ↔
    ∃ f : PayloadFlags, f.coding = c ∧ f.fits = true ∧ f.display.toList = cs := by
  rw [language_eq]
  constructor
  · rintro ⟨_, ⟨level, hlevel, rfl⟩, _, ⟨_, ⟨small, hsmall, rfl⟩, _,
      ⟨_, ⟨threads, hthreads, rfl⟩, _, ⟨windowLog, hwindow, rfl⟩, rfl⟩, rfl⟩, rfl⟩
    exact ⟨⟨c, level, threads, windowLog, small⟩, rfl,
      fits_iff.mpr ⟨hlevel, hsmall, hthreads, hwindow⟩, toList_display _⟩
  · rintro ⟨f, rfl, hfits, rfl⟩
    obtain ⟨hlevel, hsmall, hthreads, hwindow⟩ := fits_iff.mp hfits
    rw [toList_display]
    refine Language.append_mem_mul ⟨_, hlevel, rfl⟩ ?_
    refine Language.append_mem_mul ⟨_, hsmall, rfl⟩ ?_
    exact Language.append_mem_mul ⟨_, hthreads, rfl⟩ ⟨_, hwindow, rfl⟩

lemma parse_eq_ok_iff :
    parse c s = .ok f ↔ (f.coding = c ∧ f.fits = true) ∧ f.display = s := by
  constructor
  · intro h
    obtain ⟨hc, hs⟩ := of_parse_eq_ok h
    exact ⟨⟨hc, fits_of_parse h⟩, hs⟩
  · rintro ⟨⟨rfl, hfits⟩, rfl⟩
    rw [parse_display, if_pos hfits]

/-- **Flags and their texts correspond.** A text is read as flags of a coding exactly if it is in
the language of that coding. What is read are the flags that fit the coding and have this text, and
so reading undoes writing, and writing reading: flags that fit and texts of the language are in
bijection. -/
theorem parse_bijection (c : Coding) :
    (∀ s, (∃ f, parse c s = .ok f) ↔ s.toList ∈ language c) ∧
    (∀ s f, parse c s = .ok f ↔ (f.coding = c ∧ f.fits = true) ∧ f.display = s) ∧
    Set.BijOn display {f | f.coding = c ∧ f.fits = true} {s | s.toList ∈ language c} := by
  have hread : ∀ s, (∃ f, parse c s = .ok f) ↔ s.toList ∈ language c := fun s => by
    simp only [parse_eq_ok_iff, mem_language_iff, String.toList_inj, and_assoc]
  refine ⟨hread, fun s f => parse_eq_ok_iff, fun f hf => ?_, fun f hf g hg hfg => ?_,
    fun s hs => ?_⟩
  · exact (hread f.display).mp ⟨f, parse_eq_ok_iff.mpr ⟨hf, rfl⟩⟩
  · -- Both are what their common text is read as.
    have hf' := parse_eq_ok_iff.mpr ⟨hf, rfl⟩
    have hg' := parse_eq_ok_iff.mpr ⟨hg, hfg.symm⟩
    exact Except.ok.inj (hf'.symm.trans hg')
  · obtain ⟨f, hf⟩ := (hread s).mpr hs
    obtain ⟨hfits, hdisplay⟩ := parse_eq_ok_iff.mp hf
    exact ⟨f, hfits, hdisplay⟩

end Rpm.PayloadFlags
