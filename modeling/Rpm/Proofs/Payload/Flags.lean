import Mathlib.Tactic.Common
import Rpm.Bytes.Basic
import Rpm.Payload.Flags

/-!
Payload flags read back from their text.

The letters of a text tell its parts apart, so that each part is read as it was written if it has few
enough digits. What is left when a coding does not have a part, or has it with other numbers, is not
read at all; so flags are read back exactly if their coding has all that they set (`fits`).
-/

namespace Rpm

/-! ### Numbers -/

/-- Whether a text does not go on with one of these characters. -/
def StartsOutside (p : Char → Bool) (cs : List Char) : Prop := ∀ c ∈ cs.head?, p c = false

lemma takeWhile_append_eq {p : Char → Bool} {front rest : List Char} (hfront : ∀ c ∈ front, p c)
    (hrest : StartsOutside p rest) : (front ++ rest).takeWhile p = front := by
  have hstop : rest.takeWhile p = [] := by
    cases rest with
    | nil => rfl
    | cons c rest => rw [List.takeWhile_cons, hrest c rfl]; rfl
  rw [List.takeWhile_append_of_pos hfront, hstop, List.append_nil]

namespace PayloadFlags

/-- The characters of a number after some letters, if it is set. -/
def numberChars (letters : List Char) : Option UInt32 → List Char
  | none => []
  | some n => letters ++ Nat.toDigits 10 n.toNat

/-- The character that stands for little memory. -/
def smallChars (small : Bool) : List Char := if small then ['s'] else []

lemma numberChars_eq_nil_iff {letters : List Char} {n : Option UInt32} :
    numberChars letters n = [] ↔ n = none := by
  cases n <;> simp [numberChars, Nat.toDigits_ne_nil]

lemma toList_part (letter : String) (n : Option UInt32) :
    (part letter n).toList = numberChars letter.toList n := by
  cases n with
  | none => rfl
  | some n => rw [part, String.toList_append, Nat.toString_eq_repr, Nat.toList_repr, numberChars]

lemma toList_display (f : PayloadFlags) : f.display.toList =
    numberChars [] f.level ++ (smallChars f.small ++
      (numberChars ['T'] f.threads ++ numberChars ['L'] f.windowLog)) := by
  have hsmall : (if f.small then "s" else "").toList = smallChars f.small := by
    cases f.small <;> rfl
  simp only [display, String.toList_append, toList_part, hsmall, List.append_assoc]
  rfl

lemma ofDigitChars_toDigits (n : UInt32) :
    UInt32.ofNat (Nat.ofDigitChars 10 (Nat.toDigits 10 n.toNat) 0) = n := by
  rw [Nat.ofDigitChars_toDigits (by decide) (by decide), UInt32.ofNat_toNat]

variable {most : Nat} {n : Option UInt32} {letter : Char} {rest : List Char}

/-- **A number is read back** if it has few enough digits. -/
lemma readNumber_numberChars (hmost : 0 < most) (hrest : StartsOutside Char.isDigit rest) :
    readNumber most (numberChars [] n ++ rest) =
      if n.all (·.toNat < 10 ^ most) then some (n, rest) else none := by
  cases n with
  | none =>
    have hdigits : (numberChars [] none ++ rest).takeWhile Char.isDigit = [] :=
      takeWhile_append_eq (by simp [numberChars]) hrest
    simp only [readNumber, hdigits, List.isEmpty_nil, if_true, Option.all_none]
    rfl
  | some n =>
    have hdigits : (numberChars [] (some n) ++ rest).takeWhile Char.isDigit =
        Nat.toDigits 10 n.toNat :=
      takeWhile_append_eq (fun c hc => Nat.isDigit_of_mem_toDigits (by decide) (by decide) hc) hrest
    have hlength := Nat.length_toDigits_le_iff (b := 10) (n := n.toNat) (by decide) hmost
    have hempty : (Nat.toDigits 10 n.toNat).isEmpty = false := by
      rw [List.isEmpty_eq_false_iff]
      exact Nat.toDigits_ne_nil
    have hdrop : (numberChars [] (some n) ++ rest).drop (Nat.toDigits 10 n.toNat).length = rest :=
      List.drop_left
    simp only [readNumber, hdigits, hempty, Bool.false_eq_true, if_false, hdrop, ofDigitChars_toDigits,
      gt_iff_lt, ← Nat.not_le, hlength, Option.all_some, decide_eq_true_eq, ite_not]

lemma readPart_numberChars (hrest : StartsOutside (fun c => c.isDigit || c = letter) rest) :
    readPart letter (numberChars [letter] n ++ rest) =
      if n.all (·.toNat < 10 ^ 9) then some (n, rest) else none := by
  have hother : ∀ c ∈ rest.head?, c.isDigit = false ∧ c ≠ letter := by
    intro c hc
    have h := hrest c hc
    rw [Bool.or_eq_false_iff, decide_eq_false_iff_not] at h
    exact h
  cases n with
  | none =>
    cases rest with
    | nil => rfl
    | cons c rest =>
      show (if c ≠ letter then some (none, c :: rest) else _) = _
      rw [if_pos (hother c rfl).2]
      rfl
  | some n =>
    have hnumber := readNumber_numberChars (n := some n) (show 0 < 9 by decide)
      fun c hc => (hother c hc).1
    show readPart letter (letter :: (numberChars [] (some n) ++ rest)) = _
    simp only [readPart, if_neg (not_not_intro rfl), hnumber]
    cases (some n).all (·.toNat < 10 ^ 9) <;> rfl

lemma readMark_smallChars {small : Bool} (hrest : StartsOutside (· = 's') rest) :
    readMark 's' (smallChars small ++ rest) = (small, rest) := by
  cases small with
  | true => rfl
  | false =>
    cases rest with
    | nil => rfl
    | cons c rest =>
      show (if c = 's' then (true, rest) else (false, c :: rest)) = _
      rw [if_neg (of_decide_eq_false (hrest c rfl))]

/-! ### The text of flags -/

lemma startsOutside_nil {p : Char → Bool} : StartsOutside p [] := by simp [StartsOutside]

lemma startsOutside_numberChars {p : Char → Bool} (hp : p letter = false)
    (hrest : StartsOutside p rest) : StartsOutside p (numberChars [letter] n ++ rest) := by
  cases n with
  | none => exact hrest
  | some n =>
    intro c hc
    obtain rfl : letter = c := Option.some.inj hc
    exact hp

lemma startsOutside_smallChars {p : Char → Bool} (hp : p 's' = false) {small : Bool}
    (hrest : StartsOutside p rest) : StartsOutside p (smallChars small ++ rest) := by
  cases small with
  | false => exact hrest
  | true =>
    intro c hc
    obtain rfl : 's' = c := Option.some.inj hc
    exact hp

section Text

variable (f : PayloadFlags)

/-- The characters of flags behind their threads. -/
def windowChars : List Char := numberChars ['L'] f.windowLog

def threadChars : List Char := numberChars ['T'] f.threads ++ f.windowChars

def markChars : List Char := smallChars f.small ++ f.threadChars

lemma startsOutside_windowChars {p : Char → Bool} (hp : p 'L' = false) :
    StartsOutside p f.windowChars := by
  rw [windowChars, ← List.append_nil (numberChars _ _)]
  exact startsOutside_numberChars hp startsOutside_nil

lemma readNumber_display (hmost : 0 < most) : readNumber most f.display.toList =
    if f.level.all (·.toNat < 10 ^ most) then some (f.level, f.markChars) else none := by
  rw [toList_display]
  exact readNumber_numberChars hmost (startsOutside_smallChars (by decide)
    (startsOutside_numberChars (by decide) (f.startsOutside_windowChars (by decide))))

lemma readMark_markChars : readMark 's' f.markChars = (f.small, f.threadChars) :=
  readMark_smallChars (startsOutside_numberChars (by decide)
    (f.startsOutside_windowChars (by decide)))

lemma readPart_threadChars : readPart 'T' f.threadChars =
    if f.threads.all (·.toNat < 10 ^ 9) then some (f.threads, f.windowChars) else none :=
  readPart_numberChars (f.startsOutside_windowChars (by decide))

lemma readPart_windowChars : readPart 'L' f.windowChars =
    if f.windowLog.all (·.toNat < 10 ^ 9) then some (f.windowLog, []) else none := by
  rw [windowChars, ← List.append_nil (numberChars _ _)]
  exact readPart_numberChars startsOutside_nil

lemma smallChars_eq_nil_iff {small : Bool} : smallChars small = [] ↔ small = false := by
  cases small <;> simp [smallChars]

lemma threadChars_eq_nil_iff : f.threadChars = [] ↔ f.threads = none ∧ f.windowLog = none := by
  rw [threadChars, windowChars, List.append_eq_nil_iff, numberChars_eq_nil_iff,
    numberChars_eq_nil_iff]

lemma markChars_eq_nil_iff :
    f.markChars = [] ↔ f.small = false ∧ f.threads = none ∧ f.windowLog = none := by
  rw [markChars, List.append_eq_nil_iff, smallChars_eq_nil_iff, threadChars_eq_nil_iff]

lemma display_eq_nil_iff : f.display.toList = [] ↔
    f.level = none ∧ f.small = false ∧ f.threads = none ∧ f.windowLog = none := by
  rw [toList_display, List.append_eq_nil_iff, numberChars_eq_nil_iff]
  exact and_congr_right' f.markChars_eq_nil_iff

end Text

/-! ### What a coding has -/

/-- The levels that the flags of a coding may name. -/
def isLevel (c : Coding) (n : UInt32) : Bool :=
  match c with
  | .none => false
  | .gzip | .lzma | .xz => n ≤ 9
  | .bzip2 => 1 ≤ n && n ≤ 9
  | .zstd => n ≤ 22

/-- The numbers of threads that the flags of a coding may name: those with at most nine digits. -/
def isThreads (c : Coding) (n : UInt32) : Bool :=
  match c with
  | .xz | .zstd => n < 1000000000
  | _ => false

/-- The windows that the flags of a coding may name. -/
def isWindow (c : Coding) (n : UInt32) : Bool :=
  match c with
  | .zstd => isWindowLog n
  | _ => false

/-- Whether the coding of flags has all that they set. -/
def fits (f : PayloadFlags) : Bool :=
  f.level.all (isLevel f.coding) && (!f.small || f.coding = .bzip2) &&
    f.threads.all (isThreads f.coding) && f.windowLog.all (isWindow f.coding)

variable {f g : PayloadFlags}

lemma fits_iff : f.fits = true ↔ f.level.all (isLevel f.coding) = true ∧
    (f.small = true → f.coding = .bzip2) ∧ f.threads.all (isThreads f.coding) = true ∧
    f.windowLog.all (isWindow f.coding) = true := by
  simp only [fits, Bool.and_eq_true, Bool.or_eq_true, Bool.not_eq_true', decide_eq_true_eq,
    and_assoc, ← Bool.not_eq_true, imp_iff_not_or]

lemma all_isThreads_iff (hc : f.coding ≠ .xz ∧ f.coding ≠ .zstd) :
    f.threads.all (isThreads f.coding) = true ↔ f.threads = none := by
  cases f.threads with
  | none => simp
  | some n => cases hcoding : f.coding <;> simp_all [isThreads]

lemma all_isWindow_iff (hc : f.coding ≠ .zstd) :
    f.windowLog.all (isWindow f.coding) = true ↔ f.windowLog = none := by
  cases f.windowLog with
  | none => simp
  | some n => cases hcoding : f.coding <;> simp_all [isWindow]

lemma all_iff_and_of_imp {p q : UInt32 → Bool} (h : ∀ n, q n = true → p n = true)
    {n : Option UInt32} : n.all q = true ↔ n.all p = true ∧ n.all q = true := by
  cases n with
  | none => simp
  | some n => exact ⟨fun hn => ⟨h n hn, hn⟩, And.right⟩

lemma all_le_iff {n : Option UInt32} {bound : UInt32} {digits : Nat}
    (h : bound.toNat + 1 = 10 ^ digits) :
    n.all (· ≤ bound) = true ↔ n.all (·.toNat < 10 ^ digits) = true := by
  cases n with
  | none => rfl
  | some n =>
    simp only [Option.all_some, decide_eq_true_eq, UInt32.le_iff_toNat_le]
    omega

lemma all_isThreads_iff_lt (hc : f.coding = .xz ∨ f.coding = .zstd) :
    f.threads.all (isThreads f.coding) = true ↔ f.threads.all (·.toNat < 10 ^ 9) = true := by
  rcases hc with hc | hc <;> rw [hc] <;> rfl

lemma fits_iff_of_xz (hc : f.coding = .xz) : f.fits = true ↔ f.small = false ∧
    (f.level.all (·.toNat < 10 ^ 1) && f.threads.all (·.toNat < 10 ^ 9)) = true ∧
    f.windowLog = none := by
  have hlevel : f.level.all (isLevel f.coding) = true ↔ f.level.all (·.toNat < 10 ^ 1) = true := by
    rw [hc]
    exact all_le_iff rfl
  have hsmall : (f.small = true → f.coding = .bzip2) ↔ f.small = false := by simp [hc]
  rw [fits_iff, hlevel, hsmall, all_isThreads_iff_lt (.inl hc), all_isWindow_iff (by simp [hc]),
    Bool.and_eq_true]
  tauto

/-- The levels and windows of this coding are fewer than their digits would allow. -/
lemma fits_iff_of_zstd (hc : f.coding = .zstd) : f.fits = true ↔ f.small = false ∧
    (f.level.all (·.toNat < 10 ^ 2) && f.threads.all (·.toNat < 10 ^ 9) &&
      f.windowLog.all (·.toNat < 10 ^ 9)) = true ∧ f.withinLimits = true := by
  have hlevel : f.level.all (isLevel f.coding) = true ↔
      f.level.all (·.toNat < 10 ^ 2) = true ∧ f.level.all (· ≤ 22) = true := by
    rw [hc]
    refine all_iff_and_of_imp fun n hn => ?_
    have h22 := UInt32.le_iff_toNat_le.mp (of_decide_eq_true hn)
    exact decide_eq_true (Nat.lt_of_le_of_lt h22 (by decide))
  have hwindow : f.windowLog.all (isWindow f.coding) = true ↔
      f.windowLog.all (·.toNat < 10 ^ 9) = true ∧ f.windowLog.all isWindowLog = true := by
    rw [hc]
    refine all_iff_and_of_imp fun n hn => ?_
    have h31 := UInt32.le_iff_toNat_le.mp (of_decide_eq_true (Bool.and_eq_true_iff.mp hn).2)
    exact decide_eq_true (Nat.lt_of_le_of_lt h31 (by decide))
  have hsmall : (f.small = true → f.coding = .bzip2) ↔ f.small = false := by simp [hc]
  have hlimits : f.withinLimits = true ↔
      f.level.all (· ≤ 22) = true ∧ f.windowLog.all isWindowLog = true := by
    rw [withinLimits, hc, Bool.and_eq_true]
  rw [fits_iff, hlevel, hsmall, all_isThreads_iff_lt (.inr hc), hwindow, hlimits, Bool.and_eq_true,
    Bool.and_eq_true]
  tauto

/-! ### Reading flags back -/

lemma parse_display_of_readParts (readable : Bool) (rest : List Char)
    (hread : readParts f.coding f.display.toList = if readable then some (g, rest) else none)
    (hg : rest = [] → g = f) (hfits : f.fits = true ↔ readable = true ∧ rest = [] ∧ f.withinLimits) :
    parse f.coding f.display =
      if f.fits then .ok f else .error (.invalidFlags f.coding f.display) := by
  unfold parse
  rw [hread, if_congr hfits rfl rfl]
  cases readable with
  | false => rfl
  | true =>
    cases rest with
    | nil => simp [hg rfl]
    | cons c rest => rfl

lemma parse_display_none (hc : f.coding = .none) : parse f.coding f.display =
    if f.fits then .ok f else .error (.invalidFlags f.coding f.display) := by
  refine parse_display_of_readParts (g := { coding := f.coding }) true f.display.toList ?_
    (fun hnil => ?_) ?_
  · rw [hc]
    rfl
  · obtain ⟨hlevel, hsmall, hthreads, hwindow⟩ := f.display_eq_nil_iff.mp hnil
    cases f
    simp_all
  · have hlevel : f.level.all (isLevel f.coding) = true ↔ f.level = none := by
      rw [hc]
      cases f.level <;> simp [isLevel]
    rw [fits_iff, display_eq_nil_iff, hlevel, all_isThreads_iff (by simp [hc]),
      all_isWindow_iff (by simp [hc])]
    simp [withinLimits, hc]

lemma parse_display_gzip (hc : f.coding = .gzip ∨ f.coding = .lzma) : parse f.coding f.display =
    if f.fits then .ok f else .error (.invalidFlags f.coding f.display) := by
  refine parse_display_of_readParts (g := { coding := f.coding, level := f.level })
    (f.level.all (·.toNat < 10 ^ 1)) f.markChars ?_ (fun hnil => ?_) ?_
  · have hparts : readParts f.coding f.display.toList = (readNumber 1 f.display.toList >>= fun p =>
        some ({ coding := f.coding, level := p.1 }, p.2)) := by
      rcases hc with hc | hc <;> rw [hc] <;> rfl
    rw [hparts, f.readNumber_display (by decide)]
    cases f.level.all (·.toNat < 10 ^ 1) <;> rfl
  · obtain ⟨hsmall, hthreads, hwindow⟩ := f.markChars_eq_nil_iff.mp hnil
    cases f
    simp_all
  · have hlevel : f.level.all (isLevel f.coding) = true ↔
        f.level.all (·.toNat < 10 ^ 1) = true := by
      rcases hc with hc | hc <;> rw [hc] <;> exact all_le_iff rfl
    have hother : f.coding ≠ .bzip2 ∧ f.coding ≠ .xz ∧ f.coding ≠ .zstd := by
      rcases hc with hc | hc <;> simp [hc]
    rw [fits_iff, markChars_eq_nil_iff, hlevel, all_isThreads_iff hother.2,
      all_isWindow_iff hother.2.2]
    rcases hc with hc | hc <;> simp [withinLimits, hc]

lemma parse_display_bzip2 (hc : f.coding = .bzip2) : parse f.coding f.display =
    if f.fits then .ok f else .error (.invalidFlags f.coding f.display) := by
  refine parse_display_of_readParts (g := { coding := f.coding, level := f.level, small := f.small })
    (f.level.all (·.toNat < 10 ^ 1)) f.threadChars ?_ (fun hnil => ?_) ?_
  · have hparts : readParts .bzip2 f.display.toList = (readNumber 1 f.display.toList >>= fun p =>
        some ({ coding := .bzip2, level := p.1, small := (readMark 's' p.2).1 },
          (readMark 's' p.2).2)) := rfl
    rw [hc, hparts, f.readNumber_display (by decide)]
    cases f.level.all (·.toNat < 10 ^ 1)
    · rfl
    · show some (_, _) = _
      rw [readMark_markChars]
      rfl
  · obtain ⟨hthreads, hwindow⟩ := f.threadChars_eq_nil_iff.mp hnil
    cases f
    simp_all
  · have hlevel : f.level.all (isLevel f.coding) = true ↔
        f.level.all (·.toNat < 10 ^ 1) = true ∧ f.level ≠ some 0 := by
      rw [hc]
      cases f.level with
      | none => simp
      | some n =>
        simp only [Option.all_some, isLevel, Bool.and_eq_true, decide_eq_true_eq, ne_eq,
          Option.some.injEq, UInt32.le_iff_toNat_le, ← UInt32.toNat_inj]
        show 1 ≤ n.toNat ∧ n.toNat ≤ 9 ↔ n.toNat < 10 ∧ ¬n.toNat = 0
        omega
    rw [fits_iff, threadChars_eq_nil_iff, hlevel, all_isThreads_iff (by simp [hc]),
      all_isWindow_iff (by simp [hc])]
    simp only [withinLimits, hc, decide_eq_true_eq]
    tauto

lemma readPart_markChars (hsmall : f.small = true) (hletter : letter ≠ 's') :
    readPart letter f.markChars = some (none, f.markChars) := by
  rw [markChars, hsmall]
  show (if 's' ≠ letter then _ else _) = _
  rw [if_pos hletter.symm]

/-- A coding that has no mark for little memory does not read flags with that mark. -/
lemma parse_display_of_small (digits : Nat) (hsmall : f.small = true) (hc : f.coding ≠ .bzip2)
    (hread : readParts f.coding f.display.toList = if f.level.all (·.toNat < 10 ^ digits) then
      some ({ coding := f.coding, level := f.level }, f.markChars) else none) :
    parse f.coding f.display =
      if f.fits then .ok f else .error (.invalidFlags f.coding f.display) := by
  refine parse_display_of_readParts _ _ hread (fun hnil => ?_) ?_
  · simp [markChars_eq_nil_iff, hsmall] at hnil
  · rw [fits_iff, markChars_eq_nil_iff]
    simp [hsmall, hc]

lemma markChars_of_not_small (hsmall : f.small = false) : f.markChars = f.threadChars := by
  rw [markChars, hsmall]
  rfl

lemma parse_display_xz (hc : f.coding = .xz) : parse f.coding f.display =
    if f.fits then .ok f else .error (.invalidFlags f.coding f.display) := by
  have hparts : readParts f.coding f.display.toList = (readNumber 1 f.display.toList >>= fun p =>
      readPart 'T' p.2 >>= fun q =>
        some ({ coding := f.coding, level := p.1, threads := q.1 }, q.2)) := by
    rw [hc]
    rfl
  rw [f.readNumber_display (by decide)] at hparts
  cases hsmall : f.small with
  | true =>
    refine parse_display_of_small 1 hsmall (by simp [hc]) ?_
    rw [hparts]
    cases f.level.all (·.toNat < 10 ^ 1)
    · rfl
    · show readPart 'T' f.markChars >>= _ = _
      rw [readPart_markChars hsmall (by decide)]
      rfl
  | false =>
    refine parse_display_of_readParts
      (g := { coding := f.coding, level := f.level, threads := f.threads })
      (f.level.all (·.toNat < 10 ^ 1) && f.threads.all (·.toNat < 10 ^ 9)) f.windowChars ?_
      (fun hnil => ?_) ?_
    · rw [hparts, markChars_of_not_small hsmall]
      cases f.level.all (·.toNat < 10 ^ 1)
      · rfl
      · show readPart 'T' f.threadChars >>= _ = _
        rw [readPart_threadChars]
        cases f.threads.all (·.toNat < 10 ^ 9) <;> rfl
    · have hwindow := numberChars_eq_nil_iff.mp hnil
      cases f
      simp_all
    · rw [fits_iff_of_xz hc, windowChars, numberChars_eq_nil_iff]
      simp [hsmall, withinLimits, hc]

lemma parse_display_zstd (hc : f.coding = .zstd) : parse f.coding f.display =
    if f.fits then .ok f else .error (.invalidFlags f.coding f.display) := by
  have hparts : readParts f.coding f.display.toList = (readNumber 2 f.display.toList >>= fun p =>
      readPart 'T' p.2 >>= fun q => readPart 'L' q.2 >>= fun r =>
        some ({ coding := f.coding, level := p.1, threads := q.1, windowLog := r.1 }, r.2)) := by
    rw [hc]
    rfl
  rw [f.readNumber_display (by decide)] at hparts
  cases hsmall : f.small with
  | true =>
    refine parse_display_of_small 2 hsmall (by simp [hc]) ?_
    rw [hparts]
    cases f.level.all (·.toNat < 10 ^ 2)
    · rfl
    · show readPart 'T' f.markChars >>= _ = _
      rw [readPart_markChars hsmall (by decide)]
      show readPart 'L' f.markChars >>= _ = _
      rw [readPart_markChars hsmall (by decide)]
      rfl
  | false =>
    refine parse_display_of_readParts (g := f)
      (f.level.all (·.toNat < 10 ^ 2) && f.threads.all (·.toNat < 10 ^ 9) &&
        f.windowLog.all (·.toNat < 10 ^ 9)) [] ?_ (fun _ => rfl) ?_
    · rw [hparts, markChars_of_not_small hsmall]
      cases f.level.all (·.toNat < 10 ^ 2)
      · rfl
      · show readPart 'T' f.threadChars >>= _ = _
        rw [readPart_threadChars]
        cases f.threads.all (·.toNat < 10 ^ 9)
        · rfl
        · show readPart 'L' f.windowChars >>= _ = _
          rw [readPart_windowChars]
          cases f.windowLog.all (·.toNat < 10 ^ 9)
          · rfl
          · cases f
            simp_all
    · rw [fits_iff_of_zstd hc]
      simp [hsmall]

/-- **Flags are read back** exactly if their coding has all that they set. -/
lemma parse_display (f : PayloadFlags) : parse f.coding f.display =
    if f.fits then .ok f else .error (.invalidFlags f.coding f.display) := by
  cases hc : f.coding with
  | none => exact hc ▸ parse_display_none hc
  | gzip => exact hc ▸ parse_display_gzip (.inl hc)
  | bzip2 => exact hc ▸ parse_display_bzip2 hc
  | lzma => exact hc ▸ parse_display_gzip (.inr hc)
  | xz => exact hc ▸ parse_display_xz hc
  | zstd => exact hc ▸ parse_display_zstd hc

lemma coding_of_readParts {c : Coding} {cs : List Char} (h : readParts c cs = some (f, rest)) :
    f.coding = c := by
  cases c with
  | none =>
    obtain ⟨rfl, -⟩ := Prod.mk.inj (Option.some.inj h)
    rfl
  | gzip | lzma | bzip2 =>
    obtain ⟨_, -, h⟩ := Option.bind_eq_some_iff.mp h
    obtain ⟨rfl, -⟩ := Prod.mk.inj (Option.some.inj h)
    rfl
  | xz =>
    obtain ⟨_, -, h⟩ := Option.bind_eq_some_iff.mp h
    obtain ⟨_, -, h⟩ := Option.bind_eq_some_iff.mp h
    obtain ⟨rfl, -⟩ := Prod.mk.inj (Option.some.inj h)
    rfl
  | zstd =>
    obtain ⟨_, -, h⟩ := Option.bind_eq_some_iff.mp h
    obtain ⟨_, -, h⟩ := Option.bind_eq_some_iff.mp h
    obtain ⟨_, -, h⟩ := Option.bind_eq_some_iff.mp h
    obtain ⟨rfl, -⟩ := Prod.mk.inj (Option.some.inj h)
    rfl

/-- Flags that are read are spelled as they were, and are of the coding that they were read for. -/
lemma of_parse_eq_ok {c : Coding} {s : String} (h : parse c s = .ok f) :
    f.coding = c ∧ f.display = s := by
  unfold parse at h
  split at h
  · contradiction
  · rename_i g rest hparts
    split_ifs at h with hs
    obtain rfl := Except.ok.inj h
    simp only [Bool.and_eq_true, decide_eq_true_eq] at hs
    exact ⟨coding_of_readParts hparts, hs.2⟩

lemma fits_of_parse {c : Coding} {s : String} (h : parse c s = .ok f) : f.fits = true := by
  obtain ⟨rfl, rfl⟩ := of_parse_eq_ok h
  rw [parse_display] at h
  split_ifs at h with hfits
  exact hfits

lemma fits_ofCoding (c : Coding) : (ofCoding c).fits = true := by cases c <;> decide

end PayloadFlags

end Rpm
