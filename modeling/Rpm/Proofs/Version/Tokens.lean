import Mathlib.Data.List.SplitBy
import Mathlib.Data.Nat.Digits.Defs
import Rpm.Proofs.Text.Utf8
import Rpm.Version.Order

/-!
The tokens of version texts.

The bytes of a text are split into the longest runs of letters, the longest runs of digits and
single other bytes, of which only tildes and carets mean something. A walk over the characters of
the text that skips separators and takes one run at a time meets the same tokens.
-/

namespace Rpm.Version

/-! ### Bytes and what they mean -/

def isDigitByte (b : UInt8) : Bool := 48 ≤ b && b ≤ 57

def isLetterByte (b : UInt8) : Bool := (65 ≤ b && b ≤ 90) || (97 ≤ b && b ≤ 122)

/-- Whether two neighboring bytes belong to one run. -/
def sameRun (a b : UInt8) : Bool :=
  (isDigitByte a && isDigitByte b) || (isLetterByte a && isLetterByte b)

/-- The number that a run of digits denotes. -/
def numberOfDigits (run : List UInt8) : Nat :=
  Nat.ofDigits 10 (run.map fun b => b.toNat - 48).reverse

/-- What the order of versions sees of a text. The end of the text is a token as well. -/
inductive Token where
  | tilde
  | finish
  | caret
  | letters (run : List UInt8)
  | digits (n : Nat)
  deriving DecidableEq, Repr

namespace Token

/-- The order of the kinds of tokens. -/
def rank : Token → Nat
  | tilde => 0
  | finish => 1
  | caret => 2
  | letters _ => 3
  | digits _ => 4

def run : Token → List UInt8
  | letters run => run
  | _ => []

def number : Token → Nat
  | digits n => n
  | _ => 0

/-- Tokens are compared by their kinds, runs of letters byte by byte and runs of digits as
numbers. -/
instance : Ord Token :=
  ⟨compareLex (compareOn rank) (compareLex (compareOn run) (compareOn number))⟩

/-- The token that the bytes of a run make, if they do not only separate others. -/
def ofRun? : List UInt8 → Option Token
  | [] => none
  | b :: bs =>
    if b = 126 then some tilde
    else if b = 94 then some caret
    else if isDigitByte b then some (digits (numberOfDigits (b :: bs)))
    else if isLetterByte b then some (letters (b :: bs))
    else none

end Token

/-- The tokens of a row of bytes, without its end. -/
def lexemes (bytes : List UInt8) : List Token := (bytes.splitBy sameRun).filterMap Token.ofRun?

/-- The tokens of a text. -/
def tokens (s : String) : List Token := lexemes s.toUTF8.data.toList ++ [.finish]

lemma lexemes_append {x y : List UInt8}
    (h : ∀ a ∈ x.getLast?, ∀ b ∈ y.head?, sameRun a b = false) :
    lexemes (x ++ y) = lexemes x ++ lexemes y := by
  rw [lexemes, List.splitBy_append h, List.filterMap_append, lexemes, lexemes]

lemma lexemes_run {run : List UInt8} (hne : run ≠ []) (h : run.IsChain (sameRun · ·)) :
    lexemes run = (Token.ofRun? run).toList := by
  rw [lexemes, List.splitBy_of_isChain hne h]
  cases ht : Token.ofRun? run <;> simp [ht]

lemma lexemes_cons {b : UInt8} (hd : isDigitByte b = false) (hl : isLetterByte b = false)
    (bs : List UInt8) : lexemes (b :: bs) = (Token.ofRun? [b]).toList ++ lexemes bs := by
  rw [← List.singleton_append, lexemes_append, lexemes_run (by simp) (List.isChain_singleton b)]
  intro a ha c hc
  obtain rfl : b = a := by simpa using ha
  simp [sameRun, hd, hl]

/-! ### Characters and their bytes -/

lemma isDigitByte_iff {b : UInt8} : isDigitByte b = true ↔ 48 ≤ b.toNat ∧ b.toNat ≤ 57 := by
  simp [isDigitByte, UInt8.le_iff_toNat_le]

lemma isLetterByte_iff {b : UInt8} :
    isLetterByte b = true ↔ (65 ≤ b.toNat ∧ b.toNat ≤ 90) ∨ (97 ≤ b.toNat ∧ b.toNat ≤ 122) := by
  simp [isLetterByte, UInt8.le_iff_toNat_le]

lemma isDigit_iff {c : Char} : c.isDigit = true ↔ 48 ≤ c.toNat ∧ c.toNat ≤ 57 :=
  Char.isDigit_iff_toNat

lemma isAlpha_iff {c : Char} :
    c.isAlpha = true ↔ (65 ≤ c.toNat ∧ c.toNat ≤ 90) ∨ (97 ≤ c.toNat ∧ c.toNat ≤ 122) := by
  have hchar : c.isAlpha =
      (decide (c.val ≥ 65 ∧ c.val ≤ 90) || (c.val ≥ 97 && c.val ≤ 122)) := rfl
  simp [hchar, UInt32.le_iff_toNat_le]

lemma isDigitByte_byteOf {c : Char} (h : c.toNat < 128) : isDigitByte (byteOf c) = c.isDigit := by
  rw [Bool.eq_iff_iff, isDigitByte_iff, isDigit_iff, toNat_byteOf h]

lemma isLetterByte_byteOf {c : Char} (h : c.toNat < 128) : isLetterByte (byteOf c) = c.isAlpha := by
  rw [Bool.eq_iff_iff, isLetterByte_iff, isAlpha_iff, toNat_byteOf h]

lemma separator_bytes {c : Char} (h : isSeparator c = true) {b : UInt8}
    (hb : b ∈ String.utf8EncodeChar c) :
    isDigitByte b = false ∧ isLetterByte b = false ∧ Token.ofRun? [b] = none := by
  simp only [isSeparator, Char.isAlphanum, Bool.not_eq_true', Bool.or_eq_false_iff,
    decide_eq_false_iff_not] at h
  obtain ⟨⟨⟨halpha, hdigit⟩, htilde⟩, hcaret⟩ := h
  have hmeaning : isDigitByte b = false ∧ isLetterByte b = false ∧ b ≠ 126 ∧ b ≠ 94 := by
    rcases Nat.lt_or_ge c.toNat 128 with hc | hc
    · rw [utf8EncodeChar_of_lt hc, List.mem_singleton] at hb
      subst hb
      rw [isDigitByte_byteOf hc, isLetterByte_byteOf hc]
      refine ⟨hdigit, halpha, fun he => htilde ?_, fun he => hcaret ?_⟩
      · exact Char.toNat_inj.mp ((toNat_byteOf hc).symm.trans (congrArg UInt8.toNat he))
      · exact Char.toNat_inj.mp ((toNat_byteOf hc).symm.trans (congrArg UInt8.toNat he))
    · have hle := le_of_mem_utf8EncodeChar hc hb
      refine ⟨?_, ?_, ?_, ?_⟩
      · rw [Bool.eq_false_iff, ne_eq, isDigitByte_iff]
        omega
      · rw [Bool.eq_false_iff, ne_eq, isLetterByte_iff]
        omega
      · rintro rfl
        simp at hle
      · rintro rfl
        simp at hle
  obtain ⟨hd, hl, h126, h94⟩ := hmeaning
  exact ⟨hd, hl, by simp [Token.ofRun?, hd, hl, h126, h94]⟩

/-! ### Walking over the characters -/

lemma lexemes_append_of_none {x : List UInt8}
    (h : ∀ b ∈ x, isDigitByte b = false ∧ isLetterByte b = false ∧ Token.ofRun? [b] = none)
    (y : List UInt8) : lexemes (x ++ y) = lexemes y := by
  induction x with
  | nil => rfl
  | cons b x ih =>
    obtain ⟨hd, hl, hnone⟩ := h b (by simp)
    rw [List.cons_append, lexemes_cons hd hl, hnone, ih fun b' hb' => h b' (by simp [hb'])]
    rfl

lemma lexemes_dropWhile (cs : List Char) :
    lexemes (utf8Bytes (cs.dropWhile isSeparator)) = lexemes (utf8Bytes cs) := by
  have hcut : utf8Bytes cs = utf8Bytes (cs.takeWhile isSeparator) ++
      utf8Bytes (cs.dropWhile isSeparator) := by
    rw [← utf8Bytes_append, List.takeWhile_append_dropWhile]
  rw [hcut, lexemes_append_of_none]
  intro b hb
  obtain ⟨c, hc, hb⟩ := List.mem_flatMap.mp hb
  exact separator_bytes (List.all_eq_true.mp List.all_takeWhile c hc) hb

lemma toNat_lt_of_continues {a c : Char} (h : continues a c = true) : c.toNat < 128 := by
  unfold continues at h
  cases ha : a.isDigit
  · rw [ha, cond_false, isAlpha_iff] at h
    omega
  · rw [ha, cond_true, isDigit_iff] at h
    omega

lemma isDigit_of_continues {a c : Char} (h : continues a c = true) :
    c.isDigit = a.isDigit ∧ c.isAlpha = !a.isDigit := by
  unfold continues at h
  cases ha : a.isDigit
  · rw [ha, cond_false] at h
    refine ⟨?_, h⟩
    rw [Bool.eq_false_iff, ne_eq, isDigit_iff]
    rw [isAlpha_iff] at h
    omega
  · rw [ha, cond_true] at h
    refine ⟨h, ?_⟩
    rw [Bool.not_true, Bool.eq_false_iff, ne_eq, isAlpha_iff]
    rw [isDigit_iff] at h
    omega

lemma continues_self {a : Char} (h : a.isAlphanum = true) : continues a a = true := by
  unfold continues
  cases hd : a.isDigit
  · simpa [Char.isAlphanum, hd] using h
  · rfl

lemma continues_of_mem_run {a : Char} (h : a.isAlphanum = true) (rest : List Char) :
    ∀ c ∈ a :: rest.takeWhile (continues a), continues a c = true := by
  intro c hc
  rcases List.mem_cons.mp hc with rfl | hc
  · exact continues_self h
  · exact List.all_eq_true.mp List.all_takeWhile c hc

lemma sameRun_byteOf {a c : Char} (h : continues a c = true) (b : UInt8) :
    sameRun (byteOf c) b = if a.isDigit then isDigitByte b else isLetterByte b := by
  have hc := toNat_lt_of_continues h
  obtain ⟨hdigit, halpha⟩ := isDigit_of_continues h
  rw [sameRun, isDigitByte_byteOf hc, isLetterByte_byteOf hc, hdigit, halpha]
  cases a.isDigit <;> simp

lemma sameRun_eq_false {a c d : Char} (h : continues a c = true) (hd : continues a d = false)
    {b : UInt8} (hb : b ∈ String.utf8EncodeChar d) : sameRun (byteOf c) b = false := by
  rw [sameRun_byteOf h]
  unfold continues at hd
  rcases Nat.lt_or_ge d.toNat 128 with h128 | h128
  · rw [utf8EncodeChar_of_lt h128, List.mem_singleton] at hb
    subst hb
    rw [isDigitByte_byteOf h128, isLetterByte_byteOf h128]
    cases ha : a.isDigit <;> simpa [ha] using hd
  · have hle := le_of_mem_utf8EncodeChar h128 hb
    cases ha : a.isDigit
    · rw [if_neg (by simp), Bool.eq_false_iff, ne_eq, isLetterByte_iff]
      omega
    · rw [if_pos rfl, Bool.eq_false_iff, ne_eq, isDigitByte_iff]
      omega

/-- The token of a run that begins with the given character. -/
def Token.ofRun (c : Char) (cs : List Char) : Token :=
  if c.isDigit then .digits (numberOfDigits ((c :: cs).map byteOf))
  else .letters ((c :: cs).map byteOf)

lemma ofRun?_map {a : Char} {cs : List Char} (h : a.isAlphanum = true) :
    Token.ofRun? ((a :: cs).map byteOf) = some (Token.ofRun a cs) := by
  have ha := toNat_lt_of_continues (continues_self h)
  have hne : byteOf a ≠ 126 ∧ byteOf a ≠ 94 := by
    have hnum := toNat_byteOf ha
    rw [Char.isAlphanum, Bool.or_eq_true, isAlpha_iff, isDigit_iff] at h
    constructor <;> intro he <;> rw [he] at hnum <;> simp at hnum <;> omega
  rw [List.map_cons, Token.ofRun?, if_neg hne.1, if_neg hne.2, isDigitByte_byteOf ha,
    isLetterByte_byteOf ha, Token.ofRun, List.map_cons]
  cases hd : a.isDigit
  · rw [Char.isAlphanum, hd, Bool.or_false] at h
    simp [h]
  · simp

lemma eq_false_of_dropWhile {p : Char → Bool} {cs rest : List Char} {c : Char}
    (h : cs.dropWhile p = c :: rest) : p c = false := by
  have := List.head?_dropWhile_not p cs
  rwa [h] at this

lemma lexemes_utf8Bytes_run {a : Char} (h : a.isAlphanum = true) (rest : List Char) :
    lexemes (utf8Bytes (a :: rest)) = Token.ofRun a (rest.takeWhile (continues a)) ::
      lexemes (utf8Bytes (rest.dropWhile (continues a))) := by
  set run := rest.takeWhile (continues a) with hrun
  have hall : ∀ c ∈ a :: run, continues a c = true := continues_of_mem_run h rest
  have hcut : utf8Bytes (a :: rest) = (a :: run).map byteOf ++
      utf8Bytes (rest.dropWhile (continues a)) := by
    rw [← utf8Bytes_eq_map fun c hc => toNat_lt_of_continues (hall c hc), ← utf8Bytes_append,
      List.cons_append, hrun, List.takeWhile_append_dropWhile]
  have hchain : ((a :: run).map byteOf).IsChain (sameRun · ·) := by
    refine List.Pairwise.isChain (List.pairwise_of_forall_mem_list ?_)
    intro x hx y hy
    obtain ⟨c, hc, rfl⟩ := List.mem_map.mp hx
    obtain ⟨d, hd, rfl⟩ := List.mem_map.mp hy
    have hlt := toNat_lt_of_continues (hall d hd)
    obtain ⟨hdigit, halpha⟩ := isDigit_of_continues (hall d hd)
    rw [sameRun_byteOf (hall c hc), isDigitByte_byteOf hlt, isLetterByte_byteOf hlt, hdigit, halpha]
    cases a.isDigit <;> rfl
  rw [hcut, lexemes_append, lexemes_run (by simp) hchain, ofRun?_map h]
  · rfl
  · intro x hx b hb
    obtain ⟨c, hc, rfl⟩ := List.mem_map.mp (List.mem_of_mem_getLast? hx)
    cases hd : rest.dropWhile (continues a) with
    | nil => simp [hd, utf8Bytes] at hb
    | cons d ds =>
      refine sameRun_eq_false (hall c hc) (eq_false_of_dropWhile hd) ?_
      rw [hd, utf8Bytes, List.flatMap_cons, List.head?_append_of_ne_nil _ (by simp)] at hb
      exact List.mem_of_mem_head? hb

/-- The tokens of a row of characters, with its end. -/
def charTokens (cs : List Char) : List Token := lexemes (utf8Bytes cs) ++ [.finish]

lemma tokens_eq_charTokens (s : String) : tokens s = charTokens s.toList := by
  rw [tokens, toList_toUTF8, charTokens]

lemma isAlphanum_of_head {cs rest : List Char} {c : Char} (h : head cs = .run c rest) :
    c.isAlphanum = true := by
  unfold head at h
  split at h
  · simp at h
  · rename_i c' rest' hdrop
    split_ifs at h with htilde hcaret
    obtain ⟨rfl, rfl⟩ := Head.run.inj h
    have hsep := eq_false_of_dropWhile hdrop
    simpa [isSeparator, htilde, hcaret] using hsep

lemma charTokens_eq (cs : List Char) :
    charTokens cs =
      match head cs with
      | .finished => [.finish]
      | .tilde rest => .tilde :: charTokens rest
      | .caret rest => .caret :: charTokens rest
      | .run c rest => .ofRun c (rest.takeWhile (continues c)) ::
          charTokens (rest.dropWhile (continues c)) := by
  have hrun : ∀ c rest, head cs = .run c rest → c.isAlphanum = true :=
    fun c rest => isAlphanum_of_head
  rw [charTokens, ← lexemes_dropWhile]
  unfold head at hrun ⊢
  cases hdrop : cs.dropWhile isSeparator with
  | nil => rfl
  | cons c rest =>
    simp only [hdrop] at hrun ⊢
    split_ifs with htilde hcaret
    · subst htilde
      rw [utf8Bytes, List.flatMap_cons, utf8EncodeChar_of_lt (by decide), List.singleton_append,
        lexemes_cons (by decide) (by decide)]
      rfl
    · subst hcaret
      rw [utf8Bytes, List.flatMap_cons, utf8EncodeChar_of_lt (by decide), List.singleton_append,
        lexemes_cons (by decide) (by decide)]
      rfl
    · rw [lexemes_utf8Bytes_run (hrun c rest (by simp [htilde, hcaret]))]
      rfl

end Rpm.Version
