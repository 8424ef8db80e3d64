import Mathlib.Tactic.Ring
import Rpm.Bytes.Basic
import Rpm.Proofs.Version.Tokens
import Rpm.Version

/-!
The order of version texts is that of their tokens.

Two walks in step compare the first tokens of both texts and go on with what follows. Runs of digits
are compared by length and then digit by digit, which is the order of the numbers that they denote.
-/

namespace Rpm.Version

/-! ### Numbers -/

lemma compare_uint8 (a b : UInt8) : Ord.compare a b = Ord.compare a.toNat b.toNat := by
  simp [Ord.compare, compareOfLessAndEq, UInt8.lt_iff_toNat_lt, UInt8.toNat_inj]

lemma compare_char (a b : Char) : Ord.compare a b = Ord.compare a.toNat b.toNat := by
  have hlt : a < b ↔ a.toNat < b.toNat := Iff.rfl
  simp [Ord.compare, compareOfLessAndEq, hlt, Char.toNat_inj]

lemma compare_mul_add {p d e r s : Nat} (hr : r < p) (hs : s < p) :
    Ord.compare (d * p + r) (e * p + s) = (Ord.compare d e).then (Ord.compare r s) := by
  rcases Nat.lt_trichotomy d e with h | rfl | h
  · have hle : (d + 1) * p ≤ e * p := Nat.mul_le_mul_right p h
    rw [Nat.succ_mul] at hle
    rw [Nat.compare_eq_lt.mpr h, Nat.compare_eq_lt.mpr (by omega)]
    rfl
  · simp [Ord.compare, compareOfLessAndEq]
  · have hle : (e + 1) * p ≤ d * p := Nat.mul_le_mul_right p h
    rw [Nat.succ_mul] at hle
    rw [Nat.compare_eq_gt.mpr h, Nat.compare_eq_gt.mpr (by omega)]
    rfl

lemma numberOfDigits_cons (b : UInt8) (run : List UInt8) :
    numberOfDigits (b :: run) = (b.toNat - 48) * 10 ^ run.length + numberOfDigits run := by
  rw [numberOfDigits, List.map_cons, Nat.ofDigits_reverse_cons, List.length_map, Nat.add_comm,
    Nat.mul_comm, numberOfDigits]

lemma numberOfDigits_lt {run : List UInt8} (h : ∀ b ∈ run, isDigitByte b = true) :
    numberOfDigits run < 10 ^ run.length := by
  have hdigits : ∀ d ∈ (run.map fun b => b.toNat - 48).reverse, d < 10 := by
    intro d hd
    obtain ⟨b, hb, rfl⟩ := List.mem_map.mp (List.mem_reverse.mp hd)
    have := isDigitByte_iff.mp (h b hb)
    omega
  have hlt := Nat.ofDigits_lt_base_pow_length (by decide) hdigits
  rwa [List.length_reverse, List.length_map] at hlt

lemma compare_numberOfDigits {x y : List UInt8} (hx : ∀ b ∈ x, isDigitByte b = true)
    (hy : ∀ b ∈ y, isDigitByte b = true) (h : x.length = y.length) :
    Ord.compare (numberOfDigits x) (numberOfDigits y) = Ord.compare x y := by
  induction x generalizing y with
  | nil =>
    obtain rfl := List.length_eq_zero_iff.mp h.symm
    rfl
  | cons a x ih =>
    cases y with
    | nil => simp at h
    | cons b y =>
      have ha := isDigitByte_iff.mp (hx a (by simp))
      have hb := isDigitByte_iff.mp (hy b (by simp))
      have hx' : ∀ c ∈ x, isDigitByte c = true := fun c hc => hx c (by simp [hc])
      have hy' : ∀ c ∈ y, isDigitByte c = true := fun c hc => hy c (by simp [hc])
      have hlen : x.length = y.length := by simpa using h
      have hsub : Ord.compare (a.toNat - 48) (b.toNat - 48) = Ord.compare a b := by
        rw [compare_uint8]
        simp only [Ord.compare, compareOfLessAndEq]
        split_ifs <;> first | rfl | omega
      rw [numberOfDigits_cons, numberOfDigits_cons, hlen,
        compare_mul_add (hlen ▸ numberOfDigits_lt hx') (numberOfDigits_lt hy'), ih hx' hy' hlen,
        hsub, List.compare_cons_cons]

lemma pow_le_numberOfDigits {b : UInt8} (hb : isDigitByte b = true) (hne : b ≠ 48)
    (run : List UInt8) : 10 ^ run.length ≤ numberOfDigits (b :: run) := by
  have hb' := isDigitByte_iff.mp hb
  have h48 : b.toNat ≠ 48 := fun h => hne (UInt8.toNat_inj.mp h)
  have hle : 1 * 10 ^ run.length ≤ (b.toNat - 48) * 10 ^ run.length :=
    Nat.mul_le_mul_right _ (by omega)
  rw [numberOfDigits_cons]
  omega

lemma numberOfDigits_lt_of_length_lt {x y : List UInt8} (hx : ∀ b ∈ x, isDigitByte b = true)
    (hy : ∀ b ∈ y, isDigitByte b = true) (hzero : ∀ b ∈ y.head?, b ≠ 48)
    (h : x.length < y.length) : numberOfDigits x < numberOfDigits y := by
  cases y with
  | nil => simp at h
  | cons b y =>
    calc numberOfDigits x < 10 ^ x.length := numberOfDigits_lt hx
      _ ≤ 10 ^ y.length := Nat.pow_le_pow_right (by omega) (Nat.le_of_lt_succ h)
      _ ≤ numberOfDigits (b :: y) :=
        pow_le_numberOfDigits (hy b (by simp)) (hzero b (by simp)) y

lemma numberOfDigits_dropWhile (cs : List Char) :
    numberOfDigits ((cs.dropWhile (· = '0')).map byteOf) = numberOfDigits (cs.map byteOf) := by
  induction cs with
  | nil => rfl
  | cons c cs ih =>
    by_cases h : c = '0'
    · subst h
      rw [List.dropWhile_cons_of_pos (by simp), ih, List.map_cons, numberOfDigits_cons]
      simp [byteOf]
    · rw [List.dropWhile_cons_of_neg (by simpa using h)]

lemma compare_map_byteOf {x y : List Char} (hx : ∀ c ∈ x, c.toNat < 128)
    (hy : ∀ c ∈ y, c.toNat < 128) :
    Ord.compare (x.map byteOf) (y.map byteOf) = Ord.compare x y := by
  induction x generalizing y with
  | nil => cases y <;> rfl
  | cons a x ih =>
    cases y with
    | nil => rfl
    | cons b y =>
      rw [List.map_cons, List.map_cons, List.compare_cons_cons, List.compare_cons_cons,
        ih (fun c hc => hx c (by simp [hc])) fun c hc => hy c (by simp [hc]), compare_uint8,
        compare_char, toNat_byteOf (hx a (by simp)), toNat_byteOf (hy b (by simp))]

lemma digits_dropWhile {cs : List Char} (h : ∀ c ∈ cs, c.isDigit = true) :
    (∀ c ∈ cs.dropWhile (· = '0'), c.toNat < 128) ∧
      (∀ b ∈ (cs.dropWhile (· = '0')).map byteOf, isDigitByte b = true) ∧
      ∀ b ∈ ((cs.dropWhile (· = '0')).map byteOf).head?, b ≠ 48 := by
  have hdigit : ∀ c ∈ cs.dropWhile (· = '0'), c.isDigit = true :=
    fun c hc => h c ((List.dropWhile_sublist _).mem hc)
  have hlt : ∀ c ∈ cs.dropWhile (· = '0'), c.toNat < 128 := by
    intro c hc
    have := isDigit_iff.mp (hdigit c hc)
    omega
  refine ⟨hlt, fun b hb => ?_, fun b hb => ?_⟩
  · obtain ⟨c, hc, rfl⟩ := List.mem_map.mp hb
    rw [isDigitByte_byteOf (hlt c hc), hdigit c hc]
  · cases hd : cs.dropWhile (· = '0') with
    | nil => simp [hd] at hb
    | cons c rest =>
      obtain rfl : byteOf c = b := by simpa [hd] using hb
      have hne := eq_false_of_dropWhile hd
      rw [decide_eq_false_iff_not] at hne
      intro h48
      refine hne (Char.toNat_inj.mp ?_)
      rw [← toNat_byteOf (hlt c (by simp [hd])), h48]
      rfl

lemma compareNumbers_eq {x y : List Char} (hx : ∀ c ∈ x, c.isDigit = true)
    (hy : ∀ c ∈ y, c.isDigit = true) :
    compareNumbers x y =
      Ord.compare (numberOfDigits (x.map byteOf)) (numberOfDigits (y.map byteOf)) := by
  obtain ⟨hltx, hdx, hzx⟩ := digits_dropWhile hx
  obtain ⟨hlty, hdy, hzy⟩ := digits_dropWhile hy
  rw [compareNumbers, ← numberOfDigits_dropWhile x, ← numberOfDigits_dropWhile y,
    ← compare_map_byteOf hltx hlty]
  rcases Nat.lt_trichotomy (x.dropWhile (· = '0')).length (y.dropWhile (· = '0')).length
    with h | h | h
  · rw [Nat.compare_eq_lt.mpr h, Nat.compare_eq_lt.mpr
      (numberOfDigits_lt_of_length_lt hdx hdy hzy (by simpa using h))]
    rfl
  · rw [compare_numberOfDigits hdx hdy (by simpa using h), h, Std.ReflOrd.compare_self]
    rfl
  · rw [Nat.compare_eq_gt.mpr h, Nat.compare_eq_gt.mpr
      (numberOfDigits_lt_of_length_lt hdy hdx hzx (by simpa using h))]
    rfl

/-! ### The walk -/

lemma Token.compare_eq (a b : Token) :
    Ord.compare a b = (Ord.compare a.rank b.rank).then
      ((Ord.compare a.run b.run).then (Ord.compare a.number b.number)) :=
  rfl

instance : Std.TransOrd Token :=
  inferInstanceAs (Std.TransCmp (compareLex (compareOn Token.rank)
    (compareLex (compareOn Token.run) (compareOn Token.number))))

instance : Std.LawfulEqOrd Token where
  eq_of_compare {a b} h := by
    simp only [Token.compare_eq, Ordering.then_eq_eq, Std.LawfulEqOrd.compare_eq_iff_eq] at h
    obtain ⟨hrank, hrun, hnumber⟩ := h
    cases a <;> cases b <;> simp_all [Token.rank, Token.run, Token.number]

lemma continues_eq {a b : Char} (h : continues a b = true) : continues b = continues a := by
  funext c
  rw [continues, continues, (isDigit_of_continues h).1]

lemma compare_ofRun {a b : Char} {x y : List Char} (hx : ∀ c ∈ a :: x, continues a c = true)
    (hy : ∀ c ∈ b :: y, continues a c = true) :
    Ord.compare (Token.ofRun a x) (Token.ofRun b y) =
      if a.isDigit then compareNumbers (a :: x) (b :: y) else Ord.compare (a :: x) (b :: y) := by
  have hltx : ∀ c ∈ a :: x, c.toNat < 128 := fun c hc => toNat_lt_of_continues (hx c hc)
  have hlty : ∀ c ∈ b :: y, c.toNat < 128 := fun c hc => toNat_lt_of_continues (hy c hc)
  have hb := (isDigit_of_continues (hy b (by simp))).1
  rw [Token.ofRun, Token.ofRun, hb]
  cases ha : a.isDigit
  · simp only [Bool.false_eq_true, if_false]
    rw [Token.compare_eq, ← compare_map_byteOf hltx hlty]
    simp [Token.rank, Token.run, Token.number]
  · rw [if_pos rfl, if_pos rfl, if_pos rfl, Token.compare_eq,
      compareNumbers_eq (fun c hc => (isDigit_of_continues (hx c hc)).1.trans ha)
        fun c hc => (isDigit_of_continues (hy c hc)).1.trans ha]
    simp [Token.rank, Token.run, Token.number]

lemma rank_ofRun (c : Char) (cs : List Char) :
    (Token.ofRun c cs).rank = if c.isDigit then 4 else 3 := by
  unfold Token.ofRun
  split <;> rfl

lemma compare_cons_of_rank_lt {a b : Token} (h : a.rank < b.rank) (x y : List Token) :
    Ord.compare (a :: x) (b :: y) = .lt := by
  rw [List.compare_cons_cons, Token.compare_eq, Nat.compare_eq_lt.mpr h]
  rfl

lemma compare_cons_of_rank_gt {a b : Token} (h : b.rank < a.rank) (x y : List Token) :
    Ord.compare (a :: x) (b :: y) = .gt := by
  rw [List.compare_cons_cons, Token.compare_eq, Nat.compare_eq_gt.mpr h]
  rfl

lemma rank_lt_ofRun {t : Token} (h : t.rank ≤ 2) (c : Char) (cs : List Char) :
    t.rank < (Token.ofRun c cs).rank := by
  rw [rank_ofRun]
  split <;> omega

lemma compare_cons_self (a : Token) (x y : List Token) :
    Ord.compare (a :: x) (a :: y) = Ord.compare x y := by
  rw [List.compare_cons_cons, Std.ReflOrd.compare_self]
  rfl

lemma compareRuns_of_continues {one two one' two' : List Char} {a b : Char}
    (h₁ : head one = .run a one') (h₂ : head two = .run b two') (h : continues a b = true) :
    compareRuns one two =
      (Ord.compare (Token.ofRun a (one'.takeWhile (continues a)))
        (Token.ofRun b (two'.takeWhile (continues b)))).then
          (compareRuns (one'.dropWhile (continues a)) (two'.dropWhile (continues b))) := by
  have hx := continues_of_mem_run (isAlphanum_of_head h₁) one'
  have hy := continues_of_mem_run (isAlphanum_of_head h₂) two'
  rw [continues_eq h] at hy ⊢
  rw [compare_ofRun hx hy, compareRuns]
  generalize hk₁ : head one = k₁, hk₂ : head two = k₂
  obtain rfl := hk₁.symm.trans h₁
  obtain rfl := hk₂.symm.trans h₂
  simp only [List.takeWhile_cons_of_pos h, List.dropWhile_cons_of_pos h, List.isEmpty_cons,
    Bool.false_eq_true, if_false]
  generalize (if a.isDigit = true then _ else _ : Ordering) = order
  cases order <;> rfl

lemma isDigit_of_not_continues {a b : Char} (hb : b.isAlphanum = true)
    (h : continues a b = false) : b.isDigit = !a.isDigit := by
  unfold continues at h
  cases ha : a.isDigit
  · rw [ha, cond_false] at h
    simpa [Char.isAlphanum, h] using hb
  · rwa [ha, cond_true] at h

lemma compareRuns_of_not_continues {one two one' two' : List Char} {a b : Char}
    (h₁ : head one = .run a one') (h₂ : head two = .run b two') (h : continues a b = false) :
    compareRuns one two = if a.isDigit then .gt else .lt := by
  rw [compareRuns]
  generalize hk₁ : head one = k₁, hk₂ : head two = k₂
  obtain rfl := hk₁.symm.trans h₁
  obtain rfl := hk₂.symm.trans h₂
  simp only [List.takeWhile_cons_of_neg (Bool.eq_false_iff.mp h), List.isEmpty_nil, if_true]

lemma compareRuns_eq (one two : List Char) :
    compareRuns one two = Ord.compare (charTokens one) (charTokens two) := by
  induction h : one.length + two.length using Nat.strong_induction_on generalizing one two with
  | _ n ih =>
    subst h
    have hshort₁ := length_rest_head one
    have hshort₂ := length_rest_head two
    have htokens₁ := charTokens_eq one
    have htokens₂ := charTokens_eq two
    have hwalk := compareRuns.eq_def one two
    generalize h₁ : head one = k₁, h₂ : head two = k₂ at *
    cases k₁ with
    | tilde one' =>
      cases k₂ with
      | tilde two' =>
        simp only [Head.rest, reduceCtorEq, false_or] at hshort₁ hshort₂
        rw [hwalk, htokens₁, htokens₂, compare_cons_self]
        exact ih _ (by omega) one' two' rfl
      | finished | caret =>
        rw [hwalk, htokens₁, htokens₂]
        rfl
      | run b two' =>
        rw [hwalk, htokens₁, htokens₂, compare_cons_of_rank_lt (rank_lt_ofRun (by decide) _ _)]
    | finished =>
      cases k₂ with
      | tilde | finished | caret =>
        rw [hwalk, htokens₁, htokens₂]
        rfl
      | run b two' =>
        rw [hwalk, htokens₁, htokens₂, compare_cons_of_rank_lt (rank_lt_ofRun (by decide) _ _)]
    | caret one' =>
      cases k₂ with
      | tilde | finished =>
        rw [hwalk, htokens₁, htokens₂]
        rfl
      | caret two' =>
        simp only [Head.rest, reduceCtorEq, false_or] at hshort₁ hshort₂
        rw [hwalk, htokens₁, htokens₂, compare_cons_self]
        exact ih _ (by omega) one' two' rfl
      | run b two' =>
        rw [hwalk, htokens₁, htokens₂, compare_cons_of_rank_lt (rank_lt_ofRun (by decide) _ _)]
    | run a one' =>
      cases k₂ with
      | tilde | finished | caret =>
        rw [hwalk, htokens₁, htokens₂, compare_cons_of_rank_gt (rank_lt_ofRun (by decide) _ _)]
      | run b two' =>
        simp only [Head.rest, reduceCtorEq, false_or] at hshort₁ hshort₂
        cases hkind : continues a b
        · have hb := isDigit_of_not_continues (isAlphanum_of_head h₂) hkind
          rw [compareRuns_of_not_continues h₁ h₂ hkind, htokens₁, htokens₂]
          cases ha : a.isDigit
          · exact (compare_cons_of_rank_lt (by simp [rank_ofRun, ha, hb]) _ _).symm
          · exact (compare_cons_of_rank_gt (by simp [rank_ofRun, ha, hb]) _ _).symm
        · have hlen₁ := length_dropWhile_le (continues a) one'
          have hlen₂ := length_dropWhile_le (continues b) two'
          rw [compareRuns_of_continues h₁ h₂ hkind, htokens₁, htokens₂,
            ih _ (by omega) _ _ rfl, List.compare_cons_cons]

lemma vercmp_eq (a b : String) :
    vercmp a b = Ord.compare (charTokens a.toList) (charTokens b.toList) := by
  unfold vercmp
  split
  · rename_i h
    rw [h, Std.ReflOrd.compare_self]
  · exact compareRuns_eq _ _

/-- **The order of version texts.** Two texts are ordered as their rows of tokens are, by the first
tokens that differ. -/
theorem vercmp_eq_compare_tokens (a b : String) :
    vercmp a b = Ord.compare (tokens a) (tokens b) := by
  rw [vercmp_eq, tokens_eq_charTokens, tokens_eq_charTokens]

end Rpm.Version
