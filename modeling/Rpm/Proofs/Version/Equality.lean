import Rpm.Proofs.Version.Order

/-!
Which versions are the same.

The order of versions is that of their epochs and of the tokens of their parts, so that it is a
total preorder. A hash sees a mark and the characters of each token, and the same versions are those
of which it sees the same.
-/

namespace Rpm.Version

/-! ### The order -/

lemma compareReleases_eq (a b : Option Component) :
    compareReleases a b = Ord.compare (a.map fun c => charTokens c.text.toList)
      (b.map fun c => charTokens c.text.toList) := by
  cases a <;> cases b <;> first | rfl | exact vercmp_eq _ _

lemma compare_eq_compareLex :
    Version.compare = compareLex (compareOn assumedEpoch)
      (compareLex (compareOn fun v => charTokens v.version.text.toList)
        (compareOn fun v => v.release.map fun c => charTokens c.text.toList)) := by
  funext a b
  rw [Version.compare, vercmp_eq, compareReleases_eq]
  rfl

instance : Std.TransCmp Version.compare := by
  rw [compare_eq_compareLex]
  infer_instance

lemma compare_eq_eq_iff {a b : Version} :
    a.compare b = .eq ↔ a.assumedEpoch = b.assumedEpoch ∧
      charTokens a.version.text.toList = charTokens b.version.text.toList ∧
      (a.release.map fun c => charTokens c.text.toList) =
        b.release.map fun c => charTokens c.text.toList := by
  rw [Version.compare, vercmp_eq, compareReleases_eq]
  simp only [Ordering.then_eq_eq, Std.LawfulEqOrd.compare_eq_iff_eq]

/-! ### What a hash sees -/

/-- The mark and the characters by which a hash sees a run. -/
def runPair (c : Char) (cs : List Char) : List HashItem :=
  if c.isDigit then [.mark 48, .characters ((c :: cs).dropWhile (· = '0'))]
  else [.mark 97, .characters (c :: cs)]

lemma length_runPair (c : Char) (cs : List Char) : (runPair c cs).length = 2 := by
  unfold runPair
  split <;> rfl

lemma runItems_eq (cs : List Char) :
    runItems cs =
      match head cs with
      | .finished => []
      | .tilde rest => .mark 126 :: .characters [] :: runItems rest
      | .caret rest => .mark 94 :: .characters [] :: runItems rest
      | .run c rest => runPair c (rest.takeWhile (continues c)) ++
          runItems (rest.dropWhile (continues c)) := by
  rw [runItems]
  generalize head cs = k
  cases k with
  | run c rest =>
    simp only [runPair]
    split <;> rfl
  | _ => rfl

lemma compareNumbers_eq_eq_iff {x y : List Char} :
    compareNumbers x y = .eq ↔ x.dropWhile (· = '0') = y.dropWhile (· = '0') := by
  rw [compareNumbers, Ordering.then_eq_eq, Std.LawfulEqOrd.compare_eq_iff_eq,
    Std.LawfulEqOrd.compare_eq_iff_eq]
  exact ⟨And.right, fun h => ⟨congrArg List.length h, h⟩⟩

lemma map_byteOf_inj {x y : List Char} (hx : ∀ c ∈ x, c.toNat < 128)
    (hy : ∀ c ∈ y, c.toNat < 128) : x.map byteOf = y.map byteOf ↔ x = y := by
  rw [← Std.LawfulEqOrd.compare_eq_iff_eq, compare_map_byteOf hx hy,
    Std.LawfulEqOrd.compare_eq_iff_eq]

lemma runPair_eq_iff {a b : Char} {x y : List Char} (hx : ∀ c ∈ a :: x, continues a c = true)
    (hy : ∀ c ∈ b :: y, continues b c = true) :
    runPair a x = runPair b y ↔ Token.ofRun a x = Token.ofRun b y := by
  unfold runPair Token.ofRun
  cases ha : a.isDigit
  · cases hb : b.isDigit
    · have h := map_byteOf_inj (fun c hc => toNat_lt_of_continues (hx c hc))
        fun c hc => toNat_lt_of_continues (hy c hc)
      simpa using h.symm
    · simp
  · cases hb : b.isDigit
    · simp
    · have h := compareNumbers_eq_eq_iff (x := a :: x) (y := b :: y)
      rw [compareNumbers_eq (fun c hc => (isDigit_of_continues (hx c hc)).1.trans ha)
        fun c hc => (isDigit_of_continues (hy c hc)).1.trans hb,
        Std.LawfulEqOrd.compare_eq_iff_eq] at h
      simpa using h.symm

lemma runItems_eq_iff (one two : List Char) :
    runItems one = runItems two ↔ charTokens one = charTokens two := by
  induction h : one.length + two.length using Nat.strong_induction_on generalizing one two with
  | _ n ih =>
    subst h
    have hshort₁ := length_rest_head one
    have hshort₂ := length_rest_head two
    rw [charTokens_eq one, charTokens_eq two, runItems_eq one, runItems_eq two]
    generalize h₁ : head one = k₁, h₂ : head two = k₂ at *
    cases k₁ with
    | tilde one' =>
      cases k₂ with
      | tilde two' =>
        simp only [Head.rest, reduceCtorEq, false_or] at hshort₁ hshort₂
        simpa using ih _ (by omega) one' two' rfl
      | finished | caret => simp
      | run b two' => cases hb : b.isDigit <;> simp [runPair, Token.ofRun, hb]
    | finished =>
      cases k₂ with
      | tilde | finished | caret => simp
      | run b two' => cases hb : b.isDigit <;> simp [runPair, Token.ofRun, hb]
    | caret one' =>
      cases k₂ with
      | tilde | finished => simp
      | caret two' =>
        simp only [Head.rest, reduceCtorEq, false_or] at hshort₁ hshort₂
        simpa using ih _ (by omega) one' two' rfl
      | run b two' => cases hb : b.isDigit <;> simp [runPair, Token.ofRun, hb]
    | run a one' =>
      cases k₂ with
      | tilde | finished | caret => cases ha : a.isDigit <;> simp [runPair, Token.ofRun, ha]
      | run b two' =>
        simp only [Head.rest, reduceCtorEq, false_or] at hshort₁ hshort₂
        have hlen₁ := length_dropWhile_le (continues a) one'
        have hlen₂ := length_dropWhile_le (continues b) two'
        have hpair := runPair_eq_iff (continues_of_mem_run (isAlphanum_of_head h₁) one')
          (continues_of_mem_run (isAlphanum_of_head h₂) two')
        simp only
        rw [List.cons_eq_cons, ← hpair, ← ih _ (by omega) _ _ rfl]
        refine ⟨fun h => List.append_inj h ?_, fun h => congrArg₂ _ h.1 h.2⟩
        rw [length_runPair, length_runPair]

/-- Whether an item tells of a release. -/
def isReleaseMark (i : HashItem) : Bool := i = .mark 0 || i = .mark 1

lemma isReleaseMark_of_mem_runPair {c : Char} {cs : List Char} {i : HashItem}
    (h : i ∈ runPair c cs) : isReleaseMark i = false := by
  unfold runPair at h
  split at h <;> simp only [List.mem_cons, List.not_mem_nil, or_false] at h <;>
    rcases h with rfl | rfl <;> simp [isReleaseMark]

lemma isReleaseMark_of_mem_runItems {cs : List Char} {i : HashItem} (h : i ∈ runItems cs) :
    isReleaseMark i = false := by
  induction hn : cs.length using Nat.strong_induction_on generalizing cs with
  | _ n ih =>
    subst hn
    have hshort := length_rest_head cs
    rw [runItems_eq cs] at h
    generalize head cs = k at *
    cases k with
    | finished => simp at h
    | tilde rest | caret rest =>
      simp only [Head.rest, reduceCtorEq, false_or] at hshort
      simp only [List.mem_cons] at h
      rcases h with rfl | rfl | h
      · simp [isReleaseMark]
      · simp [isReleaseMark]
      · exact ih _ hshort h rfl
    | run c rest =>
      simp only [Head.rest, reduceCtorEq, false_or] at hshort
      have hlen := length_dropWhile_le (continues c) rest
      rcases List.mem_append.mp h with h | h
      · exact isReleaseMark_of_mem_runPair h
      · exact ih _ (by omega) h rfl

/-- What a hash sees of a release. -/
def releaseItems : Option Component → List HashItem
  | none => [.mark 0]
  | some release => .mark 1 :: runItems release.text.toList

lemma hashItems_eq (v : Version) :
    v.hashItems =
      .word v.assumedEpoch :: (runItems v.version.text.toList ++ releaseItems v.release) := by
  unfold hashItems
  cases v.release <;> rfl

lemma takeWhile_runItems_append (cs : List Char) (release : Option Component) :
    (runItems cs ++ releaseItems release).takeWhile (!isReleaseMark ·) = runItems cs := by
  rw [List.takeWhile_append_of_pos fun i hi => by rw [isReleaseMark_of_mem_runItems hi]; rfl]
  cases release <;> simp [releaseItems, isReleaseMark]

lemma releaseItems_eq_iff (a b : Option Component) :
    releaseItems a = releaseItems b ↔
      (a.map fun c => charTokens c.text.toList) = b.map fun c => charTokens c.text.toList := by
  cases a <;> cases b <;> simp [releaseItems, runItems_eq_iff]

lemma hashItems_eq_iff (a b : Version) : a.hashItems = b.hashItems ↔ a.compare b = .eq := by
  rw [compare_eq_eq_iff, hashItems_eq, hashItems_eq, List.cons_eq_cons, HashItem.word.injEq,
    ← runItems_eq_iff, ← releaseItems_eq_iff]
  refine and_congr_right fun _ => ⟨fun h => ?_, fun h => by rw [h.1, h.2]⟩
  have hversion : runItems a.version.text.toList = runItems b.version.text.toList := by
    rw [← takeWhile_runItems_append _ a.release, h, takeWhile_runItems_append]
  rw [hversion] at h
  exact ⟨hversion, List.append_cancel_left h⟩

/-- **Order, equality and hashing agree.** Versions are ordered by epoch, by the tokens of their
versions and by those of their releases in turn, which makes the order a total preorder. The same
versions are those that it does not tell apart, and those of which a hash sees the same. -/
theorem compare_same_hashItems (a b c : Version) :
    a.compare b = (Ord.compare (a.epoch.getD 0) (b.epoch.getD 0)).then
        ((Ord.compare (tokens a.version.text) (tokens b.version.text)).then
          (Ord.compare (a.release.map fun r => tokens r.text)
            (b.release.map fun r => tokens r.text))) ∧
      a.compare a = .eq ∧ b.compare a = (a.compare b).swap ∧
      ((a.compare b).isLE = true → (b.compare c).isLE = true → (a.compare c).isLE = true) ∧
      (a.compare b = .eq → b.compare c = .eq → a.compare c = .eq) ∧
      (a.same b = true ↔ a.compare b = .eq) ∧ (a.hashItems = b.hashItems ↔ a.same b = true) := by
  have hsame : a.same b = true ↔ a.compare b = .eq := decide_eq_true_iff
  refine ⟨?_, Std.ReflCmp.compare_self, Std.OrientedCmp.eq_swap, Std.TransCmp.isLE_trans,
    Std.TransCmp.eq_trans, hsame, (hashItems_eq_iff a b).trans hsame.symm⟩
  simp only [tokens_eq_charTokens, compare_eq_compareLex]
  rfl

end Rpm.Version
