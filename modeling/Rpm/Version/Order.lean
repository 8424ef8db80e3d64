/-!
The order of version texts.

A text is a row of digit runs and letter runs. A tilde comes before the end of a text and a caret
right after it, so that `1.0~rc1 < 1.0 < 1.0^git1 < 1.0.1`; every other character only separates
runs. Runs of digits are compared as numbers and come after runs of letters, which are compared
character by character.
-/

namespace Rpm.Version

/-- A character that separates runs and has no other meaning. -/
def isSeparator (c : Char) : Bool := !(c.isAlphanum || c = '~' || c = '^')

/-- The order of two rows of digits as numbers: without leading zeros the longer one is greater,
and of equally long ones the first different digit decides. -/
def compareNumbers (a b : List Char) : Ordering :=
  let a := a.dropWhile (· = '0')
  let b := b.dropWhile (· = '0')
  (compare a.length b.length).then (compare a b)

theorem length_dropWhile_le {α : Type} (p : α → Bool) (l : List α) :
    (l.dropWhile p).length ≤ l.length :=
  (List.dropWhile_sublist p).length_le

/-- What a row of characters goes on with, past its separators. -/
inductive Head where
  | tilde (rest : List Char)
  | caret (rest : List Char)
  | finished
  | run (c : Char) (rest : List Char)

def head (cs : List Char) : Head :=
  match cs.dropWhile isSeparator with
  | [] => .finished
  | c :: rest => if c = '~' then .tilde rest else if c = '^' then .caret rest else .run c rest

def Head.rest : Head → List Char
  | .tilde rest | .caret rest | .run _ rest => rest
  | .finished => []

theorem length_rest_head (cs : List Char) :
    head cs = .finished ∨ (head cs).rest.length < cs.length := by
  have h := length_dropWhile_le isSeparator cs
  unfold head
  split
  · exact .inl rfl
  · rename_i c rest hc
    rw [hc, List.length_cons] at h
    right
    split
    · exact h
    · split
      · exact h
      · exact h

theorem length_lt_of_head {cs : List Char} {k : Head} (h : head cs = k) (hk : k ≠ .finished) :
    k.rest.length < cs.length := by
  subst h
  exact (length_rest_head cs).resolve_left hk

/-- Whether a character goes on with a run that begins with `first`. -/
def continues (first c : Char) : Bool := bif first.isDigit then c.isDigit else c.isAlpha

/-- The order of two texts as rows of characters. Where both go on with a run, the left one
decides whether runs of digits or of letters are compared. -/
def compareRuns (one two : List Char) : Ordering :=
  match _h₁ : head one, _h₂ : head two with
  | .tilde one', .tilde two' => compareRuns one' two'
  | .tilde _, _ => .lt
  | _, .tilde _ => .gt
  | .finished, .finished => .eq
  | .finished, _ => .lt
  | _, .finished => .gt
  | .caret one', .caret two' => compareRuns one' two'
  | .caret _, _ => .lt
  | _, .caret _ => .gt
  | .run a one', .run b two' =>
    let left := a :: one'.takeWhile (continues a)
    let right := (b :: two').takeWhile (continues a)
    if right.isEmpty then if a.isDigit then .gt else .lt
    else
      match if a.isDigit then compareNumbers left right else compare left right with
      | .eq => compareRuns (one'.dropWhile (continues a)) ((b :: two').dropWhile (continues a))
      | order => order
termination_by one.length + two.length
decreasing_by
  · have k₁ := length_lt_of_head _h₁ (by simp)
    have k₂ := length_lt_of_head _h₂ (by simp)
    simp only [Head.rest] at k₁ k₂
    omega
  · have k₁ := length_lt_of_head _h₁ (by simp)
    have k₂ := length_lt_of_head _h₂ (by simp)
    simp only [Head.rest] at k₁ k₂
    omega
  · have k₁ := length_lt_of_head _h₁ (by simp)
    have k₂ := length_lt_of_head _h₂ (by simp)
    have k₃ := length_dropWhile_le (continues a) one'
    have k₄ := length_dropWhile_le (continues a) (b :: two')
    simp only [Head.rest] at k₁ k₂
    simp only [List.length_cons] at k₄
    omega

def vercmp (a b : String) : Ordering :=
  if a = b then .eq else compareRuns a.toList b.toList

end Rpm.Version
