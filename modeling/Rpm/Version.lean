import Rpm.Error
import Rpm.Version.Order

/-!
Package versions of the form `[epoch:]version[-release]`.

A missing epoch counts as zero, and a missing release comes before any other. Versions that the
order does not tell apart are the same version, however they are spelled; `Version.hashItems` is
what a hash of a version may depend on.
-/

namespace Rpm

def isVersionChar (c : Char) : Bool :=
  c.isAlphanum || c = '.' || c = '_' || c = '+' || c = '~' || c = '^'

def isComponent (s : String) : Bool := !s.isEmpty && s.toList.all isVersionChar

/-- A text that can be a version or a release. -/
structure Component where
  text : String
  isComponent_text : isComponent text = true
  deriving DecidableEq

structure Version where
  epoch : Option UInt32
  version : Component
  release : Option Component
  deriving DecidableEq

namespace Version

def new (epoch : Option UInt32) (version : String) (release : Option String) :
    Except Error Version :=
  if hv : isComponent version = true then
    match release with
    | none => .ok ⟨epoch, ⟨version, hv⟩, none⟩
    | some release =>
      if hr : isComponent release = true then .ok ⟨epoch, ⟨version, hv⟩, some ⟨release, hr⟩⟩
      else .error (.invalidVersion s!"illegal release component: {release}")
  else .error (.invalidVersion s!"illegal version component: {version}")

def splitAtFirst (c : Char) (cs : List Char) : List Char × Option (List Char) :=
  match cs.span (· ≠ c) with
  | (before, []) => (before, none)
  | (before, _ :: after) => (before, some after)

def parseEpoch (whole : String) (digits : List Char) : Except Error UInt32 :=
  if digits.isEmpty || !digits.all Char.isDigit then
    .error (.invalidVersion s!"epoch is not numeric: {whole}")
  else if Nat.ofDigitChars 10 digits 0 < UInt32.size then
    .ok (UInt32.ofNat (Nat.ofDigitChars 10 digits 0))
  else .error .numberTooLarge

/-- Reads a version of the form `[epoch:]version[-release]`. The first colon ends the epoch, and
the first hyphen after it the version. -/
def parse (s : String) : Except Error Version := do
  let (epoch, rest) ← match splitAtFirst ':' s.toList with
    | (_, none) => pure (none, s.toList)
    | (digits, some rest) => do
      let epoch ← parseEpoch s digits
      pure (some epoch, rest)
  let (version, release) := splitAtFirst '-' rest
  new epoch (String.ofList version) (release.map String.ofList)

def display (v : Version) : String :=
  (match v.epoch with
    | none => ""
    | some epoch => s!"{epoch}:") ++ v.version.text ++
  (match v.release with
    | none => ""
    | some release => "-" ++ release.text)

def assumedEpoch (v : Version) : UInt32 := v.epoch.getD 0

/-- The order of releases, of which a missing one is the least. -/
def compareReleases : Option Component → Option Component → Ordering
  | none, none => .eq
  | none, some _ => .lt
  | some _, none => .gt
  | some a, some b => vercmp a.text b.text

def compare (a b : Version) : Ordering :=
  (Ord.compare a.assumedEpoch b.assumedEpoch).then
    ((vercmp a.version.text b.version.text).then (compareReleases a.release b.release))

instance : Ord Version := ⟨compare⟩

/-- Whether the order does not tell two versions apart. -/
def same (a b : Version) : Bool := a.compare b = .eq

/-! ### Hashing -/

inductive HashItem where
  | word (n : UInt32)
  | mark (n : UInt8)
  | characters (cs : List Char)
  deriving DecidableEq, Repr

/-- A mark and the characters of each run, tilde and caret of a text, where numbers lose their
leading zeros. -/
def runItems (cs : List Char) : List HashItem :=
  match _h : head cs with
  | .finished => []
  | .tilde rest => .mark 126 :: .characters [] :: runItems rest
  | .caret rest => .mark 94 :: .characters [] :: runItems rest
  | .run c rest =>
    let run := c :: rest.takeWhile (continues c)
    let others := runItems (rest.dropWhile (continues c))
    if c.isDigit then .mark 48 :: .characters (run.dropWhile (· = '0')) :: others
    else .mark 97 :: .characters run :: others
termination_by cs.length
decreasing_by
  · simpa [Head.rest] using length_lt_of_head _h (by simp)
  · simpa [Head.rest] using length_lt_of_head _h (by simp)
  · have k₁ := length_lt_of_head _h (by simp)
    have k₂ := length_dropWhile_le (continues c) rest
    simp only [Head.rest] at k₁
    omega

/-- The data that a hash of a version depends on. -/
def hashItems (v : Version) : List HashItem :=
  .word v.assumedEpoch :: runItems v.version.text.toList ++
    match v.release with
    | none => [.mark 0]
    | some release => .mark 1 :: runItems release.text.toList

/-! ### Collections -/

/-- The versions from least to greatest; those that the order does not tell apart stay in their
order. -/
def sorted (vs : List Version) : List Version := vs.mergeSort fun a b => (a.compare b).isLE

def dropSame : List Version → List Version
  | [] => []
  | [v] => [v]
  | v :: w :: vs => if v.same w then dropSame (w :: vs) else v :: dropSame (w :: vs)

/-- The different versions from least to greatest, each as it was last given. -/
def distinct (vs : List Version) : List Version := dropSame (sorted vs)

end Version

end Rpm
