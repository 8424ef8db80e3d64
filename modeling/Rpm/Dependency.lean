import Rpm.Header
import Rpm.Payload.Coding

/-!
Dependencies of packages, and the arrays of a header that hold them.

Written dependencies are a set: they are sorted, and no two of a kind are equal.
-/

namespace Rpm

/-- The bits that say how a dependency is meant. Bits that have no name here are kept. -/
abbrev Sense := UInt32

namespace Sense

def any : Sense := 0
def less : Sense := 0x2
def greater : Sense := 0x4
def equal : Sense := 0x8
def interpreter : Sense := 0x100
def scriptPre : Sense := 0x200
def scriptPost : Sense := 0x400
def scriptPreun : Sense := 0x800
def scriptPostun : Sense := 0x1000
def rpmlib : Sense := 0x1000000
def lessEqual : Sense := less ||| equal
def greaterEqual : Sense := greater ||| equal

def operator? (s : Sense) : Option String :=
  let comparison := s &&& (less ||| greater ||| equal)
  if comparison = less then some "<"
  else if comparison = greater then some ">"
  else if comparison = equal then some "="
  else if comparison = lessEqual then some "<="
  else if comparison = greaterEqual then some ">="
  else none

end Sense

/-- A dependency on a name, and on a version unless that is empty. -/
structure Dependency where
  name : String
  version : String := ""
  flags : Sense := Sense.any
  deriving DecidableEq, Repr

namespace Dependency

def equals (name version : String) : Dependency := ⟨name, version, Sense.equal⟩

def atLeast (name version : String) : Dependency := ⟨name, version, Sense.greaterEqual⟩

def atMost (name version : String) : Dependency := ⟨name, version, Sense.lessEqual⟩

/-- A dependency on a feature of the RPM library that reads the package. -/
def rpmlib (feature version : String) : Dependency :=
  ⟨s!"rpmlib({feature})", version, Sense.rpmlib ||| Sense.lessEqual⟩

def display (d : Dependency) : String :=
  match d.flags.operator? with
  | some op => if d.version.isEmpty then d.name else s!"{d.name} {op} {d.version}"
  | none => d.name

/-- The order of dependencies: by name, then by version, then by sense bits. -/
def compare (a b : Dependency) : Ordering :=
  (Ord.compare a.name b.name).then
    ((Ord.compare a.version b.version).then (Ord.compare a.flags b.flags))

instance : Ord Dependency := ⟨compare⟩

def dropRepeats : List Dependency → List Dependency
  | [] => []
  | [d] => [d]
  | d :: e :: ds => if d = e then dropRepeats (e :: ds) else d :: dropRepeats (e :: ds)

/-- The different dependencies of a list in ascending order. -/
def canonical (ds : List Dependency) : List Dependency :=
  dropRepeats (ds.mergeSort fun a b => (a.compare b).isLE)

end Dependency

def Coding.dependency? (c : Coding) : Option Dependency :=
  c.feature?.map fun (feature, version) => Dependency.rpmlib feature version

inductive DependencyKind where
  | require
  | provide
  | conflict
  | obsolete
  | recommend
  | suggest
  | supplement
  | enhance
  deriving DecidableEq, Repr

structure DependencyTags where
  names : Tag .metadata
  versions : Tag .metadata
  flags : Tag .metadata

namespace DependencyKind

def all : List DependencyKind :=
  [require, provide, conflict, obsolete, recommend, suggest, supplement, enhance]

open MetadataTag in
def tags : DependencyKind → DependencyTags
  | require => ⟨requireName, requireVersion, requireFlags⟩
  | provide => ⟨provideName, provideVersion, provideFlags⟩
  | conflict => ⟨conflictName, conflictVersion, conflictFlags⟩
  | obsolete => ⟨obsoleteName, obsoleteVersion, obsoleteFlags⟩
  | recommend => ⟨recommendName, recommendVersion, recommendFlags⟩
  | suggest => ⟨suggestName, suggestVersion, suggestFlags⟩
  | supplement => ⟨supplementName, supplementVersion, supplementFlags⟩
  | enhance => ⟨enhanceName, enhanceVersion, enhanceFlags⟩

end DependencyKind

namespace Header

/-- Sets the arrays of a kind of dependency; without dependencies the header stays as it is. -/
def setDependencies (h : Header .metadata) (kind : DependencyKind) (ds : List Dependency) :
    Except Error (Header .metadata) :=
  if ds.isEmpty then .ok h
  else do
    let ds := Dependency.canonical ds
    let h ← h.set kind.tags.names (.stringArray (ds.map (·.name)))
    let h ← h.set kind.tags.versions (.stringArray (ds.map (·.version)))
    h.set kind.tags.flags (.int32 (ds.map (·.flags)))

/-- The dependencies of a kind. If there are names, there have to be as many versions and sense
bits. -/
def dependencies (h : Header .metadata) (kind : DependencyKind) :
    Except Error (List Dependency) := do
  let some names ← h.getStrings kind.tags.names | return []
  let some versions ← h.getStrings kind.tags.versions
    | throw (.missingTag kind.tags.versions.id)
  let some flags ← h.getUInt32s kind.tags.flags | throw (.missingTag kind.tags.flags.id)
  if versions.length ≠ names.length || flags.length ≠ names.length then
    throw (.invalidValue kind.tags.names.id .unequalArrays)
  return ((names.zip versions).zip flags).map fun ((name, version), flags) => ⟨name, version, flags⟩

end Header

end Rpm
