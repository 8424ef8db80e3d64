import Rpm.Bytes.Stream
import Rpm.Header.Section
import Rpm.Header.Tag

/-!
Headers: rows of tags and values in the order in which the tags were first set.

Two headers are the same if they map the same tags to the same values, in whatever order.
-/

namespace Rpm

/-- A header of a kind. -/
structure Header (ns : Namespace) where
  entries : List Entry := []

namespace Header

variable {ns : Namespace}

def empty : Header ns := {}

def lookup (tag : UInt32) : List Entry → Option Value
  | [] => none
  | e :: es => if e.tag = tag then some e.value else lookup tag es

/-- The entries with the value of a tag replaced where it stands, or added at the end. -/
def assign (tag : UInt32) (value : Value) : List Entry → List Entry
  | [] => [⟨tag, value⟩]
  | e :: es => if e.tag = tag then ⟨tag, value⟩ :: es else e :: assign tag value es

def without (tag : UInt32) : List Entry → List Entry
  | [] => []
  | e :: es => if e.tag = tag then es else e :: without tag es

def getRaw (h : Header ns) (tag : UInt32) : Option Value := lookup tag h.entries

def get (h : Header ns) (tag : Tag ns) : Option Value := h.getRaw tag.id

def setRaw (h : Header ns) (tag : UInt32) (value : Value) : Header ns :=
  ⟨assign tag value h.entries⟩

/-- The header with the value of a tag, which has to be of the type of the tag. -/
def set (h : Header ns) (tag : Tag ns) (value : Value) : Except Error (Header ns) :=
  if value.type? = some tag.type then .ok (h.setRaw tag.id value)
  else .error (.tagTypeMismatch tag.id tag.type value.type?)

def erase (h : Header ns) (tag : Tag ns) : Header ns := ⟨without tag.id h.entries⟩

def contains (h : Header ns) (tag : Tag ns) : Bool := (h.get tag).isSome

def size (h : Header ns) : Nat := h.entries.length

def extend (h other : Header ns) : Header ns :=
  other.entries.foldl (fun h e => h.setRaw e.tag e.value) h

def ofEntries (entries : List Entry) : Header ns :=
  entries.foldl (fun h e => h.setRaw e.tag e.value) empty

/-- Whether two headers have equally many entries, and the second one has all values of the
first. -/
def same (a b : Header ns) : Bool :=
  a.entries.length = b.entries.length && a.entries.all fun e => b.getRaw e.tag = some e.value

/-! ### Typed values -/

/-- The value of a tag as `view` sees it, if there is one; a value that it does not see has not
the expected type. -/
def typed {α : Type} (h : Header ns) (tag : Tag ns) (expected : ValueType)
    (view : Value → Option α) : Except Error (Option α) :=
  match h.get tag with
  | none => .ok none
  | some value =>
    match view value with
    | some a => .ok (some a)
    | none => .error (.tagTypeMismatch tag.id expected value.type?)

def getUInt16 (h : Header ns) (tag : Tag ns) : Except Error (Option UInt16) :=
  h.typed tag .int16 Value.asUInt16?

def getUInt32 (h : Header ns) (tag : Tag ns) : Except Error (Option UInt32) :=
  h.typed tag .int32 Value.asUInt32?

def getUInt64 (h : Header ns) (tag : Tag ns) : Except Error (Option UInt64) :=
  h.typed tag .int64 Value.asUInt64?

def getUInt16s (h : Header ns) (tag : Tag ns) : Except Error (Option (List UInt16)) :=
  h.typed tag .int16 Value.asUInt16s?

def getUInt32s (h : Header ns) (tag : Tag ns) : Except Error (Option (List UInt32)) :=
  h.typed tag .int32 Value.asUInt32s?

def getUInt64s (h : Header ns) (tag : Tag ns) : Except Error (Option (List UInt64)) :=
  h.typed tag .int64 Value.asUInt64s?

/-- A text, or the first text of a localized one. -/
def getString (h : Header ns) (tag : Tag ns) : Except Error (Option String) :=
  h.typed tag .string Value.asString?

def getStrings (h : Header ns) (tag : Tag ns) : Except Error (Option (List String)) :=
  h.typed tag .stringArray Value.asStrings?

def getBytes (h : Header ns) (tag : Tag ns) : Except Error (Option ByteArray) :=
  h.typed tag .bin Value.asBytes?

def requireString (h : Header ns) (tag : Tag ns) : Except Error String := do
  match ← h.getString tag with
  | some s => return s
  | none => throw (.missingTag tag.id)

/-! ### Sections -/

/-- The section that holds a header, by ascending tag if `sort`. -/
def render (h : Header ns) (sort : Bool) : Except Error ByteArray :=
  renderEntries h.entries sort ns.region

/-- The header that the section at the front of the data holds. -/
def parse (data : ByteArray) : Except Error (Header ns) :=
  (parseEntries data ns.region).map (⟨·⟩)

def readError (part : SectionPart) : StreamError → Error
  | .unexpectedEnd => .headerTruncated part
  | e => .stream e

/-- Reads a section from a source: the header, the section's bytes and what is left. -/
def read (s : Source) : Except Error (Header ns × ByteArray × Source) := do
  let (prologue, s) ← (s.readExact 16).mapError (readError .prologue)
  let p ← Prologue.parse prologue
  let (rest, s) ← (s.readExact (p.sectionSize - 16)).mapError (readError .indexOrStore)
  let data := prologue ++ rest
  let header ← parse data
  return (header, data, s)

end Header

end Rpm
