import Rpm.Error
import Rpm.Header.Value

/-!
Header sections in their binary form.

A section is a prologue, an index of records and a data store. Each record says of one entry the
tag, the type, the offset of its value in the store and the number of elements. The first record
is that of the region: its value is the end of the store, and is itself a record that points back
over the index.
-/

namespace Rpm

structure Entry where
  tag : UInt32
  value : Value
  deriving DecidableEq

structure IndexRecord where
  tag : UInt32
  typeId : UInt32
  offset : Int
  count : Nat
  deriving DecidableEq, Repr

def mostIndexEntries : Nat := 0xffff

def mostStoreSize : Nat := 256 * 1024 * 1024

namespace IndexRecord

def wrapSigned (n : Int) : Nat := (n % 2 ^ 32).toNat

def toSigned (n : Nat) : Int := if n < 2 ^ 31 then n else (n : Int) - 2 ^ 32

def bytes (r : IndexRecord) : ByteArray :=
  bigEndian 4 r.tag.toNat ++ bigEndian 4 r.typeId.toNat ++ bigEndian 4 (wrapSigned r.offset) ++
    bigEndian 4 r.count

def ofBytes (data : ByteArray) (pos : Nat) : IndexRecord where
  tag := UInt32.ofNat (ofBigEndian (data.extract pos (pos + 4)))
  typeId := UInt32.ofNat (ofBigEndian (data.extract (pos + 4) (pos + 8)))
  offset := toSigned (ofBigEndian (data.extract (pos + 8) (pos + 12)))
  count := ofBigEndian (data.extract (pos + 12) (pos + 16))

@[simp] theorem size_bytes (r : IndexRecord) : r.bytes.size = 16 := by
  simp [bytes]

def isRegion (r : IndexRecord) (region : UInt32) : Bool :=
  r.tag = region && r.typeId = ValueType.bin.id

end IndexRecord

/-! ### Writing -/

/-- A data store in the making, and the records of what is in it. -/
structure Layout where
  records : Array IndexRecord := #[]
  store : ByteArray := ByteArray.empty

namespace Layout

def aligned (alignment : Nat) (store : ByteArray) : ByteArray :=
  store ++ replicateByte (paddingFor alignment store.size) 0

/-- Places the value of one more entry at the end of the store. -/
def place (region : UInt32) (l : Layout) (e : Entry) : Except Error Layout :=
  if e.tag = region then .error (.invalidValue e.tag .regionTag)
  else
    let store := aligned e.value.alignment l.store
    if store.size ≥ 2 ^ 31 then .error (.headerTooLarge .offset)
    else if e.value.hasNul then .error (.invalidValue e.tag .nulInString)
    else if e.value.count ≥ 2 ^ 32 then .error (.headerTooLarge .offset)
    else .ok
      { records := l.records.push ⟨e.tag, e.value.typeId, store.size, e.value.count⟩
        store := store ++ e.value.bytes }

def ofEntries (region : UInt32) (entries : List Entry) : Except Error Layout :=
  entries.foldlM (place region) {}

end Layout

def sectionMagic : ByteArray := ⟨#[0x8e, 0xad, 0xe8, 1, 0, 0, 0, 0]⟩

/-- The section with the given records and the given store, with those of the region added. -/
def Layout.section (region : UInt32) (l : Layout) : Except Error ByteArray :=
  let count := l.records.size + 1
  if l.store.size ≥ 2 ^ 31 then .error (.headerTooLarge .offset)
  else if 16 * count ≥ 2 ^ 31 then .error (.headerTooLarge .offset)
  else
    let first : IndexRecord := ⟨region, ValueType.bin.id, l.store.size, 16⟩
    let last : IndexRecord := ⟨region, ValueType.bin.id, -(16 * count : Nat), 16⟩
    let store := l.store ++ last.bytes
    .ok (sectionMagic ++ bigEndian 4 count ++ bigEndian 4 store.size ++ first.bytes ++
      concat (l.records.toList.map IndexRecord.bytes) ++ store)

def sortedByTag (entries : List Entry) : List Entry :=
  entries.mergeSort fun a b => a.tag ≤ b.tag

/-- The section that holds the entries, by ascending tag if `sort`, and in their order if not. -/
def renderEntries (entries : List Entry) (sort : Bool) (region : UInt32) :
    Except Error ByteArray := do
  let layout ← Layout.ofEntries region (if sort then sortedByTag entries else entries)
  layout.section region

/-! ### Reading -/

structure Prologue where
  entryCount : Nat
  storeSize : Nat
  deriving DecidableEq, Repr

namespace Prologue

def parse (data : ByteArray) : Except Error Prologue :=
  if data.size < 16 then .error (.headerTruncated .prologue)
  else if data.extract 0 4 ≠ sectionMagic.extract 0 4 then .error .badHeaderMagic
  else
    let entryCount := ofBigEndian (data.extract 8 12)
    let storeSize := ofBigEndian (data.extract 12 16)
    if entryCount > mostIndexEntries then .error (.headerTooLarge .indexEntries)
    else if storeSize > mostStoreSize then .error (.headerTooLarge .storeSize)
    else .ok ⟨entryCount, storeSize⟩

def storeStart (p : Prologue) : Nat := 16 + 16 * p.entryCount

def sectionSize (p : Prologue) : Nat := p.storeStart + p.storeSize

end Prologue

def readStrings (tag : UInt32) (store : ByteArray) :
    Nat → Nat → Array String → Except Error (List String)
  | 0, _, strings => .ok strings.toList
  | count + 1, pos, strings =>
    match nulFrom store (store.size - pos) pos with
    | none => .error (.stringUnterminated tag)
    | some stop =>
      match String.fromUTF8? (store.extract pos stop) with
      | none => .error (.stringNotUtf8 tag)
      | some s => readStrings tag store count (stop + 1) (strings.push s)

def readNumbers (store : ByteArray) (width count pos : Nat) : List Nat :=
  (List.range count).map fun i =>
    ofBigEndian (store.extract (pos + width * i) (pos + width * i + width))

/-- The size of one element of the type with a number: none of it is fixed for strings, and a type
that is not known has single bytes. -/
def elementSize (typeId : UInt32) : Nat :=
  match ValueType.ofId? typeId with
  | none => 1
  | some t => t.elementSize?.getD 0

/-- The value that a record describes. Elements of a fixed width have to fit into the store. -/
def decodeValue (store : ByteArray) (r : IndexRecord) : Except Error Value :=
  if r.offset < 0 || r.offset > store.size then .error (.entryOutOfBounds r.tag)
  else if r.offset.toNat + r.count * elementSize r.typeId > store.size then
    .error (.entryOutOfBounds r.tag)
  else
    let pos := r.offset.toNat
    match ValueType.ofId? r.typeId with
    | some .null => .ok .null
    | some .char => .ok (.char (store.extract pos (pos + r.count)))
    | some .int8 => .ok (.int8 (store.extract pos (pos + r.count)))
    | some .bin => .ok (.bin (store.extract pos (pos + r.count)))
    | some .int16 => .ok (.int16 ((readNumbers store 2 r.count pos).map UInt16.ofNat))
    | some .int32 => .ok (.int32 ((readNumbers store 4 r.count pos).map UInt32.ofNat))
    | some .int64 => .ok (.int64 ((readNumbers store 8 r.count pos).map UInt64.ofNat))
    | some .string => (readStrings r.tag store 1 pos #[]).map fun s => .string (s.headD "")
    | some .stringArray => (readStrings r.tag store r.count pos #[]).map .stringArray
    | some .i18nString => (readStrings r.tag store r.count pos #[]).map .i18nString
    | none => .ok (.unknown r.typeId (store.extract pos (pos + r.count)))

def decodeRecords (store : ByteArray) (records : List IndexRecord) : Except Error (List Entry) :=
  (records.foldlM (fun (entries : Array Entry) r => do
    let value ← decodeValue store r
    return entries.push ⟨r.tag, value⟩) #[]).map Array.toList

/-- The records without that of the region, if they begin with it. -/
def dropRegion (region : UInt32) : List IndexRecord → List IndexRecord
  | [] => []
  | r :: records => if r.isRegion region then records else r :: records

/-- The entries of the section at the front of the data, without that of the region. -/
def parseEntries (data : ByteArray) (region : UInt32) : Except Error (List Entry) := do
  let p ← Prologue.parse data
  if data.size < p.sectionSize then throw (.headerTruncated .indexOrStore)
  let records := (List.range p.entryCount).map fun i => IndexRecord.ofBytes data (16 + 16 * i)
  decodeRecords (data.extract p.storeStart p.sectionSize) (dropRegion region records)

end Rpm
