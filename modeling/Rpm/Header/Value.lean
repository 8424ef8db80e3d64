import Rpm.Bytes.BigEndian
import Rpm.Bytes.Terminated
import Rpm.Header.ValueType

/-!
Header values, and the bytes that hold them in a data store.
-/

namespace Rpm

/-- A header value. Numbers and characters are arrays, of which those of one element are the
scalars. -/
inductive Value where
  | null
  | char (bytes : ByteArray)
  | int8 (bytes : ByteArray)
  | int16 (values : List UInt16)
  | int32 (values : List UInt32)
  | int64 (values : List UInt64)
  | string (s : String)
  | bin (bytes : ByteArray)
  | stringArray (strings : List String)
  | i18nString (strings : List String)
  /-- The bytes of a value whose type is not known. -/
  | unknown (typeId : UInt32) (bytes : ByteArray)
  deriving DecidableEq

instance : Coe UInt16 Value := ⟨fun n => .int16 [n]⟩
instance : Coe UInt32 Value := ⟨fun n => .int32 [n]⟩
instance : Coe UInt64 Value := ⟨fun n => .int64 [n]⟩
instance : Coe String Value := ⟨.string⟩

namespace Value

def type? : Value → Option ValueType
  | null => some .null
  | char _ => some .char
  | int8 _ => some .int8
  | int16 _ => some .int16
  | int32 _ => some .int32
  | int64 _ => some .int64
  | string _ => some .string
  | bin _ => some .bin
  | stringArray _ => some .stringArray
  | i18nString _ => some .i18nString
  | unknown _ _ => none

def typeId (v : Value) : UInt32 :=
  match v with
  | unknown id _ => id
  | null => ValueType.null.id
  | char _ => ValueType.char.id
  | int8 _ => ValueType.int8.id
  | int16 _ => ValueType.int16.id
  | int32 _ => ValueType.int32.id
  | int64 _ => ValueType.int64.id
  | string _ => ValueType.string.id
  | bin _ => ValueType.bin.id
  | stringArray _ => ValueType.stringArray.id
  | i18nString _ => ValueType.i18nString.id

def count : Value → Nat
  | null | string _ => 1
  | char bytes | int8 bytes | bin bytes | unknown _ bytes => bytes.size
  | int16 values => values.length
  | int32 values => values.length
  | int64 values => values.length
  | stringArray strings | i18nString strings => strings.length

/-- Where a value starts in a data store: at a multiple of this. -/
def alignment (v : Value) : Nat :=
  match v.type? with
  | none => 1
  | some t => t.alignment

/-- The bytes that hold a value: numbers have their most significant byte first, and each string
ends in a zero byte. -/
def bytes : Value → ByteArray
  | null => ByteArray.empty
  | char bytes | int8 bytes | bin bytes | unknown _ bytes => bytes
  | int16 values => concat (values.map fun n => bigEndian 2 n.toNat)
  | int32 values => concat (values.map fun n => bigEndian 4 n.toNat)
  | int64 values => concat (values.map fun n => bigEndian 8 n.toNat)
  | string s => terminated s
  | stringArray strings | i18nString strings => concat (strings.map terminated)

def hasNul : Value → Bool
  | string s => holdsNul s
  | stringArray strings | i18nString strings => strings.any holdsNul
  | _ => false

/-! ### Accessors -/

def asUInt16? : Value → Option UInt16
  | int16 [n] => some n
  | _ => none

def asUInt32? : Value → Option UInt32
  | int32 [n] => some n
  | _ => none

def asUInt64? : Value → Option UInt64
  | int64 [n] => some n
  | _ => none

def asUInt16s? : Value → Option (List UInt16)
  | int16 values => some values
  | _ => none

def asUInt32s? : Value → Option (List UInt32)
  | int32 values => some values
  | _ => none

def asUInt64s? : Value → Option (List UInt64)
  | int64 values => some values
  | _ => none

/-- The text of a string, or the first text of a localized one. -/
def asString? : Value → Option String
  | string s => some s
  | i18nString (s :: _) => some s
  | _ => none

def asStrings? : Value → Option (List String)
  | stringArray strings | i18nString strings => some strings
  | _ => none

def asBytes? : Value → Option ByteArray
  | bin bytes | char bytes | int8 bytes | unknown _ bytes => some bytes
  | _ => none

end Value

end Rpm
