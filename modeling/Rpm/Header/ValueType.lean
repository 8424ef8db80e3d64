/-!
The types of header values.
-/

namespace Rpm

/-- The type of a header value, as the index of a header section names it. -/
inductive ValueType where
  | null
  | char
  | int8
  | int16
  | int32
  | int64
  | string
  | bin
  | stringArray
  | i18nString
  deriving DecidableEq, Repr

namespace ValueType

def id : ValueType → UInt32
  | null => 0
  | char => 1
  | int8 => 2
  | int16 => 3
  | int32 => 4
  | int64 => 5
  | string => 6
  | bin => 7
  | stringArray => 8
  | i18nString => 9

def ofId? (n : UInt32) : Option ValueType :=
  if n = 0 then some null
  else if n = 1 then some char
  else if n = 2 then some int8
  else if n = 3 then some int16
  else if n = 4 then some int32
  else if n = 5 then some int64
  else if n = 6 then some string
  else if n = 7 then some bin
  else if n = 8 then some stringArray
  else if n = 9 then some i18nString
  else none

@[simp] theorem ofId?_id (t : ValueType) : ofId? t.id = some t := by
  cases t <;> rfl

theorem id_of_ofId? {n : UInt32} {t : ValueType} (h : ofId? n = some t) : t.id = n := by
  unfold ofId? at h
  repeat' split at h
  all_goals first
    | (injection h with h; subst h; rw [id]; symm; assumption)
    | exact absurd h (by simp)

/-- Where values of a type start in a data store: at multiples of this. -/
def alignment : ValueType → Nat
  | int16 => 2
  | int32 => 4
  | int64 => 8
  | _ => 1

theorem alignment_pos (t : ValueType) : 0 < t.alignment := by
  cases t <;> decide

def elementSize? : ValueType → Option Nat
  | char | int8 | bin => some 1
  | int16 => some 2
  | int32 => some 4
  | int64 => some 8
  | null | string | stringArray | i18nString => none

def name : ValueType → String
  | null => "NULL"
  | char => "CHAR"
  | int8 => "INT8"
  | int16 => "INT16"
  | int32 => "INT32"
  | int64 => "INT64"
  | string => "STRING"
  | bin => "BIN"
  | stringArray => "STRING_ARRAY"
  | i18nString => "I18NSTRING"

end ValueType

end Rpm
