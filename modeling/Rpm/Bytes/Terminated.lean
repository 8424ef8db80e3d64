import Rpm.Bytes.Basic

/-!
Strings that end in a zero byte.

A string that holds a zero byte itself cannot be told from a shorter one in this form.
-/

namespace Rpm

def terminated (s : String) : ByteArray := s.toUTF8.push 0

@[simp] theorem size_terminated (s : String) : (terminated s).size = s.utf8ByteSize + 1 := by
  simp [terminated]

/-- Whether a string holds a zero byte, which would end it early. -/
def holdsNul (s : String) : Bool := s.toUTF8.data.contains 0

def nulFrom (bytes : ByteArray) : Nat → Nat → Option Nat
  | 0, _ => none
  | fuel + 1, pos =>
    if h : pos < bytes.size then if bytes[pos] = 0 then some pos else nulFrom bytes fuel (pos + 1)
    else none

/-- The text in front of the zero byte that ends the bytes and is the only one in them. -/
def ofTerminated? (bytes : ByteArray) : Option String :=
  let size := bytes.size - 1
  if nulFrom bytes bytes.size 0 = some size then String.fromUTF8? (bytes.extract 0 size) else none

end Rpm
