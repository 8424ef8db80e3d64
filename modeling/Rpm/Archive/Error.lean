import Rpm.Bytes.Stream

/-!
What can go wrong with an archive.
-/

namespace Rpm

inductive ArchiveError where
  | stream (cause : StreamError)
  | badMagic
  | fieldNotText
  | fieldNotHex (field : String)
  /-- A member name is not text that ends in a single zero byte. -/
  | nameNotText
  | nameHoldsNul (name : String)
  /-- A member's source gave fewer bytes than its header declares. -/
  | dataSizeMismatch (name : String) (expected actual : Nat)
  | memberTooLarge (name : String)
  | finished
  deriving DecidableEq, Repr

namespace ArchiveError

/-- The text of an error. Errors of the stream have a text of their own, and none here. -/
def message : ArchiveError → String
  | stream _ => "I/O error"
  | badMagic => "bad magic value encountered"
  | fieldNotText => "value in header is not an ASCII string"
  | fieldNotHex field => s!"string value in header is not in hex: {field}"
  | nameNotText => "filename could not be decoded"
  | nameHoldsNul name => s!"filename contains a NUL byte: {name}"
  | dataSizeMismatch name expected actual =>
    s!"member data size mismatch for {name}: header declares {expected} bytes; got {actual}"
  | memberTooLarge name => s!"member {name} is too large for the newc format"
  | finished => "archive has already been finished"

end ArchiveError

end Rpm
