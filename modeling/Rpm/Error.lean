import Rpm.Archive.Error
import Rpm.Header.ValueType
import Rpm.Payload.Coding

/-!
What can go wrong with a package, by cause. `Error.message` words each cause.
-/

namespace Rpm

inductive SectionPart where
  | prologue
  | indexOrStore
  | padding
  deriving DecidableEq, Repr

inductive SectionLimit where
  | indexEntries
  | storeSize
  | offset
  deriving DecidableEq, Repr

inductive ValueFault where
  /-- The region tag marks the section itself. -/
  | regionTag
  | nulInString
  /-- The arrays that describe dependencies have different lengths. -/
  | unequalArrays
  deriving DecidableEq, Repr

inductive ProtocolRule where
  | registerFirst
  | initOnce
  | headerOnce
  | payloadAfterHeader
  | finishOnce
  | payloadProcessorsFirst
  | sizeNotGiven
  deriving DecidableEq, Repr

inductive Stage where
  | spooling
  | openingSource
  | writingSignature
  | writingHeader
  | copyingPayload
  | flushing
  | readingPayload
  deriving DecidableEq, Repr

/-- Why a package cannot be read, written or built. -/
inductive Error where
  | stream (cause : StreamError)
  | streamDuring (stage : Stage) (cause : StreamError)
  | archive (cause : ArchiveError)
  | openPgp
  | numberTooLarge
  | badLeadMagic
  | unsupportedLeadVersion (major minor : UInt8)
  | badHeaderMagic
  | headerTruncated (part : SectionPart)
  | headerTooLarge (limit : SectionLimit)
  | entryOutOfBounds (tag : UInt32)
  | stringUnterminated (tag : UInt32)
  | stringNotUtf8 (tag : UInt32)
  | invalidValue (tag : UInt32) (fault : ValueFault)
  /-- A value does not have the type of its tag; an actual type of `none` is an unknown one. -/
  | tagTypeMismatch (tag : UInt32) (expected : ValueType) (actual : Option ValueType)
  | missingTag (tag : UInt32)
  | unknownCoding (name : String)
  | invalidFlags (coding : Coding) (flags : String)
  | unsupportedPayloadFormat (format : String)
  | invalidVersion (reason : String)
  | invalidPath (path : String)
  | recorderFinished
  | writerFinished
  | payloadNotSet
  | protocol (rule : ProtocolRule)
  | payloadTruncated (copied expected : Nat)
  | digestMismatch (tag : UInt32)
  | unsupported (operation : String)
  deriving DecidableEq, Repr

def SectionPart.text : SectionPart → String
  | prologue => "section prologue"
  | indexOrStore => "index or data store"
  | padding => "signature header padding"

def SectionLimit.text : SectionLimit → String
  | indexEntries => "index entry count"
  | storeSize => "data store size"
  | offset => "too much data to render"

def ValueFault.text : ValueFault → String
  | regionTag => "region tag is synthesized and cannot be set"
  | nulInString => "string contains a NUL byte"
  | unequalArrays => "dependency arrays differ in length"

def ProtocolRule.text : ProtocolRule → String
  | registerFirst => "processors must be registered before feeding"
  | initOnce => "init must be called once, before feeding"
  | headerOnce => "header must be fed exactly once, before payload data"
  | payloadAfterHeader => "payload data must be fed after the header and before finishing"
  | finishOnce => "finish requires the header to be fed and may only be called once"
  | payloadProcessorsFirst => "payload processors must be registered before entries are added"
  | sizeNotGiven => "archive size was not provided by init"

def Stage.text : Stage → String
  | spooling => "spooling payload source"
  | openingSource => "opening payload source file"
  | writingSignature => "writing signature header"
  | writingHeader => "writing metadata header"
  | copyingPayload => "copying payload"
  | flushing => "flushing RPM"
  | readingPayload => "reading payload"

def typeName : Option ValueType → String
  | none => "UNKNOWN"
  | some t => t.name

namespace Error

def message : Error → String
  | stream _ => "I/O error"
  | streamDuring stage _ => s!"I/O error while {stage.text}"
  | archive cause => s!"cpio error: {cause.message}"
  | openPgp => "PGP error"
  | numberTooLarge => "integer parsing error: ParseIntError \x7b kind: PosOverflow \x7d"
  | badLeadMagic => "bad RPM lead magic"
  | unsupportedLeadVersion major minor =>
    s!"unsupported RPM lead format version {major}.{minor}"
  | badHeaderMagic => "bad header section magic"
  | headerTruncated part => s!"header section is truncated: {part.text}"
  | headerTooLarge limit => s!"header section exceeds limits: {limit.text}"
  | entryOutOfBounds tag => s!"header entry for tag {tag} points outside of the data store"
  | stringUnterminated tag => s!"string data for tag {tag} lacks a NUL terminator"
  | stringNotUtf8 tag => s!"string data for tag {tag} is not valid UTF-8"
  | invalidValue tag fault => s!"header value for tag {tag} cannot be rendered: {fault.text}"
  | tagTypeMismatch tag expected actual =>
    s!"tag {tag} declares type {expected.name}; got {typeName actual}"
  | missingTag tag => s!"required tag missing from header: {tag}"
  | unknownCoding name => s!"unknown payload coding: {name}"
  | invalidFlags coding flags => s!"invalid flags for payload coding {coding.name}: {flags}"
  | unsupportedPayloadFormat format => s!"unsupported payload format: {format}"
  | invalidVersion reason => s!"failed to parse version string: {reason}"
  | invalidPath path => s!"invalid path in package: {path}"
  | recorderFinished => "payload recorder has already been finished"
  | writerFinished => "RPM writer has already been finished"
  | payloadNotSet => "no payload set on RPM writer"
  | protocol rule => s!"processor protocol violation: {rule.text}"
  | payloadTruncated copied expected =>
    s!"payload copy stopped after {copied} of {expected} bytes"
  | digestMismatch tag => s!"digest mismatch for signature tag {tag}"
  | unsupported operation => s!"unsupported operation: {operation}"

end Error

end Rpm
