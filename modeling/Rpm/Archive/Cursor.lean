import Rpm.Archive.Member

/-!
Reading an archive: a cursor that steps over the members, and reads of the one it is on.

An error closes the cursor, and so does the end of the archive: nothing is read from then on.
-/

namespace Rpm.Archive

inductive Cursor where
  /-- In front of a member. -/
  | between (source : Source)
  /-- In the data of a member, of which some bytes are left, and then the padding. -/
  | within (source : Source) (remaining padding : Nat)
  /-- Behind the last member, or behind an error. -/
  | closed

structure Member where
  header : MemberHeader
  data : ByteArray

inductive MembersError where
  | header (cause : ArchiveError)
  | data (cause : StreamError)
  deriving DecidableEq, Repr

namespace Cursor

def ofSource (s : Source) : Cursor := .between s

def finish : Cursor → Cursor × Except ArchiveError Unit
  | .within s remaining padding =>
    match s.readExact remaining with
    | .error e => (.closed, .error (.stream e))
    | .ok (_, s) =>
      match s.readExact padding with
      | .error e => (.closed, .error (.stream e))
      | .ok (_, s) => (.between s, .ok ())
  | c => (c, .ok ())

/-- Reads the header at the front of a source. A source that ends in front of it, or within its
magic number, ends the archive, and so does the trailer. -/
def enter (s : Source) : Cursor × Except ArchiveError (Option MemberHeader) :=
  match s.readExact 6 with
  | .error .unexpectedEnd => (.closed, .ok none)
  | .error e => (.closed, .error (.stream e))
  | .ok (front, s) =>
    if front ≠ magic then (.closed, .error .badMagic)
    else
      match MemberHeader.read s with
      | .error e => (.closed, .error e)
      | .ok (header, s) =>
        if header.name = trailerName then (.closed, .ok none)
        else
          let size := header.fileSize.toNat
          (.within s size (paddingFor 4 size), .ok (some header))

def next (c : Cursor) : Cursor × Except ArchiveError (Option MemberHeader) :=
  match c.finish with
  | (c, .error e) => (c, .error e)
  | (.between s, .ok ()) => enter s
  | (c, .ok ()) => (c, .ok none)

/-- Reads at most `n` bytes of the current member: none if nothing is left of it. -/
def read (c : Cursor) (n : Nat) : Cursor × Except StreamError ByteArray :=
  match c with
  | .within s remaining padding =>
    match s.read (min n remaining) with
    | .error e => (c, .error e)
    | .ok (bytes, s) => (.within s (remaining - bytes.size) padding, .ok bytes)
  | _ => (c, .error .other)

/-- Reads all that is left of the current member, or of the source if that is less. -/
def readAll (c : Cursor) : Cursor × Except StreamError ByteArray :=
  match c with
  | .within s remaining padding =>
    let available := min remaining s.rest.size
    (.within (s.skip available) (remaining - available) padding, (s.take remaining).readAll)
  | _ => (c, .error .other)

/-- How many more members can follow: each takes a whole header. -/
def fuel : Cursor → Nat
  | .between s | .within s _ _ => s.rest.size / headerSize + 1
  | .closed => 1

def headers (c : Cursor) : List (Except ArchiveError MemberHeader) :=
  go c.fuel c
where
  go : Nat → Cursor → List (Except ArchiveError MemberHeader)
    | 0, _ => []
    | fuel + 1, c =>
      match c.next with
      | (_, .ok none) => []
      | (_, .error e) => [.error e]
      | (c, .ok (some header)) => .ok header :: go fuel c

def members (c : Cursor) : Except MembersError (List Member) :=
  go c.fuel c
where
  go : Nat → Cursor → Except MembersError (List Member)
    | 0, _ => .ok []
    | fuel + 1, c =>
      match c.next with
      | (_, .error e) => .error (.header e)
      | (_, .ok none) => .ok []
      | (c, .ok (some header)) =>
        match c.readAll with
        | (_, .error e) => .error (.data e)
        | (c, .ok data) => (go fuel c).map (⟨header, data⟩ :: ·)

end Cursor

end Rpm.Archive
