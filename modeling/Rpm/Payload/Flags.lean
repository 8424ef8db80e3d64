import Rpm.Error

/-!
Payload flags: how strongly, with how many threads and with what window a payload is compressed.

Their text names a level, then `s` for little memory, then `T` and a number of threads, then `L` and
the binary logarithm of a window size, each only if it is set.
-/

namespace Rpm

def Coding.parse (s : String) : Except Error Coding :=
  match Coding.ofName? s with
  | .some c => .ok c
  | .none => .error (.unknownCoding s)

structure PayloadFlags where
  coding : Coding
  level : Option UInt32 := none
  threads : Option UInt32 := none
  windowLog : Option UInt32 := none
  /-- Whether decompression is to use little memory. -/
  small : Bool := false
  deriving DecidableEq, Repr

namespace PayloadFlags

def ofCoding (c : Coding) : PayloadFlags := { coding := c, level := c.defaultLevel? }

def part (letter : String) : Option UInt32 → String
  | none => ""
  | some n => letter ++ toString n.toNat

def display (f : PayloadFlags) : String :=
  part "" f.level ++ (if f.small then "s" else "") ++ part "T" f.threads ++ part "L" f.windowLog

def effectiveLevel (f : PayloadFlags) : UInt32 :=
  (f.level.orElse fun _ => f.coding.defaultLevel?).getD 0

/-! ### Reading -/

/-- Reads the digits of a number, of which there may be at most `most`. No digits are no number. -/
def readNumber (most : Nat) (cs : List Char) : Option (Option UInt32 × List Char) :=
  let digits := cs.takeWhile Char.isDigit
  if digits.isEmpty then some (none, cs)
  else if digits.length > most then none
  else some (some (UInt32.ofNat (Nat.ofDigitChars 10 digits 0)), cs.drop digits.length)

/-- Reads a number after a letter. If the letter is there, the number has to be. -/
def readPart (letter : Char) (cs : List Char) : Option (Option UInt32 × List Char) :=
  match cs with
  | [] => some (none, [])
  | c :: rest =>
    if c ≠ letter then some (none, cs)
    else
      match readNumber 9 rest with
      | some (some n, rest) => some (some n, rest)
      | _ => none

def readMark (letter : Char) (cs : List Char) : Bool × List Char :=
  match cs with
  | [] => (false, [])
  | c :: rest => if c = letter then (true, rest) else (false, cs)

/-- Reads the parts that the flags of a coding may have, and returns what is left. -/
def readParts (c : Coding) (cs : List Char) : Option (PayloadFlags × List Char) :=
  match c with
  | .none => some ({ coding := c }, cs)
  | .gzip | .lzma => do
    let (level, cs) ← readNumber 1 cs
    return ({ coding := c, level }, cs)
  | .bzip2 => do
    let (level, cs) ← readNumber 1 cs
    let (small, cs) := readMark 's' cs
    return ({ coding := c, level, small }, cs)
  | .xz => do
    let (level, cs) ← readNumber 1 cs
    let (threads, cs) ← readPart 'T' cs
    return ({ coding := c, level, threads }, cs)
  | .zstd => do
    let (level, cs) ← readNumber 2 cs
    let (threads, cs) ← readPart 'T' cs
    let (windowLog, cs) ← readPart 'L' cs
    return ({ coding := c, level, threads, windowLog }, cs)

def isWindowLog (n : UInt32) : Bool := 10 ≤ n && n ≤ 31

def withinLimits (f : PayloadFlags) : Bool :=
  match f.coding with
  | .bzip2 => f.level ≠ some 0
  | .zstd => f.level.all (· ≤ 22) && f.windowLog.all isWindowLog
  | _ => true

/-- Reads flags. A text has to be spelled as the flags that it denotes are: there may be nothing
behind them, and no leading zeros. -/
def parse (c : Coding) (s : String) : Except Error PayloadFlags :=
  match readParts c s.toList with
  | none => .error (.invalidFlags c s)
  | some (f, rest) =>
    if rest.isEmpty && f.withinLimits && f.display = s then .ok f else .error (.invalidFlags c s)

/-- Whether a compressor can be made with the flags. A window size of zero stands for the usual
one. -/
def usable (f : PayloadFlags) : Bool :=
  match f.coding with
  | .zstd => f.windowLog.all fun n => n = 0 || isWindowLog n
  | _ => true

end PayloadFlags

end Rpm
