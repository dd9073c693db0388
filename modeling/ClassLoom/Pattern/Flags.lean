import ClassLoom.Pattern

/-!
# Flags and escapes of pattern texts

The flags that change what the parts of a pattern text mean, and the parts that mean the same
in and out of bracketed sets: escapes, class letters and characters in hexadecimal.
-/

namespace ClassLoom.Pattern

/-! ## Flags -/

/-- The flags that change what tokens mean. -/
structure Flags where
  ignoreCase : Bool := false
  multiLine : Bool := false
  dotAll : Bool := false
  /-- A carriage return ends lines too. -/
  crlf : Bool := false
  /-- Classes and word boundaries know all of Unicode. -/
  unicode : Bool := true
  /-- White space and comments count for nothing. -/
  verbose : Bool := false
  deriving DecidableEq, Repr

namespace Flags

/-- The set under the flags. -/
def fold (flags : Flags) (s : CharSet) : CharSet := if flags.ignoreCase then .anyCase s else s

/-- The flags with the one that a letter stands for set or cleared. Whether repetition is lazy
changes nothing about what matches. -/
def set? (flags : Flags) (letter : Char) (value : Bool) : Option Flags :=
  match letter with
  | 'i' => some { flags with ignoreCase := value }
  | 'm' => some { flags with multiLine := value }
  | 's' => some { flags with dotAll := value }
  | 'R' => some { flags with crlf := value }
  | 'u' => some { flags with unicode := value }
  | 'x' => some { flags with verbose := value }
  | 'U' => some flags
  | _ => none

/-- The complement of a set. Without Unicode it would hold bytes that are no characters. -/
def complement? (flags : Flags) (s : CharSet) : Option CharSet :=
  if flags.unicode then some (.complement s) else none

/-- What is left of a verbose text behind blanks and comments. -/
def skipVerbose (inComment : Bool) : List Char → List Char
  | [] => []
  | c :: rest =>
    if inComment then skipVerbose (c ≠ '\n') rest
    else if Text.isBlank c then skipVerbose false rest
    else if c = '#' then skipVerbose true rest
    else c :: rest

/-- What is left of a text behind what counts for nothing. -/
def skip (flags : Flags) (cs : List Char) : List Char :=
  if flags.verbose then skipVerbose false cs else cs

end Flags

/-! ## Escapes

What stands behind a backslash means the same everywhere but for the flags. Letters and digits that
have no meaning are refused, since they may get one. -/

/-- What stands behind a backslash. -/
inductive Escape where
  | char (c : Char)
  | set (s : CharSet)
  | assertion (a : Assertion)

namespace Escape

/-- The ASCII characters that have a meaning of their own, or may get one. -/
def isMeta (c : Char) : Bool := "\\.+*?()|[]\x7b\x7d^$#&-~".toList.contains c

/-! ## Characters by number -/

/-- The value of a hexadecimal digit. -/
def hexDigit? (c : Char) : Option Nat :=
  if c.isDigit then some (c.toNat - 48)
  else if 'a' ≤ c && c ≤ 'f' then some (c.toNat - 87)
  else if 'A' ≤ c && c ≤ 'F' then some (c.toNat - 55)
  else none

/-- The value of hexadecimal digits. -/
def hexNumber? (cs : List Char) : Option Nat :=
  cs.foldlM (fun n c => do return n * 16 + (← hexDigit? c)) 0

/-- The character with the given code point. -/
def charOf? (n : Nat) : Option Char :=
  if n.isValidChar then some (Char.ofNat n) else none

/-- A character given in hexadecimal: in braces, or in exactly `width` digits. -/
def hexChar? (width : Nat) (cs : List Char) : Option (Char × List Char) :=
  match cs with
  | '\x7b' :: rest => do
    let digits := rest.takeWhile (· ≠ '\x7d')
    -- The brace must be closed, and it must have something in it.
    if digits.isEmpty || digits.length = rest.length then none
    let c ← charOf? (← hexNumber? digits)
    return (c, rest.drop (digits.length + 1))
  | cs => do
    let digits := cs.take width
    if digits.length < width then none
    let c ← charOf? (← hexNumber? digits)
    return (c, cs.drop width)

/-! ## Classes and controls -/

/-- A set in ASCII, from ranges. -/
def asciiSet (ranges : List (Char × Char)) : CharSet :=
  .unionAll (ranges.map fun (a, b) => .range a.toNat b.toNat)

/-- Word characters in ASCII. -/
def asciiWord : CharSet := asciiSet [('0', '9'), ('A', 'Z'), ('_', '_'), ('a', 'z')]

/-- White space in ASCII. -/
def asciiBlank : CharSet := asciiSet [('\t', '\r'), (' ', ' ')]

/-- The set that a class letter stands for. -/
def classLetter? (flags : Flags) (c : Char) : Option CharSet :=
  match c with
  | 'd' => some (if flags.unicode then .digit else asciiSet [('0', '9')])
  | 's' => some (if flags.unicode then .blank else asciiBlank)
  | 'w' => some (if flags.unicode then .word else asciiWord)
  | 'D' => flags.complement? .digit
  | 'S' => flags.complement? .blank
  | 'W' => flags.complement? .word
  | _ => none

/-- The control characters that have letters. -/
def controlLetter? (c : Char) : Option Char :=
  match c with
  | 'a' => some '\x07'
  | 'f' => some '\x0c'
  | 't' => some '\t'
  | 'n' => some '\n'
  | 'r' => some '\r'
  | 'v' => some '\x0b'
  | _ => none

/-- The assertion about words that stands in braces behind its letter, or the plain one. -/
def wordAssertion? (ascii : Bool) (cs : List Char) : Option (Assertion × List Char) :=
  match cs with
  | '\x7b' :: rest =>
    let name := rest.takeWhile (· ≠ '\x7d')
    let rest := rest.drop (name.length + 1)
    match String.ofList name with
    | "start" => some (.wordStart ascii, rest)
    | "end" => some (.wordEnd ascii, rest)
    | "start-half" => some (.noWordBefore ascii, rest)
    | "end-half" => some (.noWordBehind ascii, rest)
    | _ => none
  | cs => some (.wordEdge ascii, cs)

/-- Reads what stands behind a backslash. -/
def read? (flags : Flags) : List Char → Option (Escape × List Char)
  | [] => none
  | 'x' :: rest => (hexChar? 2 rest).map fun (c, rest) => (char c, rest)
  | 'u' :: rest => (hexChar? 4 rest).map fun (c, rest) => (char c, rest)
  | 'U' :: rest => (hexChar? 8 rest).map fun (c, rest) => (char c, rest)
  | 'A' :: rest => some (assertion .textStart, rest)
  | 'z' :: rest => some (assertion .textEnd, rest)
  | 'b' :: rest => (wordAssertion? (!flags.unicode) rest).map fun (a, rest) => (assertion a, rest)
  | 'B' :: rest => some (assertion (.noWordEdge (!flags.unicode)), rest)
  | '<' :: rest => some (assertion (.wordStart (!flags.unicode)), rest)
  | '>' :: rest => some (assertion (.wordEnd (!flags.unicode)), rest)
  | c :: rest =>
    match classLetter? flags c, controlLetter? c with
    | some s, _ => some (set s, rest)
    | none, some control => some (char control, rest)
    | none, none =>
      if isMeta c || (c.toNat < 128 && !c.isAlphanum) then some (char c, rest) else none

end Escape
end ClassLoom.Pattern
