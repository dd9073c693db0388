import ClassLoom.Pattern.Bracketed

/-!
# The written form of patterns

A pattern text is read token by token. What a token means depends on the flags in force, which
a group can set for its rest or for itself alone; `Draft` is what has been read so far: the
alternatives and the current sequence of every group that is still open.

Texts that are no pattern are refused without a word about the reason.
-/

namespace ClassLoom.Pattern

/-! ## Tokens

A token is read with the flags in force at its place. Groups and changes of flags are tokens, too,
so that no reading goes into the depth of the text. -/

/-- A unit of a pattern text. -/
inductive Token where
  | item (p : Pattern)
  /-- Opens a group; `inner` are the flags inside it. -/
  | opening (name : Option (List Char)) (inner : Flags)
  /-- Changes the flags for the rest of the group. -/
  | flags (f : Flags)
  | closing
  | bar
  | repetition (low : Nat) (high : Option Nat)

namespace Token

/-- Reads flag letters up to the end of a group's head, with the letters `seen` before them.
Behind a hyphen the flags are cleared, and there must be some. -/
def readFlags? (flags : Flags) (value : Bool) (seen : List Char) :
    List Char → Option (Flags × List Char × Char × List Char)
  | [] => none
  | c :: rest =>
    if c = ':' || c = ')' then
      if seen.head? = some '-' then none else some (flags, seen, c, rest)
    else if c = '-' then
      if value then readFlags? flags false ('-' :: seen) rest else none
    else if seen.contains c then none
    else do readFlags? (← flags.set? c value) value (c :: seen) rest

/-- Whether a character can be part of a group's name. -/
def isNameChar (first : Bool) (c : Char) : Bool :=
  c = '_' || c.isAlpha || (c.toNat ≥ 128 && Text.isWord c)
    || (!first && (c.isDigit || c = '.' || c = '[' || c = ']'))

/-- Reads a group's name up to its angle bracket. -/
def readName? (cs : List Char) : Option (List Char × List Char) :=
  let name := cs.takeWhile (· ≠ '>')
  match name, cs.drop name.length with
  | c :: more, _ :: rest =>
    if isNameChar true c && more.all (isNameChar false) then some (name, rest) else none
  | _, _ => none

/-- Reads what stands behind an opening parenthesis. -/
def readGroup? (flags : Flags) (cs : List Char) : Option (Token × List Char) :=
  match cs with
  | '?' :: '<' :: rest | '?' :: 'P' :: '<' :: rest =>
    (readName? rest).map fun (name, rest) => (opening (some name) flags, rest)
  | '?' :: rest => do
    let (inner, seen, last, rest) ← readFlags? flags true [] rest
    if last = ':' then return (opening none inner, rest)
    else if seen.isEmpty then none
    else return (.flags inner, rest)
  | cs => some (opening none flags, cs)

/-- Reads a decimal number with blanks around it; there need not be one. -/
def readCount? (cs : List Char) : Option (Option Nat × List Char) :=
  let cs := cs.dropWhile Text.isBlank
  let digits := cs.takeWhile Char.isDigit
  let rest := (cs.drop digits.length).dropWhile Text.isBlank
  let n := digits.foldl (fun n c => n * 10 + (c.toNat - 48)) 0
  if digits.isEmpty then some (none, rest)
  else if n < 4294967296 then some (some n, rest)
  else none

/-- Reads the bounds of a repetition behind the opening brace. -/
def readBounds? (cs : List Char) : Option ((Nat × Option Nat) × List Char) := do
  let (low, rest) ← readCount? cs
  match low, rest with
  | some low, '\x7d' :: rest => return ((low, some low), rest)
  | some low, ',' :: rest =>
    let (high, rest) ← readCount? rest
    match rest with
    | '\x7d' :: rest =>
      if high.all (low ≤ ·) then return ((low, high), rest) else none
    | _ => none
  | _, _ => none

/-- What is left behind the mark of lazy repetition. -/
def skipLazy (cs : List Char) : List Char := if cs.head? = some '?' then cs.drop 1 else cs

/-- The pattern of one character out of a set, under the flags. -/
def oneOf (flags : Flags) (s : CharSet) : Token := item (.oneOf (flags.fold s))

/-- The characters that end no line. -/
def dot? (flags : Flags) : Option CharSet :=
  if flags.dotAll then flags.complement? .empty
  else if flags.crlf then flags.complement? (.union (.single '\n') (.single '\r'))
  else flags.complement? (.single '\n')

/-- Reads a token. -/
def read? (flags : Flags) : List Char → Option (Token × List Char)
  | [] => none
  | '(' :: rest => readGroup? flags (flags.skip rest)
  | ')' :: rest => some (closing, rest)
  | '|' :: rest => some (bar, rest)
  | '?' :: rest => some (repetition 0 (some 1), skipLazy rest)
  | '*' :: rest => some (repetition 0 none, skipLazy rest)
  | '+' :: rest => some (repetition 1 none, skipLazy rest)
  | '\x7b' :: rest =>
    (readBounds? rest).map fun ((low, high), rest) => (repetition low high, skipLazy rest)
  | '.' :: rest => (dot? flags).map fun s => (item (.oneOf s), rest)
  | '^' :: rest =>
    some (item (.assertion (if flags.multiLine then .lineStart flags.crlf else .textStart)), rest)
  | '$' :: rest =>
    some (item (.assertion (if flags.multiLine then .lineEnd flags.crlf else .textEnd)), rest)
  | '[' :: rest =>
    (Bracketed.read? flags (2 * rest.length + 2) rest).map fun (s, rest) => (item (.oneOf s), rest)
  | '\\' :: rest =>
    (Escape.read? flags rest).map fun (e, rest) =>
      match e with
      | .char c => (oneOf flags (.single c), rest)
      | .set s => (oneOf flags s, rest)
      | .assertion a => (item (.assertion a), rest)
  | c :: rest => some (oneOf flags (.single c), rest)

end Token

/-! ## Groups

Open groups form a stack. What is in a group becomes one part of the group around it when it is
closed. -/

/-- A group that is still open. -/
structure Group where
  flags : Flags
  /-- The alternatives before the current one, last one first. -/
  alternatives : List Pattern := []
  /-- The current alternative, last part first; a part that cannot be repeated is none. -/
  parts : List (Option Pattern) := []

/-- What has been read of a pattern text. -/
structure Draft where
  /-- The innermost group. -/
  current : Group
  outer : List Group := []
  /-- The names of groups so far. -/
  names : List (List Char) := []

namespace Group

/-- The current alternative as a pattern. -/
def sequence (g : Group) : Pattern := seqAll (g.parts.reverse.filterMap id)

/-- The whole group as a pattern. -/
def pattern (g : Group) : Pattern := g.alternatives.foldl (fun p a => alt a p) g.sequence

/-- Adds a part. -/
def add (g : Group) (part : Option Pattern) : Group := { g with parts := part :: g.parts }

/-- Starts the next alternative. -/
def split (g : Group) : Group :=
  { g with alternatives := g.sequence :: g.alternatives, parts := [] }

/-- Repeats the last part. -/
def repeat? (g : Group) (low : Nat) (high : Option Nat) : Option Group :=
  match g.parts with
  | some p :: rest =>
    -- Repetition copies its part, so a limit keeps small texts from standing for huge patterns.
    if p.size * max low (high.getD 0) ≤ sizeLimit then
      some { g with parts := some (repeated p low high) :: rest }
    else none
  | _ => none

end Group

namespace Draft

/-- Adds a token. -/
def push? (d : Draft) : Token → Option Draft
  | .item p => some { d with current := d.current.add (some p) }
  | .flags f => some { d with current := { d.current.add none with flags := f } }
  | .bar => some { d with current := d.current.split }
  | .repetition low high => (d.current.repeat? low high).map fun g => { d with current := g }
  | .opening name inner =>
    match name with
    | none => some { d with current := { flags := inner }, outer := d.current :: d.outer }
    | some name =>
      if d.names.contains name then none
      else some { current := { flags := inner }, outer := d.current :: d.outer,
                  names := name :: d.names }
  | .closing =>
    match d.outer with
    | g :: outer => some { d with current := g.add (some d.current.pattern), outer }
    | [] => none

/-- Adds at most so many tokens, up to the end of the text. -/
def readFor? : Nat → Draft → List Char → Option Draft
  | 0, _, _ => none
  | fuel + 1, d, cs =>
    match d.current.flags.skip cs with
    | [] => some d
    | cs => do
      let (token, rest) ← Token.read? d.current.flags cs
      readFor? fuel (← d.push? token) rest

end Draft

/-- The pattern with the given text. -/
def parse? (text : String) : Option Pattern := do
  let cs := text.toList
  let d ← Draft.readFor? (cs.length + 1) { current := { flags := {} } } cs
  if d.outer.isEmpty then return d.current.pattern else none

end ClassLoom.Pattern
