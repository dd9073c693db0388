import ClassLoom.Pattern.Flags

/-!
# Settings files

The flat part of TOML that settings files are written in: lines that give a key a text or a
whole number, blank lines and comments. Texts come in all four spellings, numbers in all four
bases. Everything else, such as tables, arrays, dates and dotted keys, is refused, because no
setting could take it; so is a key that comes twice.
-/

namespace ClassLoom.Toml

/-- A value that a setting can have. -/
inductive Value where
  | text (s : String)
  | integer (i : Int)
  deriving DecidableEq, Repr

/-! ## Characters and line ends

A line end is a line feed with or without a carriage return in front of it. A carriage return alone
is no character that can stand anywhere. -/

/-- Whether a character can stand in a comment or, unless it ends or escapes something there,
in a text on one line. -/
def isPlain (c : Char) : Bool := c = '\t' || (0x20 ≤ c.toNat && c ≠ '\x7f')

/-- Whether a character is a blank within a line. -/
def isSpace (c : Char) : Bool := c = ' ' || c = '\t'

/-- What is left behind a line end. -/
def lineEnd? : List Char → Option (List Char)
  | '\n' :: rest => some rest
  | '\r' :: '\n' :: rest => some rest
  | _ => none

/-- What is left behind blanks and line ends. -/
def skipLines : List Char → List Char
  | '\r' :: '\n' :: rest => skipLines rest
  | c :: rest => if isSpace c || c = '\n' then skipLines rest else c :: rest
  | [] => []

/-! ## Texts

Texts with quotation marks have escapes, those with apostrophes have none. Both can go over lines if
they are opened by three marks. -/

/-- The character with the code point that so many hexadecimal digits give. -/
def codePoint? (width : Nat) (cs : List Char) : Option (Char × List Char) := do
  let digits := cs.take width
  if digits.length < width then none
  let c ← Pattern.Escape.charOf? (← Pattern.Escape.hexNumber? digits)
  return (c, cs.drop width)

/-- Reads what stands behind a backslash. -/
def escape? : List Char → Option (Char × List Char)
  | 'b' :: rest => some ('\x08', rest)
  | 't' :: rest => some ('\t', rest)
  | 'n' :: rest => some ('\n', rest)
  | 'f' :: rest => some ('\x0c', rest)
  | 'r' :: rest => some ('\r', rest)
  | '"' :: rest => some ('"', rest)
  | '\\' :: rest => some ('\\', rest)
  | 'u' :: rest => codePoint? 4 rest
  | 'U' :: rest => codePoint? 8 rest
  | _ => none

/-- The up to two quotes that can stand directly in front of a closing mark of three, in front
of `done`, last character first. -/
def extraQuotes (quote : Char) (done cs : List Char) : List Char × List Char :=
  match cs with
  | a :: b :: rest =>
    if a = quote && b = quote then (quote :: quote :: done, rest)
    else if a = quote then (quote :: done, b :: rest)
    else (done, cs)
  | [a] => if a = quote then (quote :: done, []) else (done, cs)
  | [] => (done, [])

/-- Reads a text up to its closing quote. `escapes` tells whether backslashes escape. -/
def readLine? (quote : Char) (escapes : Bool) :
    Nat → List Char → List Char → Option (List Char × List Char)
  | 0, _, _ => none
  | _, _, [] => none
  | fuel + 1, done, c :: rest =>
    if c = quote then some (done.reverse, rest)
    else if escapes && c = '\\' then do
      let (e, rest) ← escape? rest
      readLine? quote escapes fuel (e :: done) rest
    else if isPlain c then readLine? quote escapes fuel (c :: done) rest
    else none

/-- Reads a text that can go over lines, up to its closing three quotes. A backslash at the
end of a line takes away all blanks and line ends behind it. -/
def readLines? (quote : Char) (escapes : Bool) :
    Nat → List Char → List Char → Option (List Char × List Char)
  | 0, _, _ => none
  | fuel + 1, done, cs =>
    match lineEnd? cs, cs with
    | some rest, _ => readLines? quote escapes fuel ('\n' :: done) rest
    | none, [] => none
    | none, c :: rest =>
      if rest.take 2 = [quote, quote] && c = quote then
        let (done, rest) := extraQuotes quote done (rest.drop 2)
        some (done.reverse, rest)
      else if escapes && c = '\\' then
        -- A backslash in front of a line end takes away the line end and all blanks up to the next
        -- text.
        match lineEnd? (rest.dropWhile isSpace) with
        | some rest => readLines? quote escapes fuel done (skipLines rest)
        | none => do
          let (e, rest) ← escape? rest
          readLines? quote escapes fuel (e :: done) rest
      else if isPlain c then readLines? quote escapes fuel (c :: done) rest
      else none

/-- Reads a text on one line in either spelling. -/
def readQuoted? (cs : List Char) : Option (List Char × List Char) :=
  match cs with
  | '"' :: rest => readLine? '"' true cs.length [] rest
  | '\'' :: rest => readLine? '\'' false cs.length [] rest
  | _ => none

/-- Reads a text that can go over lines behind its opening quotes. A line end that comes first
does not count. -/
def readBlock? (quote : Char) (escapes : Bool) (cs : List Char) :
    Option (List Char × List Char) :=
  readLines? quote escapes (cs.length + 1) [] ((lineEnd? cs).getD cs)

/-! ## Numbers

Whole numbers in base ten, sixteen, eight and two, with single underscores between digits. -/

/-- The digit of a base that a character stands for. -/
def digit? (base : Nat) (c : Char) : Option Nat :=
  match Pattern.Escape.hexDigit? c with
  | some d => if d < base then some d else none
  | none => none

/-- The digits of a number. Single underscores can stand between digits. -/
def digits? (base : Nat) : List Char → Option (List Nat)
  | [] => none
  | [c] => do return [← digit? base c]
  | c :: '_' :: rest => do return (← digit? base c) :: (← digits? base rest)
  | c :: rest => do return (← digit? base c) :: (← digits? base rest)

/-- The number with the given digits. -/
def natOf? (base : Nat) (cs : List Char) : Option Nat := do
  return (← digits? base cs).foldl (fun n d => n * base + d) 0

/-- A decimal number; only zero itself starts with a zero. -/
def decimal? (cs : List Char) : Option Nat :=
  if cs.head? = some '0' && cs.length ≠ 1 then none else natOf? 10 cs

/-- A whole number in any base. Only decimal ones have signs. -/
def integer? : List Char → Option Int
  | '0' :: 'x' :: rest => (natOf? 16 rest).map Int.ofNat
  | '0' :: 'o' :: rest => (natOf? 8 rest).map Int.ofNat
  | '0' :: 'b' :: rest => (natOf? 2 rest).map Int.ofNat
  | '+' :: rest => (decimal? rest).map Int.ofNat
  | '-' :: rest => (decimal? rest).map fun n => -Int.ofNat n
  | cs => (decimal? cs).map Int.ofNat

/-- Whether a whole number has 64 bits. -/
def fits64 (i : Int) : Bool := -9223372036854775808 ≤ i && i ≤ 9223372036854775807

/-! ## Lines

A line is blank, a comment, or a key with its value. Whatever else it holds is refused. -/

/-- Whether a character can be part of a key without quotes. -/
def isKeyChar (c : Char) : Bool := c.isAlphanum || c = '_' || c = '-'

/-- Reads a key. -/
def readKey? (cs : List Char) : Option (List Char × List Char) :=
  let bare := cs.takeWhile isKeyChar
  if bare.isEmpty then readQuoted? cs else some (bare, cs.drop bare.length)

/-- Reads a value. -/
def readValue? (cs : List Char) : Option (Value × List Char) :=
  let text (read : Option (List Char × List Char)) : Option (Value × List Char) :=
    read.map fun (s, rest) => (.text (String.ofList s), rest)
  match cs with
  | '"' :: '"' :: '"' :: rest => text (readBlock? '"' true rest)
  | '\'' :: '\'' :: '\'' :: rest => text (readBlock? '\'' false rest)
  | '"' :: _ | '\'' :: _ => text (readQuoted? cs)
  | cs => do
    let word := cs.takeWhile fun c => isKeyChar c || c = '+'
    let i ← integer? word
    if fits64 i then return (.integer i, cs.drop word.length) else none

/-- What is left behind the rest of a line, which holds at most a comment. -/
def endLine? (cs : List Char) : Option (List Char) :=
  let cs := cs.dropWhile isSpace
  let cs := if cs.head? = some '#' then cs.dropWhile isPlain else cs
  if cs.isEmpty then some [] else lineEnd? cs

/-- Reads a key, a value and the rest of the line. -/
def readEntry? (cs : List Char) : Option ((String × Value) × List Char) := do
  let (key, cs) ← readKey? cs
  match cs.dropWhile isSpace with
  | '=' :: cs => do
    let (value, cs) ← readValue? (cs.dropWhile isSpace)
    return ((String.ofList key, value), ← endLine? cs)
  | _ => none

/-- Reads lines up to the end of the file, at most so many, behind the entries `done`, last
one first. -/
def readFor? : Nat → List (String × Value) → List Char → Option (List (String × Value))
  | 0, _, _ => none
  | fuel + 1, done, cs =>
    match cs.dropWhile isSpace with
    | [] => some done.reverse
    | cs =>
      match endLine? cs with
      | some rest => readFor? fuel done rest
      | none => do
        let (entry, rest) ← readEntry? cs
        if done.any (·.1 = entry.1) then none
        readFor? fuel (entry :: done) rest

/-- The keys and values of a file, in order. A byte order mark at its start does not count. -/
def parse? (file : String) : Option (List (String × Value)) :=
  let cs := file.toList
  let cs := if cs.head? = some '\ufeff' then cs.drop 1 else cs
  readFor? (cs.length + 1) [] cs

end ClassLoom.Toml
