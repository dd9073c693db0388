import ClassLoom.Pattern.Flags

/-!
# Bracketed sets

The sets of characters that a pattern text gives in square brackets: characters, ranges, class
letters, sets with names, further brackets, and the operators between them, which all bind
alike and from the left.
-/

namespace ClassLoom.Pattern.Bracketed

/-! ## Sets with names -/

/-- The sets with names in brackets and colons, all in ASCII. -/
def named? (name : String) : Option CharSet :=
  match name with
  | "alnum" => some (Escape.asciiSet [('0', '9'), ('A', 'Z'), ('a', 'z')])
  | "alpha" => some (Escape.asciiSet [('A', 'Z'), ('a', 'z')])
  | "ascii" => some (.range 0 127)
  | "blank" => some (Escape.asciiSet [('\t', '\t'), (' ', ' ')])
  | "cntrl" => some (.union (.range 0 31) (.single '\x7f'))
  | "digit" => some (Escape.asciiSet [('0', '9')])
  | "graph" => some (Escape.asciiSet [('!', '~')])
  | "lower" => some (Escape.asciiSet [('a', 'z')])
  | "print" => some (Escape.asciiSet [(' ', '~')])
  | "punct" => some (Escape.asciiSet [('!', '/'), (':', '@'), ('[', '\x60'), ('\x7b', '~')])
  | "space" => some Escape.asciiBlank
  | "upper" => some (Escape.asciiSet [('A', 'Z')])
  | "word" => some Escape.asciiWord
  | "xdigit" => some (Escape.asciiSet [('0', '9'), ('A', 'F'), ('a', 'f')])
  | _ => none

/-- Reads a set with a name, or its complement, behind the opening bracket. -/
def readNamed? (flags : Flags) : List Char → Option (CharSet × List Char)
  | ':' :: rest =>
    let negated := rest.head? = some '^'
    let rest := if negated then rest.drop 1 else rest
    let name := rest.takeWhile (· ≠ ':')
    match rest.drop name.length with
    | ':' :: ']' :: rest => do
      let s ← named? (String.ofList name)
      return (← if negated then flags.complement? s else some s, rest)
    | _ => none
  | _ => none

/-! ## Operators

An operator takes all that stands on its left as one set. The set on its right goes up to the next
operator or to the closing bracket. -/

/-- An operator between two parts of a set. -/
inductive Operator where
  | inter
  | difference
  | symmetric

/-- The operator that a text starts with. -/
def operator? : List Char → Option (Operator × List Char)
  | '&' :: '&' :: rest => some (.inter, rest)
  | '-' :: '-' :: rest => some (.difference, rest)
  | '~' :: '~' :: rest => some (.symmetric, rest)
  | _ => none

/-- Combines two parts of a set. -/
def Operator.apply (op : Operator) (a b : CharSet) : CharSet :=
  match op with
  | .inter => .inter a b
  | .difference => .inter a (.complement b)
  | .symmetric => .union (.inter a (.complement b)) (.inter b (.complement a))

/-- A part of a set behind what is on the left of it. -/
def combine (left : Option (CharSet × Operator)) (right : CharSet) : CharSet :=
  match left with
  | none => right
  | some (a, op) => op.apply a right

/-! ## Items and ranges

A hyphen between two characters makes a range of them, unless the set ends behind it. -/

/-- Reads a single character or an escape. -/
def readItem? (flags : Flags) : List Char → Option (Escape × List Char)
  | '\\' :: rest => Escape.read? flags rest
  | c :: rest => some (.char c, rest)
  | [] => none

/-- The set of a single item; assertions are no items of a set. -/
def itemSet? : Escape → Option CharSet
  | .char c => some (.single c)
  | .set s => some s
  | .assertion _ => none

/-- The range between two items, which must be characters in order. -/
def rangeSet? : Escape → Escape → Option CharSet
  | .char a, .char b => if a ≤ b then some (.range a.toNat b.toNat) else none
  | _, _ => none

/-- What stands behind a hyphen that makes a range: neither the end of the set nor a second
hyphen. -/
def behindHyphen? (flags : Flags) : List Char → Option (List Char)
  | '-' :: rest =>
    match flags.skip rest with
    | [] => some []
    | c :: rest => if c = ']' || c = '-' then none else some (c :: rest)
  | _ => none

/-- Reads an item or a range. -/
def readRange? (flags : Flags) (cs : List Char) : Option (CharSet × List Char) := do
  let (first, rest) ← readItem? flags cs
  let rest := flags.skip rest
  match behindHyphen? flags rest with
  | none => return (← itemSet? first, rest)
  | some behind =>
    let (last, rest) ← readItem? flags behind
    return (← rangeSet? first last, rest)

/-- Reads the hyphens, or the one closing bracket, that stand for themselves at the start. -/
def readLeading (flags : Flags) (cs : List Char) : CharSet × List Char :=
  match cs with
  | '-' :: rest =>
    (.single '-', rest.dropWhile fun c => c = '-' || (flags.verbose && Text.isBlank c))
  | ']' :: rest => (.single ']', rest)
  | cs => (.empty, cs)

mutual

/-- Reads a set behind its opening bracket. `fuel` bounds the number of its parts. -/
def read? (flags : Flags) (fuel : Nat) (cs : List Char) : Option (CharSet × List Char) :=
  match fuel with
  | 0 => none
  | fuel + 1 => do
    let cs := flags.skip cs
    let negated := cs.head? = some '^'
    let cs := if negated then flags.skip (cs.drop 1) else cs
    let (start, cs) := readLeading flags cs
    let (s, rest) ← readParts? flags fuel none start cs
    let s := flags.fold s
    return (← if negated then flags.complement? s else some s, rest)

/-- Reads the parts up to the closing bracket, behind those in `current`. -/
def readParts? (flags : Flags) (fuel : Nat) (left : Option (CharSet × Operator))
    (current : CharSet) (cs : List Char) : Option (CharSet × List Char) :=
  match fuel with
  | 0 => none
  | fuel + 1 =>
    match flags.skip cs with
    | [] => none
    | ']' :: rest => some (combine left (flags.fold current), rest)
    | '[' :: rest => do
      let (s, rest) ← readNamed? flags rest <|> read? flags fuel rest
      readParts? flags fuel left (.union current s) rest
    | cs =>
      match operator? cs with
      | some (op, rest) =>
        readParts? flags fuel (some (combine left (flags.fold current), op)) .empty rest
      | none => do
        let (s, rest) ← readRange? flags cs
        readParts? flags fuel left (.union current s) rest

end

end ClassLoom.Pattern.Bracketed
