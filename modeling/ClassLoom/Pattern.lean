import ClassLoom.Text.Blank
import ClassLoom.Text.Digit
import ClassLoom.Text.Word

/-!
# Text patterns

Regular expressions over characters with assertions about the characters around a place.
Whether a pattern occurs in a text is decided by partial derivatives: `Pattern.after` gives
the patterns of which one must match the rest of the text once a character has been read, and
`Pattern.matchesEmpty` tells whether a pattern is done at a place. Both look at the
characters before and behind the place, which is all that an assertion can ask about.
-/

namespace ClassLoom

/-! ## Sets of characters -/

/-- A set of characters. -/
inductive CharSet where
  | empty
  /-- Code points from `first` to `last`. -/
  | range (first last : Nat)
  /-- Decimal digits of all scripts. -/
  | digit
  /-- Word characters of all scripts. -/
  | word
  /-- White space. -/
  | blank
  | union (a b : CharSet)
  | inter (a b : CharSet)
  | complement (a : CharSet)
  /-- All characters that differ from one in the set at most in case. -/
  | anyCase (a : CharSet)
  deriving DecidableEq, Repr

namespace CharSet

/-- The set of one character. -/
def single (c : Char) : CharSet := range c.toNat c.toNat

/-- The union of sets. -/
def unionAll (sets : List CharSet) : CharSet := sets.foldr union empty

/-- The characters that differ from `c` at most in case. Letters outside of ASCII have no
other case than their own, except for the two that fold to ASCII letters. -/
def caseVariants (c : Char) : List Char :=
  if c = 'k' || c = 'K' || c = '\u212a' then ['k', 'K', '\u212a']
  else if c = 's' || c = 'S' || c = '\u017f' then ['s', 'S', '\u017f']
  else [c, c.toLower, c.toUpper]

/-- Whether a character is in the set. -/
def contains : CharSet → Char → Bool
  | empty, _ => false
  | range first last, c => first ≤ c.toNat && c.toNat ≤ last
  | digit, c => Text.isDigit c
  | word, c => Text.isWord c
  | blank, c => Text.isBlank c
  | union a b, c => a.contains c || b.contains c
  | inter a b, c => a.contains c && b.contains c
  | complement a, c => !a.contains c
  | anyCase a, c => (caseVariants c).any a.contains

end CharSet

/-! ## Assertions

An assertion holds at a place between two characters, of which one is missing at the ends of the
text. -/

/-- What can be asserted about a place in a text. -/
inductive Assertion where
  | textStart
  | textEnd
  /-- A line starts here; `crlf` tells whether a carriage return ends lines too, alone or in
  front of a line feed. -/
  | lineStart (crlf : Bool)
  | lineEnd (crlf : Bool)
  /-- Exactly one of the characters around the place is a word character; in ASCII, or at all. -/
  | wordEdge (ascii : Bool)
  | noWordEdge (ascii : Bool)
  | wordStart (ascii : Bool)
  | wordEnd (ascii : Bool)
  | noWordBefore (ascii : Bool)
  | noWordBehind (ascii : Bool)
  deriving DecidableEq, Repr

namespace Assertion

/-- Whether there is a character, and it is a word character. -/
def isWord (ascii : Bool) (c : Option Char) : Bool :=
  match c with
  | none => false
  | some c => if ascii then c.isAlphanum || c = '_' else Text.isWord c

/-- Whether the assertion holds between two characters; at the ends of the text there is
none. -/
def holds (before behind : Option Char) : Assertion → Bool
  | textStart => before.isNone
  | textEnd => behind.isNone
  | lineStart crlf =>
    before.isNone || before = some '\n' || (crlf && before = some '\r' && behind ≠ some '\n')
  | lineEnd crlf =>
    behind.isNone || (crlf && behind = some '\r')
      || (behind = some '\n' && !(crlf && before = some '\r'))
  | wordEdge ascii => isWord ascii before != isWord ascii behind
  | noWordEdge ascii => isWord ascii before == isWord ascii behind
  | wordStart ascii => !isWord ascii before && isWord ascii behind
  | wordEnd ascii => isWord ascii before && !isWord ascii behind
  | noWordBefore ascii => !isWord ascii before
  | noWordBehind ascii => !isWord ascii behind

end Assertion

/-! ## Patterns

Matching goes along the text once. After each character it keeps the patterns of which one has to
match the rest; there are finitely many of them for every pattern. -/

/-- A regular expression. -/
inductive Pattern where
  /-- The empty text. -/
  | empty
  | oneOf (set : CharSet)
  | assertion (a : Assertion)
  | seq (a b : Pattern)
  | alt (a b : Pattern)
  | star (a : Pattern)
  deriving DecidableEq, Repr

namespace Pattern

/-- Whether the pattern matches the empty text between two characters. -/
def matchesEmpty (before behind : Option Char) : Pattern → Bool
  | empty => true
  | oneOf _ => false
  | assertion a => a.holds before behind
  | seq a b => matchesEmpty before behind a && matchesEmpty before behind b
  | alt a b => matchesEmpty before behind a || matchesEmpty before behind b
  | star _ => true

/-- One pattern behind another. -/
def andThen (a b : Pattern) : Pattern := if a = empty then b else seq a b

/-- The patterns of which one must match what comes behind `c`, where `before` is the
character before it. -/
def after (before : Option Char) (c : Char) : Pattern → List Pattern
  | empty => []
  | oneOf set => if set.contains c then [empty] else []
  | assertion _ => []
  | seq a b =>
    -- Where the first part can be done already, the character may belong to the second.
    let rest := (after before c a).map (andThen · b)
    if matchesEmpty before (some c) a then rest ++ after before c b else rest
  | alt a b => after before c a ++ after before c b
  | star a => (after before c a).map (andThen · (star a))

/-- Whether, behind the character `before`, one of the patterns `begun` matches some start of
the text, or `p` matches somewhere in it. -/
def occursFrom (p : Pattern) (begun : List Pattern) (before : Option Char) : List Char → Bool
  | [] => (p :: begun).any (matchesEmpty before none)
  | c :: rest =>
    (p :: begun).any (matchesEmpty before (some c))
      || occursFrom p ((p :: begun).flatMap (after before c)).eraseDups (some c) rest

/-- Whether the pattern matches some part of a text. -/
def occursIn (p : Pattern) (s : String) : Bool := occursFrom p [] none s.toList

/-! ## Repetition

Bounded repetition is written out as copies, so its bounds count towards the size. -/

/-- Patterns in a row. -/
def seqAll (ps : List Pattern) : Pattern := ps.foldr andThen empty

/-- So many copies in a row. -/
def copies (p : Pattern) : Nat → Pattern
  | 0 => empty
  | n + 1 => andThen p (copies p n)

/-- Up to so many copies in a row. -/
def upTo (p : Pattern) : Nat → Pattern
  | 0 => empty
  | n + 1 => alt empty (andThen p (upTo p n))

/-- The number of places in a pattern. -/
def size : Pattern → Nat
  | empty => 1
  | oneOf _ => 1
  | assertion _ => 1
  | seq a b => a.size + b.size
  | alt a b => a.size + b.size
  | star a => a.size

/-- The size from which on a pattern is refused. -/
def sizeLimit : Nat := 300000

/-- At least `low` and, if there is a bound, at most `high` copies in a row. -/
def repeated (p : Pattern) (low : Nat) (high : Option Nat) : Pattern :=
  match high with
  | none => andThen (copies p low) (star p)
  | some high => andThen (copies p low) (upTo p (high - low))

end Pattern
end ClassLoom
