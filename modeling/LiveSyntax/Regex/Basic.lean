import LiveSyntax.Text.Blank
import LiveSyntax.Text.CaseFold
import LiveSyntax.Text.Letter

/-!
# Regular expressions

The expressions and the search for a match. Only whether a text has a match is asked, so an expression is run on sets
of places: from the places at which a match may have arrived, it leads to those at which it may go on. A text of `n`
characters has `n + 1` places, and a set of places is a list of as many truth values.

## Design notes

An expression that repeats without a bound is followed until no new place is reached, which takes at most as many
rounds as there are places.
-/

namespace LiveSyntax

inductive CharSet where
  /-- The code points from `low` to `high`. -/
  | range (low high : Nat)
  | table (codes : CharTable)
  | union (a b : CharSet)
  | inter (a b : CharSet)
  | compl (a : CharSet)
  /-- The code points with a case variant in a set. -/
  | folded (a : CharSet)
  deriving Repr

namespace CharSet

def none : CharSet := .table []

def ascii : CharSet := .range 0 0x7F

def single (c : Char) : CharSet := .range c.toNat c.toNat

def digit : CharSet := .table CharTable.decimalDigit

def blank : CharSet := .table CharTable.blank

def word : CharSet := .union (.table CharTable.alphabetic) (.table CharTable.wordExtra)

def diff (a b : CharSet) : CharSet := .inter a (.compl b)

def symmDiff (a b : CharSet) : CharSet := .union (a.diff b) (b.diff a)

def has : CharSet → Nat → Bool
  | .range low high, n => decide (low ≤ n ∧ n ≤ high)
  | .table codes, n => codes.hasCode n
  | .union a b, n => a.has n || b.has n
  | .inter a b, n => a.has n && b.has n
  | .compl a, n => !a.has n
  | .folded a, n => (CaseFold.variants n).any fun m => a.has m

end CharSet

inductive Anchor where
  | textStart
  | textEnd
  | lineStart
  | lineEnd
  /-- A line starts, where also a carriage return, or one with a line feed, ends a line. -/
  | lineStartAny
  /-- A line ends, where also a carriage return, or one with a line feed, ends a line. -/
  | lineEndAny
  | wordEdge (unicode : Bool)
  | noWordEdge (unicode : Bool)
  | wordStart (unicode : Bool)
  | wordEnd (unicode : Bool)
  /-- No word character comes before. -/
  | wordStartHalf (unicode : Bool)
  /-- No word character comes after. -/
  | wordEndHalf (unicode : Bool)
  deriving DecidableEq, Repr

inductive Regex where
  | empty
  | set (chars : CharSet)
  /-- The empty text, where a condition holds. -/
  | anchor (condition : Anchor)
  | seq (first second : Regex)
  | alt (left right : Regex)
  /-- An expression at least `least` times, and at most `most` times if there is a bound. -/
  | times (body : Regex) (least : Nat) (most : Option Nat)
  | capture (body : Regex)
  deriving Repr

namespace Regex

/-- A place of a text, by the characters on both sides. -/
abbrev Place := Option Char × Option Char

def inWord (unicode : Bool) : Option Char → Bool
  | none => false
  | some c => isWordChar c && (unicode || decide (c.toNat ≤ 0x7F))

def holds (condition : Anchor) (place : Place) : Bool :=
  let (before, after) := place
  match condition with
  | .textStart => before.isNone
  | .textEnd => after.isNone
  | .lineStart => before.isNone || before == some '\n'
  | .lineEnd => after.isNone || after == some '\n'
  | .lineStartAny => before.isNone || before == some '\n' || (before == some '\r' && after != some '\n')
  | .lineEndAny => after.isNone || after == some '\r' || (after == some '\n' && before != some '\r')
  | .wordEdge unicode => inWord unicode before != inWord unicode after
  | .noWordEdge unicode => inWord unicode before == inWord unicode after
  | .wordStart unicode => !inWord unicode before && inWord unicode after
  | .wordEnd unicode => inWord unicode before && !inWord unicode after
  | .wordStartHalf unicode => !inWord unicode before
  | .wordEndHalf unicode => !inWord unicode after

def placesFrom (before : Option Char) : Text → List Place
  | [] => [(before, none)]
  | c :: rest => (before, some c) :: placesFrom (some c) rest

/-- The places of a text, from before its first character to after its last. -/
def places (text : Text) : List Place :=
  placesFrom none text

abbrev PlaceSet := List Bool

def either (a b : PlaceSet) : PlaceSet :=
  List.zipWith (· || ·) a b

/-- Does `move` as often as `count` says, or until a round changes nothing. -/
def iterate (move : PlaceSet → PlaceSet) : (count : Nat) → PlaceSet → PlaceSet
  | 0, here => here
  | count + 1, here =>
    let next := move here
    if next == here then here else iterate move count next

/-- From the places before an expression to those after it. -/
def advance (text : Text) : Regex → PlaceSet → PlaceSet
  | .empty, here => here
  | .set chars, here => false :: List.zipWith (fun arrived c => arrived && chars.has c.toNat) here text
  | .anchor condition, here => List.zipWith (fun arrived place => arrived && holds condition place) here (places text)
  | .seq first second, here => second.advance text (first.advance text here)
  | .alt left right, here => either (left.advance text here) (right.advance text here)
  | .times body least most, here =>
    let required := iterate (fun now => body.advance text now) least here
    let further := match most with
      | none => text.length + 1
      | some most => most - least
    iterate (fun now => either now (body.advance text now)) further required
  | .capture body, here => body.advance text here

def isMatch (r : Regex) (text : Text) : Bool :=
  (r.advance text (List.replicate (text.length + 1) true)).any id

end Regex

end LiveSyntax
