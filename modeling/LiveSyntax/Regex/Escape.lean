import LiveSyntax.Regex.Basic

/-!
# Escapes of the pattern language

What a backslash means: a character that would else be an operator, a control character, a code point by number, a
class of characters, or a condition on a place. A letter or digit without a meaning is refused.
-/

namespace LiveSyntax.Regex

structure Flags where
  /-- Case does not matter. -/
  ignoreCase : Bool
  /-- The line anchors hold at every line. -/
  multiLine : Bool
  /-- The dot is any character. -/
  dotAll : Bool
  /-- Repetitions are lazy unless marked; which match is found does not matter here. -/
  swapGreed : Bool
  /-- Classes and word edges follow Unicode. -/
  unicode : Bool
  /-- Blanks and comments are skipped. -/
  skipBlanks : Bool
  /-- Also a carriage return ends a line. -/
  anyLineEnd : Bool
  deriving DecidableEq, Repr

def Flags.start : Flags :=
  { ignoreCase := false, multiLine := false, dotAll := false, swapGreed := false, unicode := true
    skipBlanks := false, anyLineEnd := false }

def skipLine : Text → Text
  | [] => []
  | c :: rest => if c = '\n' then rest else skipLine rest

/-- Skips blanks and comments, which run from a number sign to the end of the line. -/
def skipBlanksUpTo : (fuel : Nat) → Text → Text
  | 0, text => text
  | _, [] => []
  | fuel + 1, c :: rest =>
    if isBlank c then skipBlanksUpTo fuel rest
    else if c = '#' then skipBlanksUpTo fuel (skipLine rest)
    else c :: rest

def skipFree (flags : Flags) (text : Text) : Text :=
  if flags.skipBlanks then skipBlanksUpTo text.length text else text

inductive Escaped where
  | char (c : Char)
  | set (chars : CharSet)
  | anchor (condition : Anchor)
  deriving Repr

def operators : List Char :=
  ['\\', '.', '+', '*', '?', '(', ')', '|', '[', ']', '\x7b', '\x7d', '^', '$', '#', '&', '-', '~']

/-- Whether a backslash before a character makes it stand for itself: every operator, and every ASCII character but
letters, digits and angle brackets. -/
def isEscapable (c : Char) : Bool :=
  operators.contains c || (decide (c.toNat ≤ 0x7F) && !c.isAlphanum && c != '<' && c != '>')

def hexValue? (c : Char) : Option Nat :=
  if '0' ≤ c ∧ c ≤ '9' then some (c.toNat - '0'.toNat)
  else if 'a' ≤ c ∧ c ≤ 'f' then some (c.toNat - 'a'.toNat + 10)
  else if 'A' ≤ c ∧ c ≤ 'F' then some (c.toNat - 'A'.toNat + 10)
  else none

/-- The number that hexadecimal digits spell; none without a digit. -/
def hexNumber? (digits : List Char) : Option Nat :=
  if digits.isEmpty then none
  else digits.foldlM (fun n c => (hexValue? c).map (n * 16 + ·)) 0

def charOfCode? (n : Nat) : Option Char :=
  if h : n.isValidChar then some (Char.ofNatAux n h) else none

/-- A code point by exactly `count` digits, or by any number of digits in braces. -/
def readCode (flags : Flags) (count : Nat) (text : Text) : Option (Char × Text) :=
  match skipFree flags text with
  | '\x7b' :: rest => do
    let digits := rest.takeWhile (· != '\x7d')
    let after := rest.dropWhile (· != '\x7d')
    if after.isEmpty then failure
    let c ← hexNumber? (digits.filter fun c => !(flags.skipBlanks && isBlank c)) >>= charOfCode?
    return (c, after.tail)
  | text => do
    let digits := text.take count
    if digits.length < count then failure
    let c ← hexNumber? digits >>= charOfCode?
    return (c, text.drop count)

/-- A class by its letter. Without Unicode it is limited to ASCII, and its complement, which would take parts of
characters, is refused. -/
def letterClass? (flags : Flags) (chars : CharSet) (negated : Bool) : Option CharSet :=
  if flags.unicode then some (if negated then .compl chars else chars)
  else if negated then none
  else some (.inter .ascii chars)

/-- The spelling of a property name that does not matter: case, blanks, hyphens and underscores. -/
def looseName (name : Text) : String :=
  String.ofList ((name.filter fun c => c != '_' && c != '-' && !isBlank c).map Char.toLower)

def property? (name : Text) : Option CharSet :=
  match looseName name with
  | "any" => some (.range 0 0x10FFFF)
  | "ascii" => some .ascii
  | "alphabetic" | "alpha" => some (.table CharTable.alphabetic)
  | "whitespace" | "wspace" | "space" => some .blank
  | "nd" | "decimalnumber" | "digit" => some .digit
  | "n" | "number" => some (.table CharTable.numeric)
  | _ => none

/-- A class by a property: one letter, or a name in braces. -/
def readProperty (flags : Flags) (negated : Bool) (text : Text) : Option (CharSet × Text) := do
  if !flags.unicode then failure
  let (name, rest) ← match skipFree flags text with
    | [] => none
    | '\x7b' :: rest =>
      let after := rest.dropWhile (· != '\x7d')
      if after.isEmpty then none else some (rest.takeWhile (· != '\x7d'), after.tail)
    | c :: rest => if c = '\\' then none else some ([c], rest)
  let inverted := name.head? == some '^'
  let chars ← property? (if inverted then name.tail else name)
  return (if negated != inverted then .compl chars else chars, rest)

/-- The condition that a name in braces gives a word edge. -/
def wordAnchor? (unicode : Bool) : String → Option Anchor
  | "start" => some (.wordStart unicode)
  | "end" => some (.wordEnd unicode)
  | "start-half" => some (.wordStartHalf unicode)
  | "end-half" => some (.wordEndHalf unicode)
  | _ => none

/-- A word edge, with what may stand in braces after it. Braces that do not start with a letter or hyphen are left
alone. -/
def readWordEdge (flags : Flags) (text : Text) : Option (Anchor × Text) :=
  match text with
  | '\x7b' :: rest =>
    match skipFree flags rest with
    | [] => none
    | c :: inner =>
      if c.isAlpha || c == '-' then do
        let name := (c :: inner).takeWhile fun c => c.isAlpha || c == '-'
        match skipFree flags ((c :: inner).drop name.length) with
        | '\x7d' :: after =>
          let condition ← wordAnchor? flags.unicode (String.ofList name)
          return (condition, after)
        | _ => failure
      else some (.wordEdge flags.unicode, text)
  | _ => some (.wordEdge flags.unicode, text)

def readEscape (flags : Flags) : Text → Option (Escaped × Text)
  | [] => none
  | c :: rest =>
    if c.isDigit then none
    else match c with
      | 'x' => (readCode flags 2 rest).bind fun (found, after) =>
        if !flags.unicode && decide (0x7F < found.toNat) then none else some (.char found, after)
      | 'u' => (readCode flags 4 rest).map fun (found, after) => (.char found, after)
      | 'U' => (readCode flags 8 rest).map fun (found, after) => (.char found, after)
      | 'p' => (readProperty flags false rest).map fun (chars, after) => (.set chars, after)
      | 'P' => (readProperty flags true rest).map fun (chars, after) => (.set chars, after)
      | 'd' => (letterClass? flags .digit false).map fun chars => (.set chars, rest)
      | 'D' => (letterClass? flags .digit true).map fun chars => (.set chars, rest)
      | 's' => (letterClass? flags .blank false).map fun chars => (.set chars, rest)
      | 'S' => (letterClass? flags .blank true).map fun chars => (.set chars, rest)
      | 'w' => (letterClass? flags .word false).map fun chars => (.set chars, rest)
      | 'W' => (letterClass? flags .word true).map fun chars => (.set chars, rest)
      | 'a' => some (.char '\x07', rest)
      | 'f' => some (.char '\x0c', rest)
      | 't' => some (.char '\t', rest)
      | 'n' => some (.char '\n', rest)
      | 'r' => some (.char '\r', rest)
      | 'v' => some (.char '\x0b', rest)
      | 'A' => some (.anchor .textStart, rest)
      | 'z' => some (.anchor .textEnd, rest)
      | 'b' => (readWordEdge flags rest).map fun (condition, after) => (.anchor condition, after)
      | 'B' => some (.anchor (.noWordEdge flags.unicode), rest)
      | '<' => some (.anchor (.wordStart flags.unicode), rest)
      | '>' => some (.anchor (.wordEnd flags.unicode), rest)
      | _ => if isEscapable c then some (.char c, rest) else none

end LiveSyntax.Regex
