import LiveSyntax.Regex.Escape

/-!
# Bracket expressions

The sets of characters between brackets: characters, ranges, escapes, named ASCII classes, brackets inside brackets, and
the set operations `&&`, `--` and `~~`, which all bind alike and from the left.

A hyphen at either end stands for itself, and so does a closing bracket that comes first. Where case does not matter,
each operand of an operation and each bracket takes in the case variants before it is inverted.
-/

namespace LiveSyntax.Regex

def asciiClass? : String → Option CharSet
  | "alnum" => some (.table [(0x30, 0x39), (0x41, 0x5A), (0x61, 0x7A)])
  | "alpha" => some (.table [(0x41, 0x5A), (0x61, 0x7A)])
  | "ascii" => some .ascii
  | "blank" => some (.table [(0x09, 0x09), (0x20, 0x20)])
  | "cntrl" => some (.table [(0x00, 0x1F), (0x7F, 0x7F)])
  | "digit" => some (.table [(0x30, 0x39)])
  | "graph" => some (.table [(0x21, 0x7E)])
  | "lower" => some (.table [(0x61, 0x7A)])
  | "print" => some (.table [(0x20, 0x7E)])
  | "punct" => some (.table [(0x21, 0x2F), (0x3A, 0x40), (0x5B, 0x60), (0x7B, 0x7E)])
  | "space" => some (.table [(0x09, 0x0D), (0x20, 0x20)])
  | "upper" => some (.table [(0x41, 0x5A)])
  | "word" => some (.table [(0x30, 0x39), (0x41, 0x5A), (0x5F, 0x5F), (0x61, 0x7A)])
  | "xdigit" => some (.table [(0x30, 0x39), (0x41, 0x46), (0x61, 0x66)])
  | _ => none

def readAsciiClass? (flags : Flags) : Text → Option (CharSet × Text)
  | ':' :: rest => do
    let negated := rest.head? == some '^'
    let body := if negated then rest.tail else rest
    let name := body.takeWhile (· != ':')
    match body.drop name.length with
    | ':' :: ']' :: after =>
      let chars ← asciiClass? (String.ofList name)
      if negated && !flags.unicode then failure
      return (if negated then .compl chars else chars, after)
    | _ => failure
  | _ => none

inductive SetOperation where
  | inter
  | diff
  | symmDiff
  deriving DecidableEq, Repr

structure Nested where
  chars : CharSet
  nesting : Nat
  deriving Repr

/-- A set that takes in the case variants of its members, if case does not matter. -/
def foldCase (flags : Flags) (chars : CharSet) : CharSet :=
  if flags.ignoreCase then
    if flags.unicode then .folded chars else .inter .ascii (.folded chars)
  else chars

/-- The union of the members read so far, the last one first. -/
def unionOf (members : List Nested) : Nested :=
  match members with
  | [] => ⟨.none, 0⟩
  | [only] => only
  | members =>
    ⟨members.foldr (fun m rest => .union rest m.chars) .none,
      members.foldl (fun depth m => max depth m.nesting) 0 + 1⟩

def SetOperation.apply (flags : Flags) (operation : SetOperation) (left right : Nested) : Nested :=
  let a := foldCase flags left.chars
  let b := foldCase flags right.chars
  let chars := match operation with
    | .inter => a.inter b
    | .diff => a.diff b
    | .symmDiff => a.symmDiff b
  ⟨chars, max left.nesting right.nesting + 1⟩

/-- The set up to here: the operation that waits for its right side, applied to the members after it. -/
def settle (flags : Flags) (waiting : Option (SetOperation × Nested)) (members : List Nested) : Nested :=
  match waiting with
  | none => unionOf members
  | some (operation, left) => operation.apply flags left (unionOf members)

def readBracketItem (flags : Flags) : Text → Option (Escaped × Text)
  | [] => none
  | '\\' :: rest => readEscape flags rest
  | c :: rest => some (.char c, rest)

/-- Whether a character may be a member: without Unicode, only ASCII. -/
def allowed (flags : Flags) (c : Char) : Bool :=
  flags.unicode || decide (c.toNat ≤ 0x7F)

def readBracketRange (flags : Flags) (text : Text) : Option (CharSet × Text) := do
  let (first, rest) ← readBracketItem flags text
  let rest := skipFree flags rest
  let isRange := match rest with
    | '-' :: after =>
      let next := (skipFree flags after).head?
      next != some ']' && next != some '-'
    | _ => false
  if rest.isEmpty then failure
  if isRange then
    let (last, after) ← readBracketItem flags (skipFree flags rest.tail)
    match first, last with
    | .char low, .char high =>
      if high.toNat < low.toNat || !allowed flags high then failure
      return (.range low.toNat high.toNat, after)
    | _, _ => failure
  else
    match first with
    | .char c =>
      if !allowed flags c then failure
      return (.single c, rest)
    | .set chars => return (chars, rest)
    | .anchor _ => failure

/-- The hyphens at the head of a bracket, which stand for themselves. -/
def readHyphensUpTo (flags : Flags) : (fuel : Nat) → Text → List Nested × Text
  | 0, text => ([], text)
  | fuel + 1, text =>
    match skipFree flags text with
    | '-' :: rest =>
      let (more, after) := readHyphensUpTo flags fuel rest
      (more ++ [⟨.single '-', 0⟩], after)
    | text => ([], text)

/-- What stands for itself only at the head of a bracket: hyphens, or one closing bracket. -/
def readBracketHead (flags : Flags) (text : Text) : List Nested × Text :=
  match readHyphensUpTo flags text.length text with
  | ([], ']' :: rest) => ([⟨.single ']', 0⟩], rest)
  | found => found

mutual

def readBracket (flags : Flags) : (fuel : Nat) → Text → Option (Nested × Text)
  | 0, _ => none
  | fuel + 1, text => do
    let text := skipFree flags text
    let negated := text.head? == some '^'
    let (head, rest) := readBracketHead flags (if negated then skipFree flags text.tail else text)
    let (inner, after) ← readMembers flags fuel none head rest
    let chars := foldCase flags inner.chars
    if negated && !flags.unicode then failure
    return (⟨if negated then .compl chars else chars, inner.nesting + 1⟩, after)

/-- The members of a bracket up to its closing bracket; `members` holds those since the last operation. -/
def readMembers (flags : Flags) : (fuel : Nat) → Option (SetOperation × Nested) → List Nested → Text →
    Option (Nested × Text)
  | 0, _, _, _ => none
  | fuel + 1, waiting, members, text =>
    match skipFree flags text with
    | [] => none
    | ']' :: rest => some (settle flags waiting members, rest)
    | '&' :: '&' :: rest => readMembers flags fuel (some (.inter, settle flags waiting members)) [] rest
    | '-' :: '-' :: rest => readMembers flags fuel (some (.diff, settle flags waiting members)) [] rest
    | '~' :: '~' :: rest => readMembers flags fuel (some (.symmDiff, settle flags waiting members)) [] rest
    | '[' :: rest =>
      match readAsciiClass? flags rest with
      | some (chars, after) => readMembers flags fuel waiting (⟨chars, 0⟩ :: members) after
      | none => do
        let (inner, after) ← readBracket flags fuel rest
        readMembers flags fuel waiting (inner :: members) after
    | text => do
      let (chars, after) ← readBracketRange flags text
      readMembers flags fuel waiting (⟨chars, 0⟩ :: members) after

end

end LiveSyntax.Regex
