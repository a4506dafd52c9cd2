import LiveSyntax.Regex.Bracket

/-!
# Reading patterns

A pattern is read from left to right. The reader keeps the branches of the group at hand and those of the groups around
it; a closing parenthesis turns the former into one item of the latter. Flags hold from where they are set to the end of
the group, over the bars between branches.

A pattern is refused if it is not well formed, if its expressions nest too deeply, or if it would grow too large once
its bounded repetitions are written out.
-/

namespace LiveSyntax.Regex

structure Item where
  regex : Regex
  /-- Whether it may be repeated. Flags and conditions on a place may not. -/
  repeatable : Bool
  nesting : Nat
  deriving Repr

/-- The items of the group at hand: its finished branches and the one being read, each with the last item first. -/
structure Group where
  branches : List Item
  items : List Item
  deriving Repr

def Group.start : Group := ⟨[], []⟩

def joinItems (items : List Item) : Item :=
  match items with
  | [] => ⟨.empty, true, 0⟩
  | [only] => only
  | items =>
    ⟨items.foldl (fun rest item => .seq item.regex rest) .empty, true,
      items.foldl (fun depth item => max depth item.nesting) 0 + 1⟩

/-- One item out of the branches of a group, the last branch first. -/
def joinBranches (last : Item) (earlier : List Item) : Item :=
  match earlier with
  | [] => last
  | earlier =>
    ⟨earlier.foldl (fun rest item => .alt item.regex rest) last.regex, true,
      (last :: earlier).foldl (fun depth item => max depth item.nesting) 0 + 1⟩

def Group.close (g : Group) : Item :=
  joinBranches (joinItems g.items) g.branches

def Group.push (g : Group) (item : Item) : Group :=
  { g with items := item :: g.items }

/-- A group around the one at hand. -/
structure Frame where
  group : Group
  flags : Flags
  captured : Bool
  deriving Repr

structure Reader where
  group : Group
  /-- The groups around it, innermost first. -/
  frames : List Frame
  flags : Flags
  names : List Text
  deriving Repr

namespace Reader

def start : Reader :=
  { group := .start, frames := [], flags := .start, names := [] }

def push (r : Reader) (item : Item) : Reader :=
  { r with group := r.group.push item }

/-- A literal character, with its case variants if case does not matter. -/
def pushChar (r : Reader) (c : Char) : Reader :=
  let chars := if c.toNat ≤ 0x7F ∨ r.flags.unicode then foldCase r.flags (.single c) else .single c
  r.push ⟨.set chars, true, 0⟩

def pushAnchor (r : Reader) (condition : Anchor) : Reader :=
  r.push ⟨.anchor condition, false, 0⟩

/-- The dot: any character, or any that does not end a line. -/
def pushDot? (r : Reader) : Option Reader :=
  if !r.flags.unicode then none
  else
    let chars : CharSet :=
      if r.flags.dotAll then .range 0 0x10FFFF
      else if r.flags.anyLineEnd then .compl (.union (.single '\n') (.single '\r'))
      else .compl (.single '\n')
    some (r.push ⟨.set chars, true, 0⟩)

def caretAnchor (flags : Flags) : Anchor :=
  if flags.multiLine then if flags.anyLineEnd then .lineStartAny else .lineStart else .textStart

def dollarAnchor (flags : Flags) : Anchor :=
  if flags.multiLine then if flags.anyLineEnd then .lineEndAny else .lineEnd else .textEnd

def repeatLast? (r : Reader) (least : Nat) (most : Option Nat) : Option Reader :=
  match r.group.items with
  | [] => none
  | last :: earlier =>
    if last.repeatable then
      some { r with group :=
        { r.group with items := ⟨.times last.regex least most, true, last.nesting + 1⟩ :: earlier } }
    else none

def nextBranch (r : Reader) : Reader :=
  { r with group := { branches := joinItems r.group.items :: r.group.branches, items := [] } }

def openGroup (r : Reader) (captured : Bool) (flags : Flags) : Reader :=
  { r with
    group := .start
    frames := { group := r.group, flags := r.flags, captured } :: r.frames
    flags }

def closeGroup? (r : Reader) : Option Reader :=
  match r.frames with
  | [] => none
  | frame :: outer =>
    let body := r.group.close
    let item : Item := ⟨if frame.captured then .capture body.regex else body.regex, true, body.nesting + 1⟩
    some { r with group := frame.group.push item, frames := outer, flags := frame.flags }

end Reader

/-- Drops the question mark that makes a repetition lazy. -/
def dropLazy : Text → Text
  | '?' :: rest => rest
  | text => text

/-- The greatest count of a repetition, one below two to the thirty-second. -/
def greatestCount : Nat := 4294967295

def decimal (digits : List Char) : Nat :=
  digits.foldl (fun n c => n * 10 + (c.toNat - '0'.toNat)) 0

/-- A count, with blanks around it: none if there are no digits. -/
def readCount (text : Text) : Option Nat × Text :=
  let text := text.dropWhile isBlank
  let digits := text.takeWhile Char.isDigit
  let rest := (text.drop digits.length).dropWhile isBlank
  (if digits.isEmpty ∨ greatestCount < decimal digits then none else some (decimal digits), rest)

def readBounds (text : Text) : Option (Nat × Option Nat × Text) := do
  let (least, rest) := readCount text
  let least ← least
  match rest with
  | '\x7d' :: rest => return (least, some least, rest)
  | ',' :: rest =>
    match rest.dropWhile isBlank with
    | '\x7d' :: rest => return (least, none, rest)
    | rest =>
      let (most, rest) := readCount rest
      let most ← most
      match rest with
      | '\x7d' :: rest => if most < least then failure else return (least, some most, rest)
      | _ => failure
  | _ => failure

def Flags.set? (flags : Flags) (letter : Char) (value : Bool) : Option Flags :=
  match letter with
  | 'i' => some { flags with ignoreCase := value }
  | 'm' => some { flags with multiLine := value }
  | 's' => some { flags with dotAll := value }
  | 'U' => some { flags with swapGreed := value }
  | 'u' => some { flags with unicode := value }
  | 'x' => some { flags with skipBlanks := value }
  | 'R' => some { flags with anyLineEnd := value }
  | _ => none

/-- The flags up to a colon or closing parenthesis, which is left. No letter comes twice, at most one minus sign comes,
and a letter follows it. -/
def readFlags (flags : Flags) (value : Bool) (seen : List Char) : Text → Option (Flags × Text)
  | [] => none
  | c :: rest =>
    if c = ':' ∨ c = ')' then
      if seen.head? = some '-' then none else some (flags, c :: rest)
    else if c = '-' then
      if value then readFlags flags false ('-' :: seen) rest else none
    else if seen.contains c then none
    else
      match flags.set? c value with
      | none => none
      | some changed => readFlags changed value (c :: seen) rest

def isNameChar (first : Bool) (c : Char) : Bool :=
  if first then c == '_' || isLetter c
  else c == '_' || c == '.' || c == '[' || c == ']' || isLetterOrNumber c

/-- The name of a group up to its closing angle bracket. -/
def readGroupName (text : Text) : Option (Text × Text) :=
  let name := text.takeWhile (· != '>')
  match name, text.drop name.length with
  | first :: others, '>' :: rest =>
    if isNameChar true first && others.all (isNameChar false) then some (name, rest) else none
  | _, _ => none

def readNamedGroup (r : Reader) (text : Text) : Option (Reader × Text) := do
  let (name, rest) ← readGroupName text
  if r.names.contains name then failure
  return ({ r.openGroup true r.flags with names := name :: r.names }, rest)

/-- What follows an opening parenthesis. Look-around is refused. -/
def readGroup (r : Reader) (text : Text) : Option (Reader × Text) :=
  match skipFree r.flags text with
  | '?' :: '=' :: _ => none
  | '?' :: '!' :: _ => none
  | '?' :: '<' :: '=' :: _ => none
  | '?' :: '<' :: '!' :: _ => none
  | '?' :: 'P' :: '<' :: rest => readNamedGroup r rest
  | '?' :: '<' :: rest => readNamedGroup r rest
  | '?' :: rest =>
    match readFlags r.flags true [] rest with
    | some (flags, ':' :: after) => some (r.openGroup false flags, after)
    | some (flags, ')' :: after) =>
      if rest.head? = some ')' then none
      else some ({ r with flags }.push ⟨.empty, false, 0⟩, after)
    | _ => none
  | rest => some (r.openGroup true r.flags, rest)

def Reader.step (r : Reader) : Text → Option (Reader × Text)
  | [] => some (r, [])
  | c :: rest =>
    match c with
    | '(' => readGroup r rest
    | ')' => r.closeGroup?.map (·, rest)
    | '|' => some (r.nextBranch, rest)
    | '[' =>
      (readBracket r.flags (rest.length + 1) rest).map fun (found, after) =>
        (r.push ⟨.set found.chars, true, found.nesting⟩, after)
    | '?' => (r.repeatLast? 0 (some 1)).map (·, dropLazy rest)
    | '*' => (r.repeatLast? 0 none).map (·, dropLazy rest)
    | '+' => (r.repeatLast? 1 none).map (·, dropLazy rest)
    | '\x7b' => do
      let (least, most, after) ← readBounds (skipFree r.flags rest)
      let r ← r.repeatLast? least most
      return (r, dropLazy after)
    | '.' => r.pushDot?.map (·, rest)
    | '^' => some (r.pushAnchor (caretAnchor r.flags), rest)
    | '$' => some (r.pushAnchor (dollarAnchor r.flags), rest)
    | '\\' =>
      (readEscape r.flags rest).map fun (found, after) =>
        match found with
        | .char c => (r.pushChar c, after)
        | .set chars => (r.push ⟨.set chars, true, 0⟩, after)
        | .anchor condition => (r.pushAnchor condition, after)
    | c => some (r.pushChar c, rest)

/-- Reads constructs until the pattern ends. Every step takes a character, so its length bounds the steps. -/
def Reader.run : (fuel : Nat) → Reader → Text → Option Reader
  | 0, r, text => if text.isEmpty then some r else none
  | fuel + 1, r, text =>
    match skipFree r.flags text with
    | [] => some r
    | text => (r.step text).bind fun (r, rest) => run fuel r rest

def greatestNesting : Nat := 250

/-- The greatest size of an expression, in bytes of the automaton that it unfolds to: ten mebibytes. -/
def greatestSize : Nat := 10 * 1048576

/-- The size of one state of the automaton. -/
def stateSize : Nat := 32

def rangeCount : CharSet → Nat
  | .range _ _ => 1
  | .table codes => codes.length
  | .union a b => rangeCount a + rangeCount b
  | .inter a b => rangeCount a + rangeCount b
  | .compl a => rangeCount a + 4
  | .folded a => 2 * rangeCount a

/-- The size of the automaton that an expression unfolds to: one state for every set and for every choice, with bounded
repetitions written out. -/
def unfoldedSize : Regex → Nat
  | .empty => 0
  | .set chars => stateSize * rangeCount chars
  | .anchor _ => stateSize
  | .seq first second => unfoldedSize first + unfoldedSize second
  | .alt left right => unfoldedSize left + unfoldedSize right + stateSize
  | .times body least none => (least + 1) * unfoldedSize body + stateSize
  | .times body least (some most) =>
    least * unfoldedSize body + (most - least) * (unfoldedSize body + stateSize)
  | .capture body => unfoldedSize body + 2 * stateSize

/-- The expression of a pattern; none if the pattern is refused. -/
def parse? (pattern : Text) : Option Regex := do
  let r ← Reader.run pattern.length .start pattern
  if !r.frames.isEmpty then failure
  let item := r.group.close
  if greatestNesting < item.nesting || greatestSize < unfoldedSize item.regex then failure
  return item.regex

end LiveSyntax.Regex
