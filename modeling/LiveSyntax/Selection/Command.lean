import LiveSyntax.Selection.Cousins
import LiveSyntax.Selection.Relatives

/-!
# Selection commands

A `Command` turns the spans of a selection into new ones. A span without a target stays as it is, so no command loses
a caret. Except for `Command.node`, a span that was already put out is not put out again. The first span out of
bounds that a command has to look at ends it.
-/

namespace LiveSyntax

inductive Command where
  /-- Each span grows to the nearest larger node, but never to the root. -/
  | ancestor
  /-- Each span shrinks to the first smaller node below its covering node. -/
  | descendant
  /-- Each span moves to a sibling; or else, to extend, the sibling of one span is added. -/
  | sibling (forward extend : Bool)
  /-- Each span moves to cousins of its covering node; or else, to extend, the cousins of one span are added. -/
  | cousins (filter : CousinFilter) (extend : Bool)
  | node
  deriving DecidableEq, Repr

namespace Command

def origin? (selection : List Span) (fromLast : Bool) : Option Span :=
  if fromLast then selection.getLast? else selection.head?

def spanOr (t : Tree) (s : Span) : Option Nat → Span
  | none => s
  | some i => t.span i

def growOne (t : Tree) (s : Span) : Except OutOfBounds (List Span) := do
  let target ← t.ancestorForSelection s
  return [spanOr t s (target.filter (· != Arena.root))]

def shrinkOne (t : Tree) (s : Span) : Except OutOfBounds (List Span) := do
  let target ← t.descendantForSelection s
  return [spanOr t s target]

def moveOne (t : Tree) (forward : Bool) (s : Span) : Except OutOfBounds (List Span) := do
  let target ← t.siblingForSelection s forward
  return [spanOr t s target]

def cousinSpans (t : Tree) (filter : CousinFilter) (s : Span) : Except OutOfBounds (List Span) := do
  let i ← t.covering s
  return (t.cousinsMatching i filter).map t.span

/-- Where `cousins` takes a span: to the chosen cousin, or to itself with all of them. -/
def spreadOne (t : Tree) (filter : CousinFilter) (s : Span) : Except OutOfBounds (List Span) := do
  let found ← cousinSpans t filter s
  if found.isEmpty then return [s]
  else if filter.which = .all then return s :: found
  else return found

def each (move : Span → Except OutOfBounds (List Span)) : List Span → Except OutOfBounds (List Span)
  | [] => .ok []
  | s :: rest =>
    match move s with
    | .error e => .error e
    | .ok here =>
      match each move rest with
      | .error e => .error e
      | .ok others => .ok (here ++ others)

/-- The selection with what a move adds from one span of it. -/
def extendFrom (move : Span → Except OutOfBounds (List Span)) (selection : List Span) (fromLast : Bool) :
    Except OutOfBounds (List Span) :=
  match origin? selection fromLast with
  | none => .ok selection
  | some s =>
    match move s with
    | .error e => .error e
    | .ok added => .ok (selection ++ added)

def siblingSpans (t : Tree) (forward : Bool) (s : Span) : Except OutOfBounds (List Span) := do
  let target ← t.siblingForSelection s forward
  return (target.map t.span).toList

def run (t : Tree) (command : Command) (selection : List Span) : Except OutOfBounds (List Span) :=
  match command with
  | .ancestor => (each (growOne t) selection).map List.eraseDups
  | .descendant => (each (shrinkOne t) selection).map List.eraseDups
  | .sibling forward true => (extendFrom (siblingSpans t forward) selection forward).map List.eraseDups
  | .sibling forward false => (each (moveOne t forward) selection).map List.eraseDups
  | .cousins filter true =>
    (extendFrom (cousinSpans t filter) selection (filter.which = .next)).map List.eraseDups
  | .cousins filter false => (each (spreadOne t filter) selection).map List.eraseDups
  | .node => (t.nodesForSelection selection).map (·.map t.span)

end Command

end LiveSyntax
