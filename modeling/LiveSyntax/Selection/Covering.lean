import LiveSyntax.Tree.Basic

/-!
# Covering nodes

A span is covered by a node that contains it; an empty span at an offset is covered by a node that the offset lies
in or at the edge of. `Tree.covering` goes down from the root, each time to the first child that covers the span. So
where two siblings meet, the one that ends at an offset wins over the one that starts there.
-/

namespace LiveSyntax

/-- A span that is inverted, or reaches past the end of the source. -/
structure OutOfBounds where
  span : Span
  sourceLength : Nat
  deriving DecidableEq, Repr

def OutOfBounds.message (e : OutOfBounds) : String :=
  s!"range {e.span.render} is out of bounds for a source of {e.sourceLength} bytes"

namespace Tree

def inBounds (t : Tree) (s : Span) : Bool :=
  s.isOrdered && decide (s.stop ≤ t.sourceLength)

def covers (t : Tree) (i : Nat) (s : Span) : Bool :=
  if s.isEmpty then (t.span i).touches s.start else (t.span i).contains s

/-- Goes down from a node, at most `fuel` levels, to the first child that covers the span. -/
def descend (t : Tree) (s : Span) : (fuel : Nat) → Nat → Nat
  | 0, i => i
  | fuel + 1, i =>
    match (t.children i).find? fun c => t.covers c s with
    | none => i
    | some c => descend t s fuel c

/-- The deepest node on the way down from the root that covers a span. No way down is longer than the tree has
nodes. -/
def covering (t : Tree) (s : Span) : Except OutOfBounds Nat :=
  if t.inBounds s then .ok (t.descend s t.size Arena.root)
  else .error ⟨s, t.sourceLength⟩

/-- The covering nodes of a list of spans. A span that repeats the one before it is passed over. -/
def coveringEach (t : Tree) (previous : Option Span) : List Span → Except OutOfBounds (List Nat)
  | [] => .ok []
  | s :: rest =>
    if previous = some s then coveringEach t previous rest
    else
      match t.covering s with
      | .error e => .error e
      | .ok i =>
        match coveringEach t (some s) rest with
        | .error e => .error e
        | .ok others => .ok (i :: others)

def nodesForSelection (t : Tree) (selection : List Span) : Except OutOfBounds (List Nat) :=
  t.coveringEach none selection

end Tree

end LiveSyntax
