import LiveSyntax.Selection.Covering

/-!
# Larger, smaller and neighbouring nodes

The targets of the selection moves that follow the tree: up to the nearest larger node, down to the first smaller
one, and sideways to a sibling, round and round.
-/

namespace LiveSyntax.Tree

/-- The children of a node's parent, the node among them; the root is its own only sibling. -/
def siblings (t : Tree) (i : Nat) : List Nat :=
  match t.parent? i with
  | none => [i]
  | some p => t.children p

def largerAncestor? (t : Tree) (i : Nat) : Option Nat :=
  (t.ancestors i).find? fun a => t.length i < t.length a

/-- The first node of the subtree, in pre-order, that is shorter than its top. -/
def smallerDescendant? (t : Tree) (i : Nat) : Option Nat :=
  (t.subtree i).find? fun d => t.length d < t.length i

/-- The node to grow a span to: the covering node if it is longer, else its nearest longer ancestor, else its parent.
The root has nothing above it. -/
def ancestorForSelection (t : Tree) (s : Span) : Except OutOfBounds (Option Nat) := do
  let i ← t.covering s
  match t.parent? i with
  | none => return none
  | some p =>
    if s.length < t.length i then return some i
    else return some ((t.largerAncestor? i).getD p)

def descendantForSelection (t : Tree) (s : Span) : Except OutOfBounds (Option Nat) := do
  let i ← t.covering s
  return t.smallerDescendant? i

/-- Climbs from an only child to its parent, at most `fuel` times, but never to the root. -/
def climbOnlyChildren (t : Tree) : (fuel : Nat) → Nat → Nat
  | 0, i => i
  | fuel + 1, i =>
    match t.parent? i with
    | none => i
    | some p => if p = Arena.root ∨ t.childCount p ≠ 1 then i else climbOnlyChildren t fuel p

/-- The place one step on from `place` among `count`, round and round. -/
def cyclicStep (count place : Nat) (forward : Bool) : Nat :=
  if forward then (place + 1) % count else (place + count - 1) % count

/-- The neighbour of a node among its siblings, round and round. -/
def cyclicSibling? (t : Tree) (i : Nat) (forward : Bool) : Option Nat :=
  match t.parent? i with
  | none => none
  | some p =>
    let all := t.children p
    match all.findIdx? (· == i) with
    | none => none
    | some place => all[cyclicStep all.length place forward]?

/-- The sibling next to an offset, among those of the first node shorter than the root. -/
def siblingNearOffset? (t : Tree) (offset : Nat) (forward : Bool) : Option Nat :=
  match t.smallerDescendant? Arena.root with
  | none => none
  | some first =>
    match t.parent? first with
    | none => some first
    | some p =>
      let adjacent :=
        if forward then (t.children p).find? fun c => offset ≤ (t.span c).start
        else ((t.children p).filter fun c => (t.span c).start ≤ offset).getLast?
      some (adjacent.getD first)

/-- The sibling to move a span to. Only children are climbed first, so that there is somewhere to move; when the
root covers the span, the sibling nearest to its start is taken. -/
def siblingForSelection (t : Tree) (s : Span) (forward : Bool) : Except OutOfBounds (Option Nat) := do
  let i ← t.covering s
  if i = Arena.root then return t.siblingNearOffset? s.start forward
  else return t.cyclicSibling? (t.climbOnlyChildren t.size i) forward

end LiveSyntax.Tree
