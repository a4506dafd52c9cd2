import LiveSyntax.Tree.Basic
import LiveSyntax.Tree.NameTable

/-!
# Building trees from events

A `Builder` takes a word of events: a node opens, the nodes of its subtree follow, and it closes. A leaf opens and
closes at once. The events form a tree if they are balanced and have exactly one outermost node; otherwise the first
event that breaks this is the fault that `Builder.finish` reports. A node beyond the greatest number of nodes is a fault
before all others.
-/

namespace LiveSyntax

inductive BuildError where
  | empty
  /-- A node opened after the outermost one had closed. -/
  | multipleRoots
  /-- A close came with no node open. -/
  | unbalancedClose
  | unclosed (count : Nat)
  | tooLarge
  deriving DecidableEq, Repr

def BuildError.message : BuildError → String
  | .empty => "tree has no root node"
  | .multipleRoots => "tree has more than one root node"
  | .unbalancedClose => "close called with no open node"
  | .unclosed count => s!"{count} node(s) still open"
  | .tooLarge => "tree exceeds the node limit"

/-- What is told about a node when it opens. -/
structure NodeSpec where
  kind : String
  span : Span
  named : Bool
  error : Bool
  field : Option String
  /-- The positions of both ends, if they are known. -/
  positions : Option (Position × Position)
  deriving DecidableEq, Repr, Inhabited

/-- A letter of the word that describes a tree. -/
inductive Event where
  | enter (spec : NodeSpec)
  | leaf (spec : NodeSpec)
  | leave
  deriving DecidableEq, Repr

structure Builder where
  source : Text
  cells : Array Cell
  kinds : NameTable
  fields : NameTable
  /-- The nodes that are open, innermost first. -/
  opened : List Nat
  fault : Option BuildError
  deriving Inhabited

namespace Builder

/-- How many nodes a tree can have: indices are words of thirty-two bits. -/
def maxNodes : Nat := 4294967295

def start (source : Text) : Builder :=
  { source, cells := #[], kinds := .empty, fields := .empty, opened := [], fault := none }

/-- Notes a fault, unless there is one already. -/
def blame (b : Builder) (fault : BuildError) : Builder :=
  { b with fault := b.fault.or (some fault) }

/-- The positions of a node: those told, or else the ones of the ends of its span in the source. -/
def positionsOf (b : Builder) (spec : NodeSpec) : Position × Position :=
  spec.positions.getD (b.source.positionOfByte spec.span.start, b.source.positionOfByte spec.span.stop)

def faultOnEnter (b : Builder) : Option BuildError :=
  if maxNodes ≤ b.cells.size then some .tooLarge
  else if b.opened.isEmpty && !b.cells.isEmpty then b.fault.or (some .multipleRoots)
  else b.fault

def nextCell (b : Builder) (spec : NodeSpec) (kind : Nat) (field : Option Nat) : Cell :=
  { kind
    field
    named := spec.named
    error := spec.error
    span := spec.span
    start := (b.positionsOf spec).1
    stop := (b.positionsOf spec).2
    parent := b.opened.head?
    depth := b.opened.length
    subtreeEnd := b.cells.size + 1 }

def enter (b : Builder) (spec : NodeSpec) : Builder :=
  let (kinds, kind) := b.kinds.intern spec.kind
  let (fields, field) := b.fields.intern? spec.field
  { source := b.source
    cells := b.cells.push (b.nextCell spec kind field)
    kinds
    fields
    opened := b.cells.size :: b.opened
    fault := b.faultOnEnter }

/-- Closes the innermost open node: its subtree ends here. -/
def leave (b : Builder) : Builder :=
  match b.opened with
  | [] => b.blame .unbalancedClose
  | index :: outer =>
    { b with
      cells := b.cells.modify index fun cell => { cell with subtreeEnd := b.cells.size }
      opened := outer }

def step (b : Builder) : Event → Builder
  | .enter spec => b.enter spec
  | .leaf spec => (b.enter spec).leave
  | .leave => b.leave

def arena (b : Builder) : Arena :=
  { cells := b.cells, kinds := b.kinds.names, fields := b.fields.names }

/-- The finished nodes: the root is widened to the whole source. -/
def widened (b : Builder) : Array Cell :=
  let length := b.source.byteCount
  b.cells.modify Arena.root fun root =>
    { root with
      span := ⟨0, length⟩
      start := Position.origin
      stop := b.source.positionOfByte length }

/-- The tree, or why there is none: the fault, or else the number of nodes still open, or else that there is no node. -/
def finish (b : Builder) (grammar : String) : Except BuildError Tree :=
  match b.fault with
  | some fault => .error fault
  | none =>
    if !b.opened.isEmpty then .error (.unclosed b.opened.length)
    else if b.cells.isEmpty then .error .empty
    else .ok { b.arena with cells := b.widened, grammar, source := b.source }

end Builder

def Tree.build (grammar : String) (source : Text) (events : List Event) : Except BuildError Tree :=
  (events.foldl Builder.step (Builder.start source)).finish grammar

end LiveSyntax
