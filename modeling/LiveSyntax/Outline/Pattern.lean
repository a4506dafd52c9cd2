import LiveSyntax.Outline.Symbol
import LiveSyntax.Text.Blank
import LiveSyntax.Tree.Basic
import Std.Data.TreeMap

/-!
# Symbols by node patterns

A `Pattern` says that nodes of one kind are symbols, and which child of such a node has the name. A pattern without a
kind or a name source matches nothing; a node without the child gives no symbol.

Most nodes of a tree are no symbols. So the patterns are put into groups by kind first, and each node is looked up once.
-/

namespace LiveSyntax

inductive NameSource where
  /-- In the first child with a field. -/
  | field (name : String)
  /-- In the first child of a kind. -/
  | child (kind : String)
  deriving DecidableEq, Repr

structure Pattern where
  nodeKind : String
  nameSource : NameSource
  kind : SymbolKind
  deriving DecidableEq, Repr

namespace Pattern

/-- Whether the pattern can match anything. -/
def isWellFormed (p : Pattern) : Bool :=
  p.nodeKind != "" && match p.nameSource with
    | .field name => name != ""
    | .child kind => kind != ""

def nameChild? (p : Pattern) (t : Tree) (i : Nat) : Option Nat :=
  match p.nameSource with
  | .field name => t.childByField? i name
  | .child kind => t.childByKind? i kind

/-- The symbol that a pattern makes of a node of its kind. -/
def symbol? (p : Pattern) (t : Tree) (i : Nat) : Option Symbol :=
  (p.nameChild? t i).map fun n =>
    { name := (t.textOf n).singleSpaced
      span := t.span i
      nameSpan := t.span n
      kind := p.kind
      container := none }

/-- Patterns by the kind of node that they match; those of one kind keep their order. -/
abbrev Groups := Std.TreeMap String (List Pattern)

/-- Puts a pattern behind the others of its kind. One that can match nothing is left out. -/
def addTo (groups : Groups) (p : Pattern) : Groups :=
  if p.isWellFormed then groups.insert p.nodeKind (groups.getD p.nodeKind [] ++ [p]) else groups

def byKind (patterns : List Pattern) : Groups :=
  patterns.foldl addTo ∅

def symbolsAt (groups : Groups) (t : Tree) (i : Nat) : List Symbol :=
  match groups[t.kind i]? with
  | none => []
  | some matching => matching.filterMap fun p => p.symbol? t i

def extract (t : Tree) (patterns : List Pattern) : List Symbol :=
  let groups := byKind patterns
  if groups.isEmpty then [] else Symbol.finish (t.indices.flatMap (symbolsAt groups t))

end Pattern

end LiveSyntax
