import LiveSyntax.Outline.Kind
import LiveSyntax.Text.Basic
import LiveSyntax.Text.Span

/-!
# Symbols and their containers

A `Symbol` is a named construct with its place. In a list ordered by start, the container of a symbol is the symbol
that still encloses it; a stack of the open ones finds it in one pass.
-/

namespace LiveSyntax

structure Symbol where
  name : Text
  span : Span
  /-- The bytes of the node that the name is taken from. -/
  nameSpan : Span
  kind : SymbolKind
  container : Option Text
  deriving DecidableEq, Repr

namespace Symbol

/-- Symbols that may still enclose a later one, innermost first, by span and name. -/
abbrev Enclosing := List (Span × Text)

def enclosing (opened : Enclosing) (s : Span) : Enclosing :=
  opened.dropWhile fun entry => !entry.1.contains s

/-- Gives each symbol the name of the innermost open one that contains it, and then opens it. -/
def assignFrom (opened : Enclosing) : List Symbol → List Symbol
  | [] => []
  | symbol :: rest =>
    let around := enclosing opened symbol.span
    { symbol with container := around.head?.map (·.2) } ::
      assignFrom ((symbol.span, symbol.name) :: around) rest

def assignContainers (symbols : List Symbol) : List Symbol :=
  assignFrom [] symbols

/-- The symbols in the order of their starts; those with equal starts keep their order. -/
def sorted (symbols : List Symbol) : List Symbol :=
  symbols.mergeSort fun a b => decide (a.span.start ≤ b.span.start)

/-- Orders symbols by start, drops each that equals the one before it, and assigns containers. -/
def finish (symbols : List Symbol) : List Symbol :=
  assignContainers (sorted symbols).eraseReps

end Symbol

end LiveSyntax
