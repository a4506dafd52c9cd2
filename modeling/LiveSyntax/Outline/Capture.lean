import LiveSyntax.Outline.Symbol
import LiveSyntax.Parse.Engine
import LiveSyntax.Text.Blank

/-!
# Symbols by query captures

A query captures nodes under names. A capture named `definition.…` makes its node a symbol of that kind; a capture named
`breadcrumb.N` says that the scope which the node opens is `N` levels above it. Other captures mean nothing here.

The name of a symbol is the text of its node's `name` child, or else of the node itself. Unless a breadcrumb says
otherwise, its scope is the node, or the parent that has the node as its `name` child. A symbol lies in the symbol whose
scope is the nearest one above its own.

## Main definitions

- `CaptureRole.ofName`: what a capture means.
- `Definition.collect`: the symbols of a list of captures.
- `CaptureQuery.compile`, `CaptureQuery.run`, `CaptureQuery.runWithin`: queries and their symbols.
-/

namespace LiveSyntax

inductive CaptureRole where
  | definition (kind : SymbolKind)
  /-- The scope of the symbol is some levels above the node. -/
  | breadcrumb (levels : Nat)
  | other
  deriving DecidableEq, Repr

/-- The number that digits spell, with an optional plus sign; none if it is no machine word. -/
def parseWord? (text : Text) : Option Nat :=
  let digits := if text.head? = some '+' then text.tail else text
  if digits.isEmpty || !digits.all Char.isDigit then none
  else
    let n := digits.foldl (fun n c => n * 10 + (c.toNat - '0'.toNat)) 0
    if n ≤ Offset.greatest then some n else none

/-- The meaning of a capture by its name. A breadcrumb without a number means no level. -/
def CaptureRole.ofName (name : String) : CaptureRole :=
  if SymbolKind.definitionMark.toList.isPrefixOf name.toList then .definition (SymbolKind.ofCapture name)
  else match name.splitOn "." with
    | ["breadcrumb"] => .breadcrumb 0
    | ["breadcrumb", levels] => .breadcrumb ((parseWord? levels.toList).getD 0)
    | _ => .other

/-- A symbol with the node that is its scope. -/
structure Definition where
  symbol : Symbol
  /-- The node that the symbol encloses others by. -/
  scope : Nat
  deriving DecidableEq, Repr

namespace Definition

abbrev Captured := CaptureRole × Nat

/-- How many levels up the scope of a node is, by the last breadcrumb on it. -/
def breadcrumb? (captured : List Captured) (i : Nat) : Option Nat :=
  captured.foldl (fun found entry =>
    match entry with
    | (.breadcrumb levels, j) => if j = i then some levels else found
    | _ => found) none

/-- Climbs some levels, but not beyond the root. -/
def climb (t : Arena) (i : Nat) : (levels : Nat) → Nat
  | 0 => i
  | levels + 1 =>
    match t.parent? i with
    | none => i
    | some p => climb t p levels

def nameField : String := "name"

def scopeOf (t : Arena) (i : Nat) (levels : Option Nat) : Nat :=
  match levels with
  | some levels => climb t i levels
  | none =>
    match t.parent? i with
    | none => i
    | some p => if t.childByField? p nameField = some i then p else i

/-- The definition that a captured node makes; none if its name is blank. -/
def ofNode? (t : Arena) (source : Text) (captured : List Captured) (i : Nat) (kind : SymbolKind) :
    Option Definition :=
  let nameNode := (t.childByField? i nameField).getD i
  let nameSpan := t.span nameNode
  let name := ((source.slice? nameSpan.start nameSpan.stop).getD []).singleSpaced
  if name.isEmpty then none
  else some {
    symbol := { name, span := t.span i, nameSpan, kind, container := none }
    scope := scopeOf t i (breadcrumb? captured i) }

def ofCaptures (t : Arena) (source : Text) (captured : List Captured) : List Definition :=
  captured.filterMap fun entry =>
    match entry with
    | (.definition kind, i) => ofNode? t source captured i kind
    | _ => none

/-- What two definitions of the same symbol agree in. -/
def key (d : Definition) : Span × Span × SymbolKind :=
  (d.symbol.span, d.symbol.nameSpan, d.symbol.kind)

/-- Drops each definition whose key came before. -/
def dropRepeats (seen : List (Span × Span × SymbolKind)) : List Definition → List Definition
  | [] => []
  | d :: rest =>
    if seen.contains d.key then dropRepeats seen rest
    else d :: dropRepeats (d.key :: seen) rest

def sorted (definitions : List Definition) : List Definition :=
  definitions.mergeSort fun a b => decide (a.symbol.span.start ≤ b.symbol.span.start)

def owner? (definitions : List Definition) (i : Nat) : Option Text :=
  (definitions.find? fun d => d.scope == i).map fun d => d.symbol.name

/-- The name of the symbol with the nearest scope above a scope. -/
def container? (t : Arena) (definitions : List Definition) (scope : Nat) : Option Text :=
  (t.ancestors scope).findSome? (owner? definitions)

/-- The symbols of a list of captures, in source order, each with its container. -/
def collect (t : Arena) (source : Text) (captured : List Captured) : List Symbol :=
  let definitions := sorted (dropRepeats [] (ofCaptures t source captured))
  definitions.map fun d => { d.symbol with container := container? t definitions d.scope }

end Definition

/-- A query that was compiled for a grammar. -/
structure CaptureQuery where
  grammar : String
  language : Language
  text : String
  roles : List CaptureRole
  deriving DecidableEq, Repr

namespace CaptureQuery

def compile (parser : Parser) (registry : Registry) (grammar text : String) : Except BufferError CaptureQuery :=
  match registry.grammarFor grammar with
  | .error e => .error (.grammar e)
  | .ok language =>
    match parser.compile language text with
    | .error reason => .error (.query reason)
    | .ok names => .ok { grammar, language, text, roles := names.map CaptureRole.ofName }

/-- A query that a user typed in: one without captures captures every match as a symbol of unknown kind. -/
def completed (text : String) : String :=
  if text.toList.contains '@' then text else "((" ++ text ++ ") @definition.query)"

/-- The outermost ancestor with the span of a node, or the node itself. -/
def widen (t : Arena) (i : Nat) : Nat :=
  ((t.ancestors i).takeWhile fun a => t.span a == t.span i).getLastD i

/-- The nodes to search for a list of spans: for each, the node that spans its covering node, widened. -/
def searchNodes (q : CaptureQuery) (parser : Parser) (parsed : Parsed) (t : Arena) :
    List Span → Except BufferError (List Nat)
  | [] => .ok []
  | s :: rest =>
    match parsed.tree.covering s with
    | .error e => .error (.outOfBounds e)
    | .ok i =>
      match searchNodes q parser parsed t rest with
      | .error e => .error e
      | .ok others =>
        match parser.descendant? q.language q.text parsed.tree.source (parsed.tree.span i) with
        | none => .ok others
        | some found => .ok (widen t found :: others)

/-- The captures below some nodes, by their meaning. -/
def capturedBelow (q : CaptureQuery) (parser : Parser) (parsed : Parsed) (search : List Nat) :
    List Definition.Captured :=
  search.flatMap fun i =>
    (parser.captures q.language q.text parsed.tree.source i).map fun (index, node) =>
      (q.roles.getD index .other, node)

def checkGrammar (q : CaptureQuery) (parsed : Parsed) : Except BufferError Unit :=
  if parsed.tree.grammar = q.grammar then .ok ()
  else .error (.query ("query compiled for " ++ Quoted.render q.grammar ++ " cannot run on a " ++
    Quoted.render parsed.tree.grammar ++ " tree"))

/-- The symbols of a query below the nodes for some spans; without any, below the root. -/
def runWithin (q : CaptureQuery) (parser : Parser) (parsed : Parsed) (spans : List Span) :
    Except BufferError (List Symbol) := do
  q.checkGrammar parsed
  let t := parsed.raw.arena
  let search ← if spans.isEmpty then pure [Arena.root] else q.searchNodes parser parsed t spans
  return Definition.collect t parsed.tree.source (q.capturedBelow parser parsed search)

def run (q : CaptureQuery) (parser : Parser) (parsed : Parsed) : Except BufferError (List Symbol) :=
  q.runWithin parser parsed []

end CaptureQuery

end LiveSyntax
