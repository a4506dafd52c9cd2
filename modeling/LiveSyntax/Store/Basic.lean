import LiveSyntax.Outline.Capture
import LiveSyntax.Outline.Pattern
import LiveSyntax.Parse.Engine
import LiveSyntax.Selection.Command
import LiveSyntax.Tree.Inspect

/-!
# The trees of open buffers

A `Shelf` has the current tree of every tracked buffer. Each tree is put there by an install, which stamps it with the
next number of a clock. If the number of trees is bounded, an install then drops the trees with the oldest stamps, but
never the one that it brought.

## Main definitions

- `Shelf.install`: a tree becomes the current one.
- `Shelf.parseTrack`, `Shelf.parseUpdate`, `Shelf.parseChanges`: the parses that lead to an install.
- `Shelf.setRegistry`: other grammars; trees without a grammar go.
-/

namespace LiveSyntax

structure StoreOptions where
  /-- Whether changes are replayed and calls from inside a notification are refused. -/
  debug : Bool
  /-- How many trees are kept; at least the newest one is. -/
  maxTrees : Option Nat
  deriving DecidableEq, Repr

def StoreOptions.ofSettings (settings : Settings) : StoreOptions :=
  { debug := settings.debug, maxTrees := settings.maxTrees }

def StoreOptions.describe (o : StoreOptions) : String :=
  let bound := match o.maxTrees with
    | none => "None"
    | some n => s!"Some({n})"
  "StoreOptions \x7b debug: " ++ toString o.debug ++ ", max_cached_trees: " ++ bound ++ " \x7d"

structure Entry where
  buffer : BufferId
  grammar : String
  parsed : Parsed
  stamp : Nat

def Entry.source (e : Entry) : Text :=
  e.parsed.tree.source

/-- The trees of the tracked buffers, and the grammars to parse with. -/
structure Shelf where
  registry : Registry
  entries : Std.TreeMap BufferId Entry
  options : StoreOptions
  /-- The stamp of the next install. The machine counts stamps in sixty-four bits; no run comes near that many. -/
  clock : Nat

namespace Shelf

def empty (registry : Registry) (options : StoreOptions) : Shelf :=
  { registry, entries := ∅, options, clock := 0 }

def tracked (s : Shelf) : List BufferId :=
  s.entries.keys

def entryOf? (s : Shelf) (buffer : BufferId) : Option Entry :=
  s.entries[buffer]?

def tree? (s : Shelf) (buffer : BufferId) : Option Tree :=
  (s.entryOf? buffer).map (·.parsed.tree)

/-- The entry of a buffer, which must be tracked. -/
def require (s : Shelf) (buffer : BufferId) : Except BufferError Entry :=
  match s.entryOf? buffer with
  | none => .error (.untracked buffer)
  | some entry => .ok entry

/-- The buffers other than one, by the age of their trees, oldest first. -/
def byAge (entries : Std.TreeMap BufferId Entry) (keep : BufferId) : List BufferId :=
  ((entries.toList.filter fun e => e.1 != keep).mergeSort fun a b => decide (a.2.stamp ≤ b.2.stamp)).map (·.1)

/-- Drops the oldest trees beyond a bound, but never that of `keep`. -/
def evict (entries : Std.TreeMap BufferId Entry) (maxTrees : Option Nat) (keep : BufferId) :
    Std.TreeMap BufferId Entry :=
  match maxTrees with
  | none => entries
  | some bound =>
    ((byAge entries keep).take (entries.size - max bound 1)).foldl (fun kept buffer => kept.erase buffer) entries

def install (s : Shelf) (buffer : BufferId) (grammar : String) (parsed : Parsed) : Shelf :=
  let entry : Entry := { buffer, grammar, parsed, stamp := s.clock }
  { s with
    entries := evict (s.entries.insert buffer entry) s.options.maxTrees buffer
    clock := s.clock + 1 }

def untrack (s : Shelf) (buffer : BufferId) : Shelf × Bool :=
  ({ s with entries := s.entries.erase buffer }, s.entries.contains buffer)

def unloadable (s : Shelf) (registry : Registry) : List BufferId :=
  (s.entries.toList.filter fun e => !registry.isLoaded e.2.grammar).map (·.1)

/-- Takes other grammars, and drops the trees whose grammar is not among them. Returns their buffers. -/
def setRegistry (s : Shelf) (registry : Registry) : Shelf × List BufferId :=
  let removed := s.unloadable registry
  ({ s with registry, entries := removed.foldl (fun kept buffer => kept.erase buffer) s.entries }, removed)

/-- The tree of a buffer, if it is the tree of a source under a grammar. -/
def hit? (s : Shelf) (buffer : BufferId) (grammar : String) (source : List UInt8) : Option Tree :=
  match s.entryOf? buffer with
  | none => none
  | some entry =>
    if entry.grammar = grammar ∧ entry.source.bytes = source then some entry.parsed.tree else none

def parseTrack (s : Shelf) (parser : Parser) (grammar : String) (source : List UInt8) :
    Except BufferError (String × Parsed) :=
  match parser.parseFull s.registry grammar source with
  | .error e => .error e
  | .ok parsed => .ok (grammar, parsed)

def parseUpdate (s : Shelf) (parser : Parser) (buffer : BufferId) (edit : Edit) (source : List UInt8) :
    Except BufferError (String × Parsed) :=
  match s.require buffer with
  | .error e => .error e
  | .ok entry =>
    match parser.reparse s.registry (some entry.parsed) [edit] entry.grammar source with
    | .error e => .error e
    | .ok parsed => .ok (entry.grammar, parsed)

/-- Parses a source that changes lead to. In debug mode they must lead exactly there. -/
def parseChanges (s : Shelf) (parser : Parser) (buffer : BufferId) (changes : List Change) (source : List UInt8) :
    Except BufferError (String × Parsed) :=
  match s.require buffer with
  | .error e => .error e
  | .ok entry =>
    match Change.replay entry.source changes with
    | .error e => .error (.invalidEdit e)
    | .ok (edits, replayed) =>
      if s.options.debug ∧ replayed.bytes ≠ source then .error (.editMismatch buffer)
      else
        match parser.reparse s.registry (some entry.parsed) edits entry.grammar source with
        | .error e => .error e
        | .ok parsed => .ok (entry.grammar, parsed)

def symbols (s : Shelf) (buffer : BufferId) (patterns : List Pattern) : Except BufferError (List Symbol) :=
  match s.require buffer with
  | .error e => .error e
  | .ok entry => .ok (Pattern.extract entry.parsed.tree patterns)

/-- The symbols of a buffer by a query, which is compiled with the current grammars. -/
def query (s : Shelf) (parser : Parser) (buffer : BufferId) (grammar text : String) (spans : List Span) :
    Except BufferError (List Symbol) := do
  let q ← CaptureQuery.compile parser s.registry grammar text
  let entry ← s.require buffer
  q.runWithin parser entry.parsed spans

def navigate (s : Shelf) (buffer : BufferId) (command : Command) (selection : List Span) :
    Except BufferError (List Span) :=
  match s.require buffer with
  | .error e => .error e
  | .ok entry => (command.run entry.parsed.tree selection).mapError .outOfBounds

def render (s : Shelf) (buffer : BufferId) (span : Option Span) : Except BufferError String :=
  match s.require buffer with
  | .error e => .error e
  | .ok entry =>
    let t := entry.parsed.tree
    match span with
    | none => .ok (t.render Arena.root)
    | some span =>
      match t.covering span with
      | .error e => .error (.outOfBounds e)
      | .ok i => .ok (t.render (t.displayRoot i))

def nodeFacts (s : Shelf) (buffer : BufferId) (span : Span) : Except BufferError (List NodeFacts) :=
  match s.require buffer with
  | .error e => .error e
  | .ok entry =>
    match entry.parsed.tree.covering span with
    | .error e => .error (.outOfBounds e)
    | .ok i => .ok (entry.parsed.tree.facts i)

def describe (s : Shelf) : String :=
  "BufferTreeStore \x7b buffers: " ++ toString s.entries.size ++ ", options: " ++ s.options.describe ++ " \x7d"

end Shelf

end LiveSyntax
