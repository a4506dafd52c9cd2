import LiveSyntax.Notify.Host
import LiveSyntax.Store.Basic

/-!
# The store and its operations

A `Store` is a shelf of trees with observers. Every install is announced: once the tree is in place and the old ones are
dropped, the observers are told in one round. In debug mode the buffer counts as being announced during that round, and
any attempt to install another tree for it is refused. There is one thread: an operation is done before the next one
starts, except that those of observers take place inside the round that called them.
-/

namespace LiveSyntax

inductive StoreOp where
  | track (buffer : BufferId) (grammar : String) (source : List UInt8)
  | update (buffer : BufferId) (edit : Edit) (source : List UInt8)
  | updateWithChanges (buffer : BufferId) (changes : List Change) (source : List UInt8)
  /-- The current tree, if it is the tree of this source; else as `track`. -/
  | getOrTrack (buffer : BufferId) (grammar : String) (source : List UInt8)
  | get (buffer : BufferId)
  | entry (buffer : BufferId)
  | untrack (buffer : BufferId)
  | all
  | setRegistry (registry : Registry)
  | registryNames
  | options
  | observers
  | symbols (buffer : BufferId) (patterns : List Pattern)
  /-- Symbols by a query, in some spans or, if there are none, everywhere. -/
  | query (buffer : BufferId) (grammar text : String) (adHoc : Bool) (spans : List Span)
  | navigate (buffer : BufferId) (command : Command) (selection : List Span)
  | render (buffer : BufferId) (span : Option Span)
  | nodeFacts (buffer : BufferId) (span : Span)

inductive StoreResult where
  /-- A tree that was installed, or why none was. -/
  | tree (outcome : Except BufferError Tree)
  | current (tree : Option Tree)
  | entry (entry : Option Entry)
  | flag (value : Bool)
  | trees (trees : List (BufferId × Tree))
  | removed (buffers : List BufferId)
  | names (names : List String)
  | options (options : StoreOptions) (description : String)
  | observers (count : Nat)
  | symbols (outcome : Except BufferError (List Symbol))
  | querySymbols (grammar : String) (outcome : Except BufferError (List Symbol))
  | spans (outcome : Except BufferError (List Span))
  | text (outcome : Except BufferError String)
  | facts (outcome : Except BufferError (List NodeFacts))

/-- The trees of open buffers, with observers. These act by operations `α`: those of the store, or those of a host that
has a store in it. -/
structure Store (α : Type) where
  shelf : Shelf
  notifier : Notifier α
  /-- The buffers that are being announced, in debug mode. -/
  announcing : List BufferId

abbrev StoreEffect (α : Type) := Effect (Store α) StoreResult

namespace Store

variable {α : Type}

def empty (registry : Registry) (options : StoreOptions) : Store α :=
  { shelf := Shelf.empty registry options, notifier := .empty, announcing := [] }

/-- In debug mode, refuses a buffer that is being announced. -/
def checkReentrant (s : Store α) (buffer : BufferId) : Except BufferError Unit :=
  if s.shelf.options.debug ∧ buffer ∈ s.announcing then .error (.reentrant buffer) else .ok ()

/-- The round for a buffer. In debug mode the buffer counts as being announced meanwhile. -/
def announce (buffer : BufferId) (s : Store α) (result : StoreResult) : StoreEffect α :=
  if s.shelf.options.debug ∧ buffer ∉ s.announcing then
    .announced buffer { s with announcing := buffer :: s.announcing }
      (fun s => { s with announcing := s.announcing.erase buffer }) result
  else .announced buffer s id result

/-- Installs what a parse gave, if it gave something, and announces it. -/
def commit (buffer : BufferId) (s : Store α) (outcome : Except BufferError (String × Parsed)) : StoreEffect α :=
  match outcome with
  | .error e => .finished s (.tree (.error e))
  | .ok (grammar, parsed) =>
    announce buffer { s with shelf := s.shelf.install buffer grammar parsed } (.tree (.ok parsed.tree))

/-- The outcome of a parse, unless the buffer is being announced. -/
def guarded (s : Store α) (buffer : BufferId) (parse : Shelf → Except BufferError (String × Parsed)) :
    Except BufferError (String × Parsed) :=
  match s.checkReentrant buffer with
  | .error e => .error e
  | .ok () => parse s.shelf

def handle (parser : Parser) (s : Store α) (op : StoreOp) : StoreEffect α :=
  match op with
  | .track buffer grammar source =>
    commit buffer s (s.guarded buffer fun shelf => shelf.parseTrack parser grammar source)
  | .update buffer edit source =>
    commit buffer s (s.guarded buffer fun shelf => shelf.parseUpdate parser buffer edit source)
  | .updateWithChanges buffer changes source =>
    commit buffer s (s.guarded buffer fun shelf => shelf.parseChanges parser buffer changes source)
  | .getOrTrack buffer grammar source =>
    match s.shelf.hit? buffer grammar source with
    | some tree => .finished s (.current (some tree))
    | none => commit buffer s (s.guarded buffer fun shelf => shelf.parseTrack parser grammar source)
  | .get buffer => .finished s (.current (s.shelf.tree? buffer))
  | .entry buffer => .finished s (.entry (s.shelf.entryOf? buffer))
  | .untrack buffer =>
    let (shelf, removed) := s.shelf.untrack buffer
    .finished { s with shelf } (.flag removed)
  | .all => .finished s (.trees (s.shelf.entries.toList.map fun e => (e.1, e.2.parsed.tree)))
  | .setRegistry registry =>
    let (shelf, removed) := s.shelf.setRegistry registry
    .finished { s with shelf } (.removed removed)
  | .registryNames => .finished s (.names s.shelf.registry.names)
  | .options => .finished s (.options s.shelf.options s.shelf.describe)
  | .observers => .finished s (.observers s.notifier.size)
  | .symbols buffer patterns => .finished s (.symbols (s.shelf.symbols buffer patterns))
  | .query buffer grammar text adHoc spans =>
    let text := if adHoc then CaptureQuery.completed text else text
    .finished s (.querySymbols grammar (s.shelf.query parser buffer grammar text spans))
  | .navigate buffer command selection => .finished s (.spans (s.shelf.navigate buffer command selection))
  | .render buffer span => .finished s (.text (s.shelf.render buffer span))
  | .nodeFacts buffer span => .finished s (.facts (s.shelf.nodeFacts buffer span))

end Store

/-- The store as a host of observers, who see the length of the buffer's source. -/
def storeHost (parser : Parser) : Host (Store StoreOp) StoreOp StoreResult (Option Nat) where
  notifier s := s.notifier
  withNotifier s notifier := { s with notifier }
  view s buffer := (s.shelf.tree? buffer).map (·.sourceLength)
  handle := Store.handle parser

end LiveSyntax
