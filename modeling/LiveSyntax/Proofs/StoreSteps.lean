import LiveSyntax.Proofs.Rounds
import LiveSyntax.Store.Operation

/-!
# The steps of the store

Many operations work on a store, and most of them only read it. `Store.Step` has one rule for each
thing that an operation can do: install what a parse gave, refuse to install, answer from what is
there, drop a tree, or take other grammars. `Store.step_handle` shows that there is nothing else. Facts
about all operations are then proved rule by rule.

## Main definitions

- `Store.Step`: what an operation can do to a store.
- `StoreResult.isFailure`: the outcomes that are errors.

## Main results

- `Store.step_handle`: every operation follows one of the rules.
- `lawful_storeHost`: the store leaves its observers to the rounds.
- `Store.failure_atomic`: an operation that fails changes nothing and calls nobody.
-/

namespace LiveSyntax

/-- What an operation asks to be installed: the buffer, the grammar if it names one, and the source. -/
def StoreOp.request? : StoreOp → Option (BufferId × Option String × List UInt8)
  | .track buffer grammar source => some (buffer, some grammar, source)
  | .update buffer _ source => some (buffer, none, source)
  | .updateWithChanges buffer _ source => some (buffer, none, source)
  | .getOrTrack buffer grammar source => some (buffer, some grammar, source)
  | _ => none

/-- Whether an outcome is that of an attempt to install a tree. -/
def StoreResult.isTree : StoreResult → Bool
  | .tree _ => true
  | _ => false

/-- Whether an outcome is an error. -/
def StoreResult.isFailure : StoreResult → Bool
  | .tree (.error _) => true
  | .symbols (.error _) => true
  | .querySymbols _ (.error _) => true
  | .spans (.error _) => true
  | .text (.error _) => true
  | .facts (.error _) => true
  | _ => false

namespace Shelf

/-- The grammar of an install: the one that is named, or else that of the current tree. -/
def grammarOf? (s : Shelf) (buffer : BufferId) : Option String → Option String
  | some grammar => some grammar
  | none => (s.entryOf? buffer).map (·.grammar)

/-- What a parse for an install gives: some reparse of the source with the grammar of the install. -/
def Parses (parser : Parser) (s : Shelf) (buffer : BufferId) (named : Option String)
    (source : List UInt8) (outcome : Except BufferError (String × Parsed)) : Prop :=
  ∀ grammar parsed, outcome = .ok (grammar, parsed) → s.grammarOf? buffer named = some grammar ∧
    ∃ previous edits, parser.reparse s.registry previous edits grammar source = .ok parsed

variable {parser : Parser} {s : Shelf} {buffer : BufferId}

theorem parses_track (grammar : String) (source : List UInt8) :
    s.Parses parser buffer (some grammar) source (s.parseTrack parser grammar source) := by
  intro grammar' parsed h
  unfold parseTrack at h
  split at h
  · cases h
  · next hparse =>
    cases h
    exact ⟨rfl, none, [], hparse⟩

theorem grammarOf?_of_require {entry : Entry} (h : s.require buffer = .ok entry) :
    s.grammarOf? buffer none = some entry.grammar := by
  unfold require at h
  split at h
  · cases h
  · next hentry =>
    cases h
    rw [grammarOf?, hentry, Option.map_some]

theorem parses_update (edit : Edit) (source : List UInt8) :
    s.Parses parser buffer none source (s.parseUpdate parser buffer edit source) := by
  intro grammar parsed h
  unfold parseUpdate at h
  split at h
  · cases h
  · next entry hentry =>
    split at h
    · cases h
    · next hparse =>
      cases h
      exact ⟨grammarOf?_of_require hentry, some entry.parsed, [edit], hparse⟩

theorem parses_changes (changes : List Change) (source : List UInt8) :
    s.Parses parser buffer none source (s.parseChanges parser buffer changes source) := by
  intro grammar parsed h
  unfold parseChanges at h
  split at h
  · cases h
  · next entry hentry =>
    split at h
    · cases h
    · next edits replayed _ =>
      split at h
      · cases h
      · split at h
        · cases h
        · next hparse =>
          cases h
          exact ⟨grammarOf?_of_require hentry, some entry.parsed, edits, hparse⟩

end Shelf

namespace Store

/-- An operation gets as far as an install: it asks for one, the buffer is not being announced, and a
source parses with the grammar of the install. -/
structure Installs (parser : Parser) (s : Store StoreOp) (op : StoreOp) (buffer : BufferId)
    (source : List UInt8) (grammar : String) (parsed : Parsed) : Prop where
  request : ∃ named, op.request? = some (buffer, named, source) ∧
    s.shelf.grammarOf? buffer named = some grammar
  free : s.checkReentrant buffer = .ok ()
  parse : ∃ previous edits,
    parser.reparse s.shelf.registry previous edits grammar source = .ok parsed

/-- What an operation can do to a store. -/
inductive Step (parser : Parser) (s : Store StoreOp) : StoreOp → StoreEffect StoreOp → Prop
  | install {op : StoreOp} {buffer : BufferId} {source : List UInt8} {grammar : String}
    {parsed : Parsed} {effect : StoreEffect StoreOp}
    (installs : s.Installs parser op buffer source grammar parsed)
    (announced : announce buffer { s with shelf := s.shelf.install buffer grammar parsed }
      (.tree (.ok parsed.tree)) = effect) :
    Step parser s op effect
  | refuse {op : StoreOp} (error : BufferError) (request : op.request?.isSome) :
    Step parser s op (.finished s (.tree (.error error)))
  | answer {op : StoreOp} {result : StoreResult} (quiet : result.isTree = false)
    (same : ∀ registry, op ≠ .setRegistry registry) : Step parser s op (.finished s result)
  | untrack (buffer : BufferId) (removed : Bool) :
    Step parser s (.untrack buffer)
      (.finished { s with shelf := (s.shelf.untrack buffer).1 } (.flag removed))
  | setRegistry (registry : Registry) :
    Step parser s (.setRegistry registry)
      (.finished { s with shelf := (s.shelf.setRegistry registry).1 }
        (.removed (s.shelf.setRegistry registry).2))

theorem step_commit {parser : Parser} {s : Store StoreOp} {op : StoreOp} {buffer : BufferId}
    {named : Option String} {source : List UInt8} {parse : Shelf → Except BufferError (String × Parsed)}
    (request : op.request? = some (buffer, named, source))
    (hparse : s.shelf.Parses parser buffer named source (parse s.shelf)) :
    Step parser s op (commit buffer s (s.guarded buffer parse)) := by
  have hsome : op.request?.isSome := by rw [request]; rfl
  unfold guarded
  cases hfree : s.checkReentrant buffer with
  | error e => exact .refuse e hsome
  | ok _ =>
    cases houtcome : parse s.shelf with
    | error e => exact .refuse e hsome
    | ok outcome =>
      obtain ⟨hgrammar, hreparse⟩ := hparse outcome.1 outcome.2 houtcome
      exact .install ⟨⟨named, request, hgrammar⟩, hfree, hreparse⟩ rfl

/-- **Every operation follows one of the rules.** -/
theorem step_handle (parser : Parser) (s : Store StoreOp) (op : StoreOp) :
    Step parser s op (s.handle parser op) := by
  cases op with
  | track buffer grammar source => exact step_commit rfl (Shelf.parses_track grammar source)
  | update buffer edit source => exact step_commit rfl (Shelf.parses_update edit source)
  | updateWithChanges buffer changes source =>
    exact step_commit rfl (Shelf.parses_changes changes source)
  | getOrTrack buffer grammar source =>
    simp only [handle]
    cases s.shelf.hit? buffer grammar source with
    | some tree => exact .answer rfl nofun
    | none => exact step_commit rfl (Shelf.parses_track grammar source)
  | untrack buffer => exact .untrack buffer _
  | setRegistry registry => exact .setRegistry registry
  | _ => exact .answer rfl nofun

theorem step_of_finished {parser : Parser} {s t : Store StoreOp} {op : StoreOp} {result : StoreResult}
    (h : s.handle parser op = .finished t result) : Step parser s op (.finished t result) := by
  rw [← h]
  exact step_handle parser s op

/-- An announcement starts a round, and touches nothing but the buffers being announced. -/
theorem announce_eq (buffer : BufferId) (s : Store StoreOp) (result : StoreResult) :
    ∃ announcing close, announce buffer s result =
        .announced buffer { s with announcing } close result ∧
      ∀ t, ∃ announcing, close t = { t with announcing } := by
  unfold announce
  split
  · exact ⟨_, _, rfl, fun t => ⟨_, rfl⟩⟩
  · exact ⟨s.announcing, id, rfl, fun t => ⟨t.announcing, rfl⟩⟩

/-- What starts a round is an install. -/
theorem step_announced {parser : Parser} {s opening : Store StoreOp} {op : StoreOp} {buffer : BufferId}
    {close : Store StoreOp → Store StoreOp} {result : StoreResult}
    (h : s.handle parser op = .announced buffer opening close result) :
    ∃ source grammar parsed announcing, s.Installs parser op buffer source grammar parsed ∧
      result = .tree (.ok parsed.tree) ∧
      opening = { s with shelf := s.shelf.install buffer grammar parsed, announcing } ∧
      ∀ t, ∃ announcing, close t = { t with announcing } := by
  have hstep := step_handle parser s op
  rw [h] at hstep
  cases hstep with
  | install installs announced =>
    obtain ⟨announcing, close', hannounce, hclose⟩ := announce_eq _ _ _
    rw [hannounce] at announced
    cases announced
    exact ⟨_, _, _, announcing, installs, rfl, rfl, hclose⟩

/-- The end of a round leaves the trees and the grammars alone. -/
theorem shelf_close {parser : Parser} {s opening : Store StoreOp} {op : StoreOp} {buffer : BufferId}
    {close : Store StoreOp → Store StoreOp} {result : StoreResult}
    (h : s.handle parser op = .announced buffer opening close result) (t : Store StoreOp) :
    (close t).shelf = t.shelf := by
  obtain ⟨-, -, -, -, -, -, -, hclose⟩ := step_announced h
  obtain ⟨announcing, ht⟩ := hclose t
  rw [ht]

theorem announce_ne_finished {buffer : BufferId} {s t : Store StoreOp} {result result' : StoreResult} :
    announce buffer s result ≠ .finished t result' := by
  obtain ⟨announcing, close, hannounce, -⟩ := announce_eq buffer s result
  rw [hannounce]
  exact nofun

end Store

theorem lawful_storeHost (parser : Parser) : (storeHost parser).Lawful where
  notifier_withNotifier _ _ := rfl
  finished := by
    intro s op t result h
    cases Store.step_of_finished h with
    | install _ announced => exact absurd announced Store.announce_ne_finished
    | _ => rfl
  announced := by
    intro s op buffer opening close result h
    obtain ⟨source, grammar, parsed, announcing, -, -, rfl, hclose⟩ := Store.step_announced h
    refine ⟨rfl, fun t => ?_⟩
    obtain ⟨announcing, ht⟩ := hclose t
    rw [ht]
    rfl

/-- A parser that reads every text as one node. -/
def Parser.plain : Parser where
  load _ := .ok ()
  parse _ text := some (.node ⟨"text", true, false, false, none, ⟨0, text.byteCount⟩, ⟨0, 0⟩, ⟨0, 0⟩⟩ [])
  compile _ _ := .ok []
  captures _ _ _ _ := []
  descendant? _ _ _ _ := none

namespace Store

theorem eq_of_isFailure {parser : Parser} {s t : Store StoreOp} {op : StoreOp} {result : StoreResult}
    (h : s.handle parser op = .finished t result) (hfailure : result.isFailure = true) : t = s := by
  cases step_of_finished h with
  | install _ announced => exact absurd announced announce_ne_finished
  | refuse => rfl
  | answer => rfl
  | untrack => cases hfailure
  | setRegistry => cases hfailure

/-- **A failed operation changes nothing.** In every state of the store, also in the middle of a round
and however deep rounds are nested, an operation whose outcome is an error leaves the whole store as it
was: the trees and the stamps that order them, the grammars, the options, the observers and the buffers
being announced. And it calls no observer. -/
theorem failure_atomic (parser : Parser) (depth : Nat) (s : Store StoreOp) (op : StoreOp)
    (result : StoreResult)
    (houtcome : ((storeHost parser).actUpTo depth s (.perform op)).2.outcome = .done result)
    (hfailure : result.isFailure = true) :
    (storeHost parser).actUpTo depth s (.perform op) =
      (s, .mk (.perform op) (.done result) []) := by
  have hstep : ∃ act, (storeHost parser).actUpTo depth = (storeHost parser).step act := by
    cases depth with
    | zero => exact ⟨Host.idle, rfl⟩
    | succ depth => exact ⟨_, rfl⟩
  obtain ⟨act, hact⟩ := hstep
  -- What runs the actions of observers does not matter, because no round is started.
  rw [hact] at houtcome ⊢
  cases heffect : (storeHost parser).handle s op with
  | finished t result' =>
    simp only [Host.step, heffect] at houtcome ⊢
    cases houtcome
    rw [eq_of_isFailure heffect hfailure]
  | announced buffer opening close result' =>
    simp only [Host.step, heffect] at houtcome
    cases houtcome
    obtain ⟨source, grammar, parsed, announcing, -, hresult, -, -⟩ := step_announced heffect
    rw [hresult] at hfailure
    cases hfailure

/-- Of two changes to a tracked and observed buffer the first can be replayed and the second cannot. -/
theorem failure_atomic_second_change :
    let registry := (Registry.withScopes ScopeTable.empty).register "text" ⟨"text"⟩
    let host := storeHost Parser.plain
    let s := (host.run (Store.empty registry ⟨true, some 1⟩)
      [.subscribe "reader" [], .perform (.track 1 "text" [0x61, 0x62])]).1
    let action := .perform (.updateWithChanges 1 [⟨0, ['a'], ['c']⟩, ⟨1, ['x'], []⟩] [0x63])
    let result := .tree (.error (.invalidEdit (.deletedTextMismatch 1)))
    (host.act s action).2.outcome = .done result ∧ result.isFailure = true ∧
      host.act s action = (s, .mk action (.done result) []) := by
  intro registry host s action result
  have houtcome : (host.act s action).2.outcome = .done result := rfl
  exact ⟨houtcome, rfl, failure_atomic Parser.plain _ s _ result houtcome rfl⟩

end Store

end LiveSyntax
