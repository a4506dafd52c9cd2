import LiveSyntax.Proofs.Moments
import LiveSyntax.Proofs.StoreHistory

/-!
# Rounds about different buffers

An observer that is told about a buffer may use the store again, and so rounds nest. In debug mode the
store keeps a list of the buffers that are being announced, and installs nothing for them. So the list is
a copy of the stack of rounds in progress: every round is about another buffer, and until it ends its
buffer has the tree that the round is about, or none.

The tie between list and stack is an invariant of single steps. That an operation leaves the list as it
found it follows, because the stack is the same again when the operation has returned.

## Main definitions

- `Store.Asks`: an operation comes to ask for a new tree of a buffer.
- `Store.Opens`: how a round of a store in debug mode begins and ends.
- `Store.Exclusive`: what the rounds in progress say about the store.

## Main results

- `Store.Exclusive.next`: every step keeps `Store.Exclusive`.
- `Store.rounds_exclusive`: what this says of the moments of a run.
-/

namespace LiveSyntax

namespace Store

variable {parser : Parser}

/-- An operation comes to ask for a new tree of a buffer. One that is already there need not be asked for. -/
def Asks (s : Store StoreOp) (buffer : BufferId) : StoreOp → Prop
  | .track b _ _ => b = buffer
  | .update b _ _ => b = buffer
  | .updateWithChanges b _ _ => b = buffer
  | .getOrTrack b grammar source => b = buffer ∧ s.shelf.hit? b grammar source = none
  | _ => False

/-- A buffer that is being announced gets no new tree. -/
theorem handle_of_asks {s : Store StoreOp} {buffer : BufferId} {op : StoreOp}
    (hdebug : s.shelf.options.debug = true) (hannouncing : buffer ∈ s.announcing)
    (hasks : s.Asks buffer op) :
    s.handle parser op = .finished s (.tree (.error (.reentrant buffer))) := by
  have hcheck : s.checkReentrant buffer = .error (.reentrant buffer) :=
    if_pos ⟨hdebug, hannouncing⟩
  have hcommit : ∀ parse, commit buffer s (s.guarded buffer parse) =
      .finished s (.tree (.error (.reentrant buffer))) := by
    intro parse
    rw [guarded, hcheck]
    rfl
  cases op with
  | track b grammar source =>
    obtain rfl := hasks
    exact hcommit _
  | update b edit source =>
    obtain rfl := hasks
    exact hcommit _
  | updateWithChanges b changes source =>
    obtain rfl := hasks
    exact hcommit _
  | getOrTrack b grammar source =>
    obtain ⟨rfl, hmiss⟩ := hasks
    simp only [handle, hmiss]
    exact hcommit _
  | _ => exact hasks.elim

/-- How a round of a store in debug mode begins and ends. -/
structure Opens (round : (storeHost parser).Round) (e : Entry) : Prop where
  free : round.buffer ∉ round.before.announcing
  announcing : round.opening.announcing = round.buffer :: round.before.announcing
  options : round.opening.shelf.options = round.before.shelf.options
  others : ∀ {buffer f}, buffer ≠ round.buffer → round.opening.shelf.entryOf? buffer = some f →
    round.before.shelf.entryOf? buffer = some f
  entry : round.opening.shelf.entryOf? round.buffer = some e
  stamp : e.stamp = round.before.shelf.clock
  result : round.result = .tree (.ok e.parsed.tree)
  close : ∀ t, round.close t = { t with announcing := t.announcing.erase round.buffer }

/-- **The opening of a round** is an install for a buffer that was not being announced. -/
theorem exists_opens (round : (storeHost parser).Round)
    (hdebug : round.before.shelf.options.debug = true) : ∃ e, Opens round e := by
  obtain ⟨before, op, buffer, opening, close, result, heffect⟩ := round
  have hstep := step_handle parser before op
  rw [show before.handle parser op = .announced buffer opening close result from heffect] at hstep
  cases hstep with
  | @install _ b source grammar parsed _ installs announced =>
    have hfree : b ∉ before.announcing := by
      intro hmem
      have hcheck := installs.free
      rw [checkReentrant, if_pos ⟨hdebug, hmem⟩] at hcheck
      cases hcheck
    rw [announce, if_pos ⟨hdebug, hfree⟩] at announced
    cases announced
    refine ⟨⟨buffer, grammar, parsed, before.shelf.clock⟩, hfree, rfl, rfl, ?_, ?_, rfl, rfl,
      fun t => rfl⟩
    · intro other f hne hf
      rcases Shelf.entry_of_install hf with ⟨hsame, -⟩ | ⟨-, hold⟩
      · exact absurd hsame hne
      · exact hold
    · exact Shelf.entryOf?_install_self _ _ _ _

/-- What the rounds in progress say about the store: it is in debug mode and lists their buffers, these
are all different, and no buffer has another tree than the one that its round is about. -/
structure Exclusive (s : Store StoreOp) (rounds : List (storeHost parser).Round) : Prop where
  debug : s.shelf.options.debug = true
  announcing : s.announcing = rounds.map (·.buffer)
  nodup : (rounds.map (·.buffer)).Nodup
  current : ∀ round ∈ rounds, ∃ e, Opens round e ∧
    ∀ f, s.shelf.entryOf? round.buffer = some f → f = e

variable {s t : Store StoreOp} {rounds : List (storeHost parser).Round}

/-- Trees may go while rounds are in progress. -/
theorem Exclusive.of_subset (h : Exclusive s rounds) (hoptions : t.shelf.options = s.shelf.options)
    (hannouncing : t.announcing = s.announcing)
    (hentries : ∀ buffer e, t.shelf.entryOf? buffer = some e → s.shelf.entryOf? buffer = some e) :
    Exclusive t rounds := by
  refine ⟨by rw [hoptions, h.debug], by rw [hannouncing, h.announcing], h.nodup, ?_⟩
  intro round hround
  obtain ⟨e, hopens, hcurrent⟩ := h.current round hround
  exact ⟨e, hopens, fun f hf => hcurrent f (hentries _ f hf)⟩

/-- An operation that starts no round leaves the list alone, and brings no tree. -/
theorem Exclusive.finished (h : Exclusive s rounds) {op : StoreOp} {result : StoreResult}
    (heffect : s.handle parser op = .finished t result) : Exclusive t rounds := by
  cases step_of_finished heffect with
  | install _ announced => exact absurd announced announce_ne_finished
  | refuse => exact h
  | answer => exact h
  | untrack buffer removed => exact h.of_subset rfl rfl fun _ _ he => Shelf.entry_of_untrack he
  | setRegistry registry => exact h.of_subset rfl rfl fun _ _ he => Shelf.entry_of_setRegistry he

/-- A round is about a buffer that no round in progress is about. -/
theorem Exclusive.opening {round : (storeHost parser).Round} (h : Exclusive round.before rounds) :
    Exclusive round.opening (round :: rounds) := by
  obtain ⟨e, hopens⟩ := exists_opens round h.debug
  have hfree : round.buffer ∉ rounds.map (·.buffer) := by
    rw [← h.announcing]
    exact hopens.free
  refine ⟨by rw [hopens.options, h.debug], ?_, ?_, ?_⟩
  · rw [hopens.announcing, h.announcing, List.map_cons]
  · exact List.nodup_cons.mpr ⟨hfree, h.nodup⟩
  · intro other hother
    rcases List.mem_cons.mp hother with rfl | houter
    · refine ⟨e, hopens, fun f hf => ?_⟩
      rw [hopens.entry] at hf
      exact (Option.some.inj hf).symm
    · obtain ⟨e', hopens', hcurrent⟩ := h.current other houter
      refine ⟨e', hopens', fun f hf => hcurrent f (hopens.others ?_ hf)⟩
      intro hsame
      exact hfree (List.mem_map.mpr ⟨other, houter, hsame⟩)

/-- A round that ends takes its buffer, which is the first one, off the list. -/
theorem Exclusive.close {round : (storeHost parser).Round} (h : Exclusive s (round :: rounds)) :
    Exclusive (round.close s) rounds := by
  obtain ⟨e, hopens, -⟩ := h.current round List.mem_cons_self
  rw [hopens.close]
  refine ⟨h.debug, ?_, (List.nodup_cons.mp h.nodup).2, ?_⟩
  · change s.announcing.erase round.buffer = _
    rw [h.announcing, List.map_cons, List.erase_cons_head]
  · intro other hother
    exact h.current other (List.mem_cons_of_mem _ hother)

/-- **Every step of a run** keeps the list and the stack of rounds the same. -/
theorem Exclusive.next {m m' : (storeHost parser).Moment} (hnext : Host.Moment.Next m m')
    (h : Exclusive m.state m.rounds) : Exclusive m'.state m'.rounds := by
  cases hnext with
  | subscribe joined => exact h.of_subset rfl rfl fun _ _ he => he
  | unsubscribe left => exact h.of_subset rfl rfl fun _ _ he => he
  | finished effect => exact h.finished effect
  | announced round => exact h.opening
  | call => exact h.of_subset rfl rfl fun _ _ he => he
  | returned => exact h
  | closed => exact h.close

theorem Exclusive.steps {m m' : (storeHost parser).Moment}
    (hsteps : Relation.ReflTransGen Host.Moment.Next m m') (h : Exclusive m.state m.rounds) :
    Exclusive m'.state m'.rounds := by
  induction hsteps with
  | refl => exact h
  | tail _ hnext ih => exact ih.next hnext

theorem exclusive_empty (registry : Registry) {options : StoreOptions} (hdebug : options.debug = true) :
    Exclusive (Store.empty registry options) ([] : List (storeHost parser).Round) :=
  ⟨hdebug, rfl, List.nodup_nil, fun _ hround => absurd hround List.not_mem_nil⟩

/-- **Rounds in progress exclude each other.** Take any moment of any run of a store in debug mode.
An operation that asks for a new tree of a buffer with a round in progress is refused as reentrant; it
changes nothing and calls nobody. No two rounds in progress are about the same buffer. The buffer of a
round has the entry that was installed when the round began, or none. And the list of the buffers being
announced is that of the rounds in progress, so it is empty outside of rounds; whatever action comes
next, with all the rounds that it brings about, leaves that list as it was. -/
theorem rounds_exclusive (parser : Parser) (registry : Registry) (options : StoreOptions)
    (hdebug : options.debug = true) (actions : List (Action StoreOp)) (m : (storeHost parser).Moment)
    (hm : (storeHost parser).Reaches (Store.empty registry options) actions m) :
    (∀ round ∈ m.rounds, ∀ op, m.state.Asks round.buffer op →
      (storeHost parser).act m.state (.perform op) =
        (m.state, .mk (.perform op) (.done (.tree (.error (.reentrant round.buffer)))) [])) ∧
    (m.rounds.map (·.buffer)).Nodup ∧
    (∀ round ∈ m.rounds, ∃ e, round.opening.shelf.entryOf? round.buffer = some e ∧
      e.stamp = round.before.shelf.clock ∧ round.result = .tree (.ok e.parsed.tree) ∧
      (m.state.shelf.entryOf? round.buffer = some e ∨ m.state.shelf.entryOf? round.buffer = none)) ∧
    m.state.announcing = m.rounds.map (·.buffer) ∧
    (∀ action, ((storeHost parser).act m.state action).1.announcing = m.state.announcing) := by
  have h : Exclusive m.state m.rounds := (exclusive_empty registry hdebug).steps hm
  refine ⟨?_, h.nodup, ?_, h.announcing, ?_⟩
  · intro round hround op hasks
    refine Host.act_of_finished (handle_of_asks h.debug ?_ hasks)
    rw [h.announcing]
    exact List.mem_map.mpr ⟨round, hround, rfl⟩
  · intro round hround
    obtain ⟨e, hopens, hcurrent⟩ := h.current round hround
    refine ⟨e, hopens.entry, hopens.stamp, hopens.result, ?_⟩
    cases hentry : m.state.shelf.entryOf? round.buffer with
    | none => exact .inr rfl
    | some f => exact .inl (by rw [hcurrent f hentry])
  · -- The action takes the same stack of rounds from the moment before it to the moment after it.
    intro action
    have hacts := (lawful_storeHost parser).acts_act m.state action
    have hafter := Exclusive.steps (hacts.reaches m.past [] m.tasks) h
    rw [hafter.announcing, h.announcing]
    rfl

/-- Told about a buffer, an observer tracks a second one. In the round about the second buffer, the first
one is still refused. -/
theorem rounds_exclusive_two_rounds :
    let registry := (Registry.withScopes ScopeTable.empty).register "text" ⟨"text"⟩
    let host := storeHost Parser.plain
    let actions : List (Action StoreOp) :=
      [.subscribe "reader" [[.perform (.track 2 "text" [0x62])]], .perform (.track 1 "text" [0x61])]
    let again : StoreOp := .updateWithChanges 1 [] [0x61]
    ∃ m : host.Moment, host.Reaches (Store.empty registry ⟨true, some 1⟩) actions m ∧
      m.rounds.map (·.buffer) = [2, 1] ∧ m.state.announcing = [2, 1] ∧
      host.act m.state (.perform again) =
        (m.state, .mk (.perform again) (.done (.tree (.error (.reentrant 1)))) []) := by
  intro registry host actions again
  obtain ⟨m, hm, hrounds⟩ : ∃ m : host.Moment,
      host.Reaches (Store.empty registry ⟨true, some 1⟩) actions m ∧
        m.rounds.map (·.buffer) = [2, 1] := by
    let start := host.withNotifier (Store.empty registry ⟨true, some 1⟩)
      (Notifier.empty.subscribe ⟨"reader", [[.perform (.track 2 "text" [0x62])]]⟩).1
    let first : host.Round := ⟨start, .track 1 "text" [0x61], 1, _, _, _, rfl⟩
    let called := host.withNotifier first.opening ((host.notifier first.opening).takeScript 0).1
    let second : host.Round := ⟨called, .track 2 "text" [0x62], 2, _, _, _, rfl⟩
    exact ⟨_, .tail (.tail (.tail (.single (.subscribe rfl)) (.announced first)) .call)
      (.announced second), rfl⟩
  obtain ⟨hrefused, -, -, hannouncing, -⟩ :=
    rounds_exclusive Parser.plain registry ⟨true, some 1⟩ rfl actions m hm
  have hmem : 1 ∈ m.rounds.map (·.buffer) := by
    rw [hrounds]
    decide
  obtain ⟨round, hround, hbuffer⟩ := List.mem_map.mp hmem
  have hact := hrefused round hround again hbuffer.symm
  rw [hbuffer] at hact
  exact ⟨m, hm, hrounds, hannouncing.trans hrounds, hact⟩

end Store

end LiveSyntax
