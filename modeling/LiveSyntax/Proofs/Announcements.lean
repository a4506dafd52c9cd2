import LiveSyntax.Proofs.Deliveries
import LiveSyntax.Proofs.Recency
import LiveSyntax.Proofs.Reentrancy

/-!
# One round for each install

The outcome of an operation shows whether it installed a tree. If it did, the registered observers were
told about the buffer, each of them once, and the round began with the tree already in place. If it did
not, nobody was told anything: neither by an operation that failed, nor by one that found the tree it
asked for, nor when trees go because they were dropped or have lost their grammar.

Observers may join, leave and install trees while they are being told. So all of this is said of every
action of a run, at every depth, and of the calls of the run taken together.

## Main definitions

- `Store.installed?`: the buffer that an action installed a tree for.
- `Store.Announces`: how the round of an install begins.

## Main results

- `Store.tells_storeHost`: exactly the installs start rounds.
- `Store.one_round_per_install`: the calls of a run are those of its installs.
-/

namespace LiveSyntax

namespace Store

variable {parser : Parser}

/-- The buffer that an action installed a tree for, read off its outcome. -/
def installed? : Action StoreOp × Outcome StoreResult → Option BufferId
  | (.perform op, .done (.tree (.ok _))) => op.request?.map (·.1)
  | _ => none

theorem installed?_of_quiet {op : StoreOp} {result : StoreResult} (hquiet : result.isTree = false) :
    installed? (.perform op, .done result) = none := by
  cases result with
  | tree outcome => cases hquiet
  | _ => rfl

/-- **Exactly the installs start rounds.** -/
theorem tells_storeHost (parser : Parser) : (storeHost parser).Tells installed? where
  subscribed _ _ _ := rfl
  unsubscribed _ _ := rfl
  finished := by
    intro s op t result heffect
    cases step_of_finished heffect with
    | install _ announced => exact absurd announced announce_ne_finished
    | answer quiet => exact installed?_of_quiet quiet
    | _ => rfl
  announced := by
    intro s op buffer opening close result heffect
    obtain ⟨source, grammar, parsed, announcing, hinstalls, rfl, -, -⟩ := step_announced heffect
    obtain ⟨named, hrequest, -⟩ := hinstalls.request
    simp [installed?, hrequest]

theorem buffer_of_commit {s opening : Store StoreOp} {b buffer : BufferId}
    {outcome : Except BufferError (String × Parsed)} {close : Store StoreOp → Store StoreOp} {result : StoreResult}
    (h : commit b s outcome = .announced buffer opening close result) : b = buffer := by
  cases outcome with
  | error e => cases h
  | ok parsed =>
    obtain ⟨announcing, close', hannounce, -⟩ := announce_eq b
      { s with shelf := s.shelf.install b parsed.1 parsed.2 } (.tree (.ok parsed.2.tree))
    cases hannounce.symm.trans h
    rfl

/-- Whatever starts a round asked for a tree that was not there. -/
theorem asks_of_announced {s opening : Store StoreOp} {op : StoreOp} {buffer : BufferId}
    {close : Store StoreOp → Store StoreOp} {result : StoreResult}
    (h : s.handle parser op = .announced buffer opening close result) : s.Asks buffer op := by
  cases op with
  | track b grammar source => exact buffer_of_commit h
  | update b edit source => exact buffer_of_commit h
  | updateWithChanges b changes source => exact buffer_of_commit h
  | getOrTrack b grammar source =>
    cases hhit : s.shelf.hit? b grammar source with
    | some tree => simp [handle, hhit] at h
    | none =>
      simp only [handle, hhit] at h
      exact ⟨buffer_of_commit h, hhit⟩
  | _ => cases h

/-- How the round of an install begins. The operation asked for the tree and got it; when the round opens,
the tree is in place and no more trees are left than the bound admits; those who are then registered are
called; and the first of them finds the new tree. -/
structure Announces (parser : Parser) (s opening : Store StoreOp) (buffer : BufferId) (tree : Tree)
    (report : Report StoreOp StoreResult (Option Nat)) : Prop where
  asked : ∃ op close, report.action = .perform op ∧ s.Asks buffer op ∧
    s.handle parser op = .announced buffer opening close (.tree (.ok tree))
  outcome : report.outcome = .done (.tree (.ok tree))
  placed : ∃ grammar parsed, parsed.tree = tree ∧
    opening.shelf = s.shelf.install buffer grammar parsed
  current : opening.shelf.tree? buffer = some tree
  bounded : ∀ bound, opening.shelf.options.maxTrees = some bound →
    opening.shelf.entries.size ≤ max bound 1
  called : report.calls.map Call.observer = opening.notifier.registered
  seen : ∀ first ∈ report.calls.head?, first.seen = some tree.sourceLength
  read : ∀ first ∈ report.calls.head?, ∀ reading ∈ first.reports.head?,
    reading.action = .perform (.get buffer) → reading.outcome = .done (.current (some tree))

theorem outcome_of_get {s t : Store StoreOp} {action : Action StoreOp} {buffer : BufferId}
    {report : Report StoreOp StoreResult (Option Nat)}
    (hacts : (storeHost parser).Acts s action t report)
    (hget : report.action = .perform (.get buffer)) :
    report.outcome = .done (.current (s.shelf.tree? buffer)) := by
  cases hacts with
  | finished effect =>
    cases hget
    cases effect
    rfl
  | announced effect =>
    cases hget
    cases effect
  | _ => cases hget

theorem outcome_of_first_get {s t : Store StoreOp} {actions : List (Action StoreOp)} {buffer : BufferId}
    {reports : List (Report StoreOp StoreResult (Option Nat))}
    {reading : Report StoreOp StoreResult (Option Nat)}
    (hacts : (storeHost parser).ActsAll s actions t reports) (hreading : reading ∈ reports.head?)
    (hget : reading.action = .perform (.get buffer)) :
    reading.outcome = .done (.current (s.shelf.tree? buffer)) := by
  cases hacts with
  | nil => simp at hreading
  | cons first rest =>
    obtain rfl := Option.some.inj hreading
    exact outcome_of_get first hget

/-- The first observer of a round sees the state in which the round opens. -/
theorem first_of_calls {buffer : BufferId} {s t : Store StoreOp} {ids : List Nat}
    {calls : List (Call StoreOp StoreResult (Option Nat))}
    (hcalls : (storeHost parser).Calls buffer s ids t calls)
    {first : Call StoreOp StoreResult (Option Nat)} (hfirst : first ∈ calls.head?) :
    first.seen = (s.shelf.tree? buffer).map (·.sourceLength) ∧
      ∀ reading ∈ first.reports.head?, reading.action = .perform (.get buffer) →
        reading.outcome = .done (.current (s.shelf.tree? buffer)) := by
  cases hcalls with
  | nil => simp at hfirst
  | cons acts rest =>
    obtain rfl := Option.some.inj hfirst
    refine ⟨rfl, fun reading hreading hget => ?_⟩
    -- To take the next actions of an observer changes the notifier only, and no tree.
    have hread := outcome_of_first_get acts hreading hget
    exact hread

theorem exists_announces {s t : Store StoreOp} {bound : Option Nat} {r : Recency} {action : Action StoreOp}
    {report : Report StoreOp StoreResult (Option Nat)} {buffer : BufferId}
    (hacts : (storeHost parser).Acts s action t report) (horder : s.shelf.InOrder bound r)
    (hinstalled : installed? (report.action, report.outcome) = some buffer) :
    ∃ opening tree, Announces parser s opening buffer tree report := by
  have htells := tells_storeHost parser
  cases hacts with
  | subscribe => cases hinstalled
  | unsubscribe => cases hinstalled
  | finished effect =>
    rw [Report.action, Report.outcome, htells.finished effect] at hinstalled
    cases hinstalled
  | @announced _ opening _ _ op told close _ calls effect round closed =>
    rw [Report.action, Report.outcome, htells.announced effect] at hinstalled
    obtain rfl : told = buffer := Option.some.inj hinstalled
    have hasks := asks_of_announced effect
    obtain ⟨source, grammar, parsed, announcing, -, rfl, rfl, -⟩ := step_announced effect
    have htree : (s.shelf.install told grammar parsed).tree? told = some parsed.tree := by
      rw [Shelf.tree?, Shelf.entryOf?_install_self, Option.map_some]
    refine ⟨_, parsed.tree, ⟨op, close, rfl, hasks, effect⟩, rfl, ⟨grammar, parsed, rfl, rfl⟩, htree,
      (horder.install told grammar parsed).size_le, ?_, fun first hfirst => ?_,
      fun first hfirst => ?_⟩
    · have haddresses := congrArg (List.map Prod.fst) round.addresses
      simpa [Function.comp_def, Call.address, Report.calls, storeHost] using haddresses
    · rw [(first_of_calls round hfirst).1, htree, Option.map_some]
    · have hread := (first_of_calls round hfirst).2
      rwa [htree] at hread

/-- **One round for each install.** Take any run from an empty store, with observers that join, leave and
use the store from inside rounds, and any action of it, at any depth. If the action installed no tree,
nobody was called: it failed, or it asked for no tree, as when it found the tree, dropped one, took other
grammars or only read. If it installed a tree, then exactly the observers that had joined and not left
were called, each once and in the order in which they joined, all about its buffer, in a round that began
with the tree in place. And the calls of the whole run are those of its installs, one for one. -/
theorem one_round_per_install (parser : Parser) (registry : Registry) (options : StoreOptions)
    (actions : List (Action StoreOp)) :
    let reports := ((storeHost parser).run (Store.empty registry options) actions).2
    (∀ spot ∈ Report.spotsAll [] reports, ∃ m : (storeHost parser).Moment,
      (storeHost parser).Reaches (Store.empty registry options) actions m ∧ m.Foresees spot ∧
      (installed? spot.entry = none → spot.report.calls = []) ∧
      (∀ op, spot.report.action = .perform op → (∀ buffer, ¬ m.state.Asks buffer op) →
        installed? spot.entry = none) ∧
      (∀ buffer, installed? spot.entry = some buffer →
        spot.report.calls.map Call.observer = Roster.ofPast spot.past ∧
        (Roster.ofPast spot.past).Pairwise (· < ·) ∧
        (∀ call ∈ spot.report.calls, call.buffer = buffer) ∧
        ∃ opening tree, Announces parser m.state opening buffer tree spot.report)) ∧
    (Report.deliveriesAll reports).Perm ((Report.spotsAll [] reports).flatMap fun spot =>
      Report.due installed? (Roster.ofPast spot.past) spot.entry) := by
  intro reports
  have hlawful := lawful_storeHost parser
  have htells := tells_storeHost parser
  refine ⟨fun spot hspot => ?_, hlawful.deliveries_perm_due htells rfl actions⟩
  obtain ⟨m, hm, hforesees⟩ := hlawful.exists_foresees hspot
  obtain ⟨t, hacts⟩ := hforesees.acts
  have horder := (follows_inOrder parser options.maxTrees).reaches
    (Shelf.inOrder_empty registry options) hm
  have hcalls := hlawful.calls_eq_due htells rfl hspot
  refine ⟨m, hm, hforesees, fun hnone => ?_, fun op hop hasks => ?_, fun buffer hbuffer => ?_⟩
  · rw [Report.due, hnone] at hcalls
    exact List.map_eq_nil_iff.mp hcalls
  · refine Option.eq_none_iff_forall_ne_some.mpr fun buffer hbuffer => ?_
    obtain ⟨opening, tree, hannounces⟩ := exists_announces hacts horder hbuffer
    obtain ⟨asking, close, hasking, hasked, -⟩ := hannounces.asked
    obtain rfl : op = asking := Action.perform.inj (hop.symm.trans hasking)
    exact hasks buffer hasked
  · rw [Report.due, hbuffer] at hcalls
    refine ⟨?_, ?_, fun call hcall => ?_, exists_announces hacts horder hbuffer⟩
    · have hobservers := congrArg (List.map Prod.fst) hcalls
      simpa [Function.comp_def, Call.address] using hobservers
    · rw [← hforesees.past]
      exact (hlawful.keeps_roster rfl hm).increasing
    · have haddress : call.address ∈ spot.report.calls.map Call.address :=
        List.mem_map_of_mem hcall
      rw [hcalls] at haddress
      obtain ⟨id, -, hid⟩ := List.mem_map.mp haddress
      exact (congrArg Prod.snd hid).symm

/-- The observer that is told of the first tree reads it, has another one join and installs a second tree.
The newcomer is told of the second tree, but not of the first, whose round had begun. -/
theorem one_round_per_install_nested :
    let registry := (Registry.withScopes ScopeTable.empty).register "text" ⟨"text"⟩
    let actions : List (Action StoreOp) :=
      [.subscribe "reader"
          [[.perform (.get 1), .subscribe "late" [], .perform (.track 2 "text" [0x62])]],
        .subscribe "other" [], .perform (.track 1 "text" [0x61])]
    let reports := ((storeHost Parser.plain).run (Store.empty registry ⟨true, none⟩) actions).2
    (∃ outer ∈ Report.spotsAll [] reports, installed? outer.entry = some 1 ∧
      outer.report.calls.map Call.observer = [0, 1]) ∧
    (∃ inner ∈ Report.spotsAll [] reports, installed? inner.entry = some 2 ∧
      inner.report.calls.map Call.observer = [0, 1, 2]) ∧
    (∃ get ∈ Report.spotsAll [] reports, installed? get.entry = none ∧ get.report.calls = []) ∧
    (Report.deliveriesAll reports).Perm [(0, 1), (1, 1), (0, 2), (1, 2), (2, 2)] := by
  intro registry actions reports
  obtain ⟨hspots, hdeliveries⟩ :=
    one_round_per_install Parser.plain registry ⟨true, none⟩ actions
  obtain ⟨outer, houter, hfirst, hbefore⟩ : ∃ outer ∈ Report.spotsAll [] reports,
      installed? outer.entry = some 1 ∧ Roster.ofPast outer.past = [0, 1] := by
    decide +kernel
  obtain ⟨inner, hinner, hsecond, hnested⟩ : ∃ inner ∈ Report.spotsAll [] reports,
      installed? inner.entry = some 2 ∧ Roster.ofPast inner.past = [0, 1, 2] := by
    decide +kernel
  obtain ⟨get, hget, hquiet⟩ : ∃ get ∈ Report.spotsAll [] reports,
      installed? get.entry = none := by
    decide +kernel
  have hdue : ((Report.spotsAll [] reports).flatMap fun spot =>
      Report.due installed? (Roster.ofPast spot.past) spot.entry) =
      [(0, 1), (1, 1), (0, 2), (1, 2), (2, 2)] := by
    decide +kernel
  refine ⟨⟨outer, houter, hfirst, ?_⟩, ⟨inner, hinner, hsecond, ?_⟩,
    ⟨get, hget, hquiet, ?_⟩, hdue ▸ hdeliveries⟩
  · obtain ⟨m, -, -, -, -, hround⟩ := hspots outer houter
    rw [(hround 1 hfirst).1, hbefore]
  · obtain ⟨m, -, -, -, -, hround⟩ := hspots inner hinner
    rw [(hround 2 hsecond).1, hnested]
  · obtain ⟨-, -, -, hnone, -⟩ := hspots get hget
    exact hnone hquiet

end Store

end LiveSyntax
