import LiveSyntax.Notify.Signal
import LiveSyntax.Proofs.Deliveries

/-!
# Rounds are snapshots

A round calls those who are registered when it begins. Until it is over they may leave, others may join
with them or in their stead, and further rounds may come and go inside of it; none of this adds a call to
the round, takes one away or moves it. What makes this work is that numbers are never given twice: the
list of observers stays sorted, and one who has left does not come back under the same number.

All of this is said of a notifier on its own, at every moment of every run.

## Main definitions

- `Notifier.issued?`, `Notifier.leaver?`: the number that an action gave out, or took back.
- `Notifier.Accounts`: the numbers of a notifier agree with what has happened.
- `Notifier.notified?`: the buffer that an action starts a round about.

## Main results

- `Host.Lawful.accounts`: the numbers agree at every moment of a run.
- `Notifier.rounds_are_snapshots`: who is called by a round, and who can leave.
-/

namespace LiveSyntax

namespace Notifier

variable {α β : Type}

/-- The number that an action gave to a new observer. -/
def issued? : Action α × Outcome β → Option Nat
  | (_, .subscribed id) => some id
  | _ => none

/-- The number of the observer that an action removed. -/
def leaver? : Action α × Outcome β → Option Nat
  | (.unsubscribe id, .unsubscribed (some true)) => some id
  | _ => none

/-- Numbers have been given in order, and whoever left did so once, and is not registered any more. -/
structure Accounts (n : Notifier α) (past : List (Action α × Outcome β)) : Prop where
  issued : past.filterMap issued? = List.range n.observers.size
  left_once : (past.filterMap leaver?).Nodup
  left_gone : ∀ id ∈ past.filterMap leaver?, id < n.observers.size ∧ id ∉ n.registered

variable {n : Notifier α} {past : List (Action α × Outcome β)}

theorem accounts_empty : (empty : Notifier α).Accounts ([] : List (Action α × Outcome β)) :=
  ⟨rfl, .nil, by simp⟩

section Entry

variable {entry : Action α × Outcome β} {id : Nat}

theorem filterMap_of_none {f : Action α × Outcome β → Option Nat} (h : f entry = none) :
    (past ++ [entry]).filterMap f = past.filterMap f := by
  rw [List.filterMap_append, List.filterMap_cons_none h, List.filterMap_nil, List.append_nil]

theorem filterMap_of_some {f : Action α × Outcome β → Option Nat} (h : f entry = some id) :
    (past ++ [entry]).filterMap f = past.filterMap f ++ [id] := by
  rw [List.filterMap_append, List.filterMap_cons_some h, List.filterMap_nil]

/-- An action that gives no number and takes none back leaves the accounts. -/
theorem Accounts.quiet (h : n.Accounts past) (hissued : issued? entry = none)
    (hleaver : leaver? entry = none) : n.Accounts (past ++ [entry]) := by
  refine ⟨?_, ?_, ?_⟩
  · rw [filterMap_of_none hissued]
    exact h.issued
  · rw [filterMap_of_none hleaver]
    exact h.left_once
  · rw [filterMap_of_none hleaver]
    exact h.left_gone

end Entry

/-- A new observer gets a number that nobody had, and so nobody who left had it. -/
theorem Accounts.subscribe (h : n.Accounts past) (name : String) (script : Script α) :
    (n.subscribe ⟨name, script⟩).1.Accounts
      (past ++ [(.subscribe name script, .subscribed (n.subscribe ⟨name, script⟩).2)]) := by
  refine ⟨?_, ?_, ?_⟩
  · rw [filterMap_of_some rfl, h.issued]
    simp [Notifier.subscribe, List.range_succ]
  · rw [filterMap_of_none rfl]
    exact h.left_once
  · rw [filterMap_of_none rfl]
    intro id hid
    obtain ⟨hlt, hgone⟩ := h.left_gone id hid
    simp only [Notifier.subscribe, Array.size_push, List.mem_append, List.mem_singleton, not_or]
    exact ⟨by omega, hgone, by omega⟩

theorem Accounts.filter (h : n.Accounts past) (p : Nat → Bool) :
    ({ n with registered := n.registered.filter p } : Notifier α).Accounts past where
  issued := h.issued
  left_once := h.left_once
  left_gone id hid :=
    ⟨(h.left_gone id hid).1, fun hmem => (h.left_gone id hid).2 (List.mem_filter.mp hmem).1⟩

/-- One who leaves was registered, and so had not left before. -/
theorem Accounts.leave (h : n.Accounts past) {id : Nat} (hlt : id < n.observers.size)
    (hmem : id ∈ n.registered) :
    ({ n with registered := n.registered.filter (· != id) } : Notifier α).Accounts
      (past ++ [(.unsubscribe id, .unsubscribed (some true))]) := by
  have hkept := h.filter (· != id)
  have hnew : id ∉ past.filterMap leaver? := fun hleft => (h.left_gone id hleft).2 hmem
  refine ⟨?_, ?_, ?_⟩
  · rw [filterMap_of_none rfl]
    exact h.issued
  · rw [filterMap_of_some rfl]
    refine List.nodup_append.mpr ⟨h.left_once, List.pairwise_singleton _ id, ?_⟩
    intro other hother last hlast
    rw [List.mem_singleton.mp hlast]
    exact fun heq => hnew (heq ▸ hother)
  · rw [filterMap_of_some rfl]
    intro other hother
    rcases List.mem_append.mp hother with hold | hlast
    · exact hkept.left_gone other hold
    · rw [List.mem_singleton.mp hlast]
      exact ⟨hlt, by simp⟩

theorem Accounts.unsubscribe (h : n.Accounts past) (id : Nat) :
    (n.unsubscribe id).1.Accounts
      (past ++ [(.unsubscribe id, .unsubscribed (n.unsubscribe id).2)]) := by
  unfold Notifier.unsubscribe
  split
  · next hissued =>
    cases hcontains : n.registered.contains id with
    | true => exact h.leave (of_decide_eq_true hissued) (List.contains_iff_mem.mp hcontains)
    | false => exact (h.filter _).quiet rfl rfl
  · exact h.quiet rfl rfl

theorem Accounts.takeScript (h : n.Accounts past) (id : Nat) :
    (n.takeScript id).1.Accounts past := by
  unfold Notifier.takeScript
  split
  · exact h
  · split
    · exact h
    · exact ⟨by simpa using h.issued, h.left_once, by simpa using h.left_gone⟩

/-- One can leave exactly if one is registered; one who is not was told so, if the number was ever given. -/
theorem Keeps.unsubscribe_eq {r : Roster} (h : n.Keeps r) (id : Nat) :
    ((n.unsubscribe id).2 = some true ↔ id ∈ n.registered) ∧
      ((n.unsubscribe id).2 = some false ↔ id < n.observers.size ∧ id ∉ n.registered) := by
  have hissued : id ∈ n.registered → id < n.observers.size := by
    rw [h.registered]
    exact h.issued id
  unfold Notifier.unsubscribe isIssued
  by_cases hlt : id < n.observers.size
  · simp [hlt]
  · simp [hlt, mt hissued hlt]

end Notifier

namespace Host

variable {σ α β γ : Type} {h : Host σ α β γ}

/-- Every step of a lawful host, at every depth of rounds, keeps the accounts. -/
theorem Lawful.follows_accounts (hlawful : h.Lawful) :
    h.Follows (fun past entry => past ++ [entry]) fun s past => (h.notifier s).Accounts past where
  subscribe := by
    intro s past name script n id hjoined haccounts
    have hnext := haccounts.subscribe name script
    rw [hjoined] at hnext
    rwa [hlawful.notifier_withNotifier]
  unsubscribe := by
    intro s past id n wasRegistered hleft haccounts
    have hnext := haccounts.unsubscribe id
    rw [hleft] at hnext
    rwa [hlawful.notifier_withNotifier]
  take haccounts := by
    rw [hlawful.notifier_withNotifier]
    exact haccounts.takeScript _
  finished heffect haccounts := by
    rw [hlawful.finished heffect]
    exact haccounts.quiet rfl rfl
  opening heffect haccounts := by
    rw [(hlawful.announced heffect).1]
    exact haccounts.quiet rfl rfl
  close heffect haccounts := by
    rw [(hlawful.announced heffect).2]
    exact haccounts

theorem Lawful.accounts (hlawful : h.Lawful) {s : σ} {actions : List (Action α)} {m : h.Moment}
    (hs : h.notifier s = .empty) (hm : h.Reaches s actions m) :
    (h.notifier m.state).Accounts m.past := by
  have hkept := hlawful.follows_accounts.reaches (w := []) (by rw [hs]; exact Notifier.accounts_empty) hm
  rwa [List.foldl_append_eq_append, List.nil_append, ← List.flatMap_def,
    List.flatMap_singleton'] at hkept

theorem Acts.outcome_of_unsubscribe {s t : σ} {action : Action α} {report : Report α β γ}
    (hacts : h.Acts s action t report) {id : Nat} (hid : report.action = .unsubscribe id) :
    report.outcome = .unsubscribed ((h.notifier s).unsubscribe id).2 := by
  cases hacts with
  | unsubscribe left =>
    cases hid
    rw [left]
    rfl
  | _ => cases hid

end Host

namespace Notifier

theorem lawful_signalHost : signalHost.Lawful where
  notifier_withNotifier _ _ := rfl
  finished := by
    intro n op t result h
    cases op with
    | notify buffer => cases h
    | size => cases h; rfl
  announced := by
    intro n op buffer opening close result h
    cases op with
    | notify told => cases h; exact ⟨rfl, fun _ => rfl⟩
    | size => cases h

/-- The buffer that an action starts a round about. -/
def notified? : Action Signal × Outcome SignalResult → Option BufferId
  | (.perform (.notify buffer), _) => some buffer
  | _ => none

theorem tells_signalHost : signalHost.Tells notified? where
  subscribed _ _ _ := rfl
  unsubscribed _ _ := rfl
  finished := by
    intro n op t result h
    cases op with
    | notify buffer => cases h
    | size => rfl
  announced := by
    intro n op buffer opening close result h
    cases op with
    | notify told => cases h; rfl
    | size => cases h

/-- **Rounds are snapshots.** At every moment of every run of a notifier, however deep in rounds it lies, the
registered observers are those who joined and did not leave, sorted by their numbers. Over the run, no
number is given twice, and nobody leaves twice. Every action that starts a round, at any depth, calls
exactly those who are registered when it begins, each once and in the order of their numbers; no other
action calls anybody. And to unsubscribe says that the observer was registered exactly if it is. -/
theorem rounds_are_snapshots (actions : List (Action Signal)) :
    let reports := (signalHost.run Notifier.empty actions).2
    (∀ m, signalHost.Reaches Notifier.empty actions m →
      m.state.registered = Roster.ofPast m.past ∧ m.state.registered.Pairwise (· < ·)) ∧
    ((Report.timelineAll reports).filterMap issued?).Nodup ∧
    ((Report.timelineAll reports).filterMap leaver?).Nodup ∧
    ∀ spot ∈ Report.spotsAll [] reports, ∃ m : signalHost.Moment,
      signalHost.Reaches Notifier.empty actions m ∧ m.Foresees spot ∧
      (∀ buffer, notified? spot.entry = some buffer →
        spot.report.calls.map Call.address = m.state.registered.map fun id => (id, buffer)) ∧
      (notified? spot.entry = none → spot.report.calls = []) ∧
      ∀ id, spot.report.action = .unsubscribe id →
        (spot.report.outcome = .unsubscribed (some true) ↔ id ∈ m.state.registered) ∧
        (spot.report.outcome = .unsubscribed (some false) ↔
          id ∈ m.past.filterMap issued? ∧ id ∉ m.state.registered) := by
  intro reports
  have hlawful := lawful_signalHost
  have hend := hlawful.accounts rfl (hlawful.reaches_run Notifier.empty actions)
  refine ⟨fun m hm => ?_, ?_, hend.left_once, fun spot hspot => ?_⟩
  · have hkeeps := hlawful.keeps_roster rfl hm
    exact ⟨hkeeps.registered, hkeeps.registered ▸ hkeeps.increasing⟩
  · rw [hend.issued]
    exact List.nodup_range
  · obtain ⟨m, hm, hforesees⟩ := hlawful.exists_foresees hspot
    obtain ⟨t, hacts⟩ := hforesees.acts
    have hcalls : spot.report.calls.map Call.address =
        Report.due notified? m.state.registered spot.entry := hacts.addresses hlawful tells_signalHost
    refine ⟨m, hm, hforesees, fun buffer hbuffer => ?_, fun hnone => ?_, fun id hid => ?_⟩
    · rw [hcalls, Report.due, hbuffer]
    · rw [Report.due, hnone] at hcalls
      exact List.map_eq_nil_iff.mp hcalls
    · have hissued : m.past.filterMap issued? = List.range m.state.observers.size :=
        (hlawful.accounts rfl hm).issued
      have hleave := (hlawful.keeps_roster rfl hm).unsubscribe_eq id
      rw [hacts.outcome_of_unsubscribe hid, hissued, List.mem_range, Outcome.unsubscribed.injEq,
        Outcome.unsubscribed.injEq]
      exact hleave

/-- The observer that is told of the first buffer has the one after it leave, lets a third one join and
starts a round about a second buffer. The one who left is still called about the first buffer, and the
one who joined only about the second. To leave once more has no effect. -/
theorem rounds_are_snapshots_swap_in_round :
    let actions : List (Action Signal) :=
      [.subscribe "swap" [[.unsubscribe 1, .subscribe "late" [], .perform (.notify 8)]],
        .subscribe "early" [], .perform (.notify 7), .unsubscribe 1]
    let reports := (signalHost.run Notifier.empty actions).2
    (∃ outer ∈ Report.spotsAll [] reports, notified? outer.entry = some 7 ∧
      outer.report.calls.map Call.address = [(0, 7), (1, 7)]) ∧
    (∃ inner ∈ Report.spotsAll [] reports, notified? inner.entry = some 8 ∧
      inner.report.calls.map Call.address = [(0, 8), (2, 8)]) ∧
    ((Report.timelineAll reports).filterMap leaver?) = [1] := by
  intro actions reports
  obtain ⟨hmoments, -, -, hspots⟩ := rounds_are_snapshots actions
  obtain ⟨outer, houter, hseven, hbefore⟩ : ∃ outer ∈ Report.spotsAll [] reports,
      notified? outer.entry = some 7 ∧ Roster.ofPast outer.past = [0, 1] := by
    decide +kernel
  obtain ⟨inner, hinner, height, hswapped⟩ : ∃ inner ∈ Report.spotsAll [] reports,
      notified? inner.entry = some 8 ∧ Roster.ofPast inner.past = [0, 2] := by
    decide +kernel
  refine ⟨⟨outer, houter, hseven, ?_⟩, ⟨inner, hinner, height, ?_⟩, by decide +kernel⟩
  · obtain ⟨m, hm, hforesees, hcalls, -⟩ := hspots outer houter
    rw [hcalls 7 hseven, (hmoments m hm).1, hforesees.past, hbefore]
    rfl
  · obtain ⟨m, hm, hforesees, hcalls, -⟩ := hspots inner hinner
    rw [hcalls 8 height, (hmoments m hm).1, hforesees.past, hswapped]
    rfl

end Notifier

end LiveSyntax
