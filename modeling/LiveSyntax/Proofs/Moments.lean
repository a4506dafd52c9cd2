import LiveSyntax.Proofs.Rounds
import Mathlib.Logic.Relation

/-!
# The moments of a run

`Host.run` says where a run ends. What observers find while rounds are going on is in between, and
`Host.Acts` has no name for it. Here a run is cut into steps. A `Host.Moment` has the state, what has
happened so far, and what is left to do: the actions of each level, and the calls of each round in
progress. A step takes the innermost of these on.

Every run passes through its moments and ends in the last of them, so what every step keeps holds at
every moment of every run, however deep in rounds it lies.

## Main definitions

- `Host.Round`: a round, with the operation that started it.
- `Host.Moment`, `Host.Moment.Next`: the moments of a run and the steps between them.
- `Host.Reaches`: a run comes to a moment.

## Main results

- `Host.Lawful.reaches_run`: a run reaches its end, with its whole history.
- `Host.Follows.reaches`: what every step keeps holds at every moment.

## Design notes

A run has one thread. An operation is done before the next one begins, or the next one is nested in its
round. The store may be shared by threads, and how their operations interleave is not described here.
-/

namespace LiveSyntax

namespace Host

variable {σ α β γ : Type}

/-- A round, with the operation that started it and the state before that operation. -/
structure Round (h : Host σ α β γ) where
  before : σ
  op : α
  buffer : BufferId
  opening : σ
  close : σ → σ
  result : β
  effect : h.handle before op = .announced buffer opening close result

/-- What is left to do at one level: the actions of a call or of the run itself, or the calls of a
round. -/
inductive Task (h : Host σ α β γ) where
  | acting (actions : List (Action α))
  | calling (round : h.Round) (ids : List Nat)

/-- A moment of a run: the state, what has happened so far, and what is left to do, innermost first. -/
structure Moment (h : Host σ α β γ) where
  state : σ
  past : List (Action α × Outcome β)
  tasks : List h.Task

namespace Moment

variable {h : Host σ α β γ}

/-- The rounds in progress, innermost first. -/
def rounds (m : h.Moment) : List h.Round :=
  m.tasks.filterMap fun task =>
    match task with
    | .acting _ => none
    | .calling round _ => some round

/-- One step of a run. -/
inductive Next : h.Moment → h.Moment → Prop
  | subscribe {s : σ} {past : List (Action α × Outcome β)} {name : String} {script : Script α}
    {n : Notifier α} {id : Nat} {rest : List (Action α)} {tasks : List h.Task}
    (joined : (h.notifier s).subscribe ⟨name, script⟩ = (n, id)) :
    Next ⟨s, past, .acting (.subscribe name script :: rest) :: tasks⟩
      ⟨h.withNotifier s n, past ++ [(.subscribe name script, .subscribed id)], .acting rest :: tasks⟩
  | unsubscribe {s : σ} {past : List (Action α × Outcome β)} {id : Nat} {n : Notifier α}
    {wasRegistered : Option Bool} {rest : List (Action α)} {tasks : List h.Task}
    (left : (h.notifier s).unsubscribe id = (n, wasRegistered)) :
    Next ⟨s, past, .acting (.unsubscribe id :: rest) :: tasks⟩
      ⟨h.withNotifier s n, past ++ [(.unsubscribe id, .unsubscribed wasRegistered)],
        .acting rest :: tasks⟩
  | finished {s t : σ} {past : List (Action α × Outcome β)} {op : α} {result : β}
    {rest : List (Action α)} {tasks : List h.Task} (effect : h.handle s op = .finished t result) :
    Next ⟨s, past, .acting (.perform op :: rest) :: tasks⟩
      ⟨t, past ++ [(.perform op, .done result)], .acting rest :: tasks⟩
  | announced {past : List (Action α × Outcome β)} {rest : List (Action α)} {tasks : List h.Task}
    (round : h.Round) :
    Next ⟨round.before, past, .acting (.perform round.op :: rest) :: tasks⟩
      ⟨round.opening, past ++ [(.perform round.op, .done round.result)],
        .calling round (h.notifier round.opening).registered :: .acting rest :: tasks⟩
  | call {s : σ} {past : List (Action α × Outcome β)} {round : h.Round} {id : Nat} {ids : List Nat}
    {tasks : List h.Task} :
    Next ⟨s, past, .calling round (id :: ids) :: tasks⟩
      ⟨h.withNotifier s ((h.notifier s).takeScript id).1, past,
        .acting ((h.notifier s).takeScript id).2 :: .calling round ids :: tasks⟩
  | returned {s : σ} {past : List (Action α × Outcome β)} {tasks : List h.Task} :
    Next ⟨s, past, .acting [] :: tasks⟩ ⟨s, past, tasks⟩
  | closed {s : σ} {past : List (Action α × Outcome β)} {round : h.Round} {tasks : List h.Task} :
    Next ⟨s, past, .calling round [] :: tasks⟩ ⟨round.close s, past, tasks⟩

end Moment

/-- A run that begins in some state comes to a moment. -/
def Reaches (h : Host σ α β γ) (s : σ) (actions : List (Action α)) (m : h.Moment) : Prop :=
  Relation.ReflTransGen Moment.Next ⟨s, [], [.acting actions]⟩ m

/-! ### Runs pass through their moments -/

variable {h : Host σ α β γ}

mutual

/-- An action is a way from the moment before it to the moment after it. -/
theorem Acts.reaches {s t : σ} {action : Action α} {report : Report α β γ}
    (hacts : h.Acts s action t report) (past : List (Action α × Outcome β)) (rest : List (Action α))
    (tasks : List h.Task) :
    Relation.ReflTransGen Moment.Next (⟨s, past, .acting (action :: rest) :: tasks⟩ : h.Moment)
      ⟨t, past ++ Report.timelineAll [report], .acting rest :: tasks⟩ := by
  match hacts with
  | .subscribe joined =>
    rw [Report.timelineAll_singleton, Report.timelineCalls]
    exact .single (.subscribe joined)
  | .unsubscribe left =>
    rw [Report.timelineAll_singleton, Report.timelineCalls]
    exact .single (.unsubscribe left)
  | .finished effect =>
    rw [Report.timelineAll_singleton, Report.timelineCalls]
    exact .single (.finished effect)
  | .announced effect round closed =>
    rw [Report.timelineAll_singleton, ← closed, List.append_cons]
    exact .head (.announced ⟨_, _, _, _, _, _, effect⟩) (round.reaches ⟨_, _, _, _, _, _, effect⟩ _ _)

theorem ActsAll.reaches {s t : σ} {actions : List (Action α)} {reports : List (Report α β γ)}
    (hacts : h.ActsAll s actions t reports) (past : List (Action α × Outcome β))
    (tasks : List h.Task) :
    Relation.ReflTransGen Moment.Next (⟨s, past, .acting actions :: tasks⟩ : h.Moment)
      ⟨t, past ++ Report.timelineAll reports, tasks⟩ := by
  match hacts with
  | .nil _ =>
    rw [Report.timelineAll, List.append_nil]
    exact .single .returned
  | .cons first rest =>
    rw [Report.timelineAll_cons, ← List.append_assoc]
    exact (first.reaches past _ tasks).trans (rest.reaches _ tasks)

theorem Calls.reaches {buffer : BufferId} {s t : σ} {ids : List Nat} {calls : List (Call α β γ)}
    (hcalls : h.Calls buffer s ids t calls) (round : h.Round) (past : List (Action α × Outcome β))
    (tasks : List h.Task) :
    Relation.ReflTransGen Moment.Next (⟨s, past, .calling round ids :: tasks⟩ : h.Moment)
      ⟨round.close t, past ++ Report.timelineCalls calls, tasks⟩ := by
  match hcalls with
  | .nil _ _ =>
    rw [Report.timelineCalls, List.append_nil]
    exact .single .closed
  | .cons acts rest =>
    rw [Report.timelineCalls, ← List.append_assoc]
    exact .head .call ((acts.reaches past _).trans (rest.reaches round _ tasks))

end

/-- **A run reaches its end**, where nothing is left to do and the past is the whole run. -/
theorem Lawful.reaches_run (hlawful : h.Lawful) (s : σ) (actions : List (Action α)) :
    h.Reaches s actions ⟨(h.run s actions).1, Report.timelineAll (h.run s actions).2, []⟩ :=
  (hlawful.actsAll_run s actions).reaches [] []

/-! ### What steps keep -/

theorem Follows.next {ω : Type} {note : ω → Action α × Outcome β → ω} {R : σ → ω → Prop}
    (hf : h.Follows note R) {w : ω} {m m' : h.Moment} (hnext : Moment.Next m m')
    (hR : R m.state (m.past.foldl note w)) : R m'.state (m'.past.foldl note w) := by
  cases hnext with
  | subscribe joined =>
    rw [List.foldl_append]
    exact hf.subscribe joined hR
  | unsubscribe left =>
    rw [List.foldl_append]
    exact hf.unsubscribe left hR
  | finished effect =>
    rw [List.foldl_append]
    exact hf.finished effect hR
  | announced round =>
    rw [List.foldl_append]
    exact hf.opening round.effect hR
  | call => exact hf.take hR
  | returned => exact hR
  | @closed _ _ round _ => exact hf.close round.effect hR

/-- **What every step keeps holds at every moment**, of the state and of what has happened so far. -/
theorem Follows.reaches {ω : Type} {note : ω → Action α × Outcome β → ω} {R : σ → ω → Prop}
    (hf : h.Follows note R) {s : σ} {w : ω} {actions : List (Action α)} {m : h.Moment}
    (hR : R s w) (hm : h.Reaches s actions m) : R m.state (m.past.foldl note w) := by
  induction hm with
  | refl => exact hR
  | tail _ hnext ih => exact hf.next hnext ih

end Host

end LiveSyntax
