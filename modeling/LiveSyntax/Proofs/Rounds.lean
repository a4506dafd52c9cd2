import LiveSyntax.Notify.Host
import Mathlib.Data.List.Basic

/-!
# Actions and the rounds that they start

`Host.act` runs an action with a bound on how deep rounds may nest. Here the same is said without any
bound, as a relation: `Host.Acts` has one rule for each thing that can happen, and an action of a
called observer is one more derivation, however deep it lies. The bound of `Host.act` is enough: a
call acts only by using up a part of a script, and what an observer brings in was counted with the
action that brought it. So every action is carried out, and facts about runs are proved by induction
over the rules.

## Main definitions

- `Host.Acts`, `Host.ActsAll`, `Host.Calls`: what actions, lists of actions and rounds do.
- `Host.Lawful`: operations leave the notifier to the rounds that they start.
- `Report.timelineAll`: all actions of a run in the order in which they took effect.
- `Host.Follows`: a relation between states and histories that every step keeps.

## Main results

- `Host.Lawful.acts_act`: an action does what the rules say.
- `Host.Follows.run`: what every step keeps holds after every run.
-/

namespace LiveSyntax

namespace Host

variable {σ α β γ : Type}

mutual

/-- An action leads from one state to another, with a report. -/
inductive Acts (h : Host σ α β γ) : σ → Action α → σ → Report α β γ → Prop
  | subscribe {s : σ} {name : String} {script : Script α} {n : Notifier α} {id : Nat}
    (joined : (h.notifier s).subscribe ⟨name, script⟩ = (n, id)) :
    Acts h s (.subscribe name script) (h.withNotifier s n)
      (.mk (.subscribe name script) (.subscribed id) [])
  | unsubscribe {s : σ} {id : Nat} {n : Notifier α} {wasRegistered : Option Bool}
    (left : (h.notifier s).unsubscribe id = (n, wasRegistered)) :
    Acts h s (.unsubscribe id) (h.withNotifier s n)
      (.mk (.unsubscribe id) (.unsubscribed wasRegistered) [])
  | finished {s t : σ} {op : α} {result : β} (effect : h.handle s op = .finished t result) :
    Acts h s (.perform op) t (.mk (.perform op) (.done result) [])
  | announced {s opening t u : σ} {op : α} {buffer : BufferId} {close : σ → σ} {result : β}
    {calls : List (Call α β γ)} (effect : h.handle s op = .announced buffer opening close result)
    (round : Calls h buffer opening (h.notifier opening).registered t calls) (closed : close t = u) :
    Acts h s (.perform op) u (.mk (.perform op) (.done result) calls)

/-- Actions lead from one state to another, one after the other. -/
inductive ActsAll (h : Host σ α β γ) : σ → List (Action α) → σ → List (Report α β γ) → Prop
  | nil (s : σ) : ActsAll h s [] s []
  | cons {s t u : σ} {action : Action α} {actions : List (Action α)} {report : Report α β γ}
    {reports : List (Report α β γ)} (first : Acts h s action t report)
    (rest : ActsAll h t actions u reports) : ActsAll h s (action :: actions) u (report :: reports)

/-- Observers are called about a buffer, one after the other. -/
inductive Calls (h : Host σ α β γ) : BufferId → σ → List Nat → σ → List (Call α β γ) → Prop
  | nil (buffer : BufferId) (s : σ) : Calls h buffer s [] s []
  | cons {buffer : BufferId} {s t u : σ} {id : Nat} {ids : List Nat}
    {reports : List (Report α β γ)} {calls : List (Call α β γ)}
    (acts : ActsAll h (h.withNotifier s ((h.notifier s).takeScript id).1)
      ((h.notifier s).takeScript id).2 t reports)
    (rest : Calls h buffer t ids u calls) :
    Calls h buffer s (id :: ids) u
      (.mk id ((h.notifier s).nameOf id) buffer (h.view s buffer) reports :: calls)

end

/-- Operations leave the notifier alone, apart from the rounds that they start. -/
structure Lawful (h : Host σ α β γ) : Prop where
  notifier_withNotifier : ∀ s n, h.notifier (h.withNotifier s n) = n
  finished : ∀ {s op t result}, h.handle s op = .finished t result → h.notifier t = h.notifier s
  announced : ∀ {s op buffer opening close result},
    h.handle s op = .announced buffer opening close result →
      h.notifier opening = h.notifier s ∧ ∀ t, h.notifier (close t) = h.notifier t

end Host

/-! ### What is left to do -/

namespace Action

variable {α : Type}

theorem scriptWeight_append (first rest : Script α) :
    scriptWeight (first ++ rest) = scriptWeight first + scriptWeight rest := by
  induction first with
  | nil => rw [List.nil_append, scriptWeight, Nat.zero_add]
  | cons actions first ih =>
    rw [List.cons_append, scriptWeight, scriptWeight, ih]
    omega

/-- Replacing one observer changes what is left to do by the difference of the scripts. -/
theorem scriptWeight_flatMap_set {observers : List (Observer α)} {id : Nat} {old : Observer α}
    (new : Observer α) (h : observers[id]? = some old) :
    scriptWeight ((observers.set id new).flatMap (·.script)) + scriptWeight old.script =
      scriptWeight (observers.flatMap (·.script)) + scriptWeight new.script := by
  induction observers generalizing id with
  | nil => simp at h
  | cons first observers ih =>
    cases id with
    | zero =>
      obtain rfl : first = old := by simpa using h
      simp only [List.set_cons_zero, List.flatMap_cons, scriptWeight_append]
      omega
    | succ id =>
      have hrest := ih (by simpa using h)
      simp only [List.set_cons_succ, List.flatMap_cons, scriptWeight_append]
      omega

end Action

namespace Notifier

open LiveSyntax.Action

variable {α : Type}

theorem potential_subscribe (n : Notifier α) (observer : Observer α) :
    (n.subscribe observer).1.potential = n.potential + scriptWeight observer.script := by
  simp [potential, subscribe, scriptWeight_append]

theorem potential_unsubscribe (n : Notifier α) (id : Nat) :
    (n.unsubscribe id).1.potential = n.potential := by
  unfold unsubscribe
  split <;> rfl

/-- A call either does nothing or uses up its own part of a script. -/
theorem takeScript_spends (n : Notifier α) (id : Nat) :
    n.takeScript id = (n, []) ∨
      (n.takeScript id).1.potential + 1 + callWeight (n.takeScript id).2 = n.potential := by
  unfold takeScript
  split
  · exact .inl rfl
  · next observer hobserver =>
    split
    · exact .inl rfl
    · next actions rest hscript =>
      right
      have hset := scriptWeight_flatMap_set { observer with script := rest }
        ((Array.getElem?_toList ..).trans hobserver)
      simp only [hscript, scriptWeight] at hset
      simp only [potential, Array.toList_setIfInBounds]
      omega

end Notifier

namespace Host

open LiveSyntax.Action

variable {σ α β γ : Type} {h : Host σ α β γ} {act : σ → Action α → σ × Report α β γ} {bound : Nat}

/-- How many calls can still act in a state. -/
def potential (h : Host σ α β γ) (s : σ) : Nat :=
  (h.notifier s).potential

/-- A function carries out every action after which fewer than `bound` calls can act, and no action
makes more calls act than it was counted for. -/
def Carries (h : Host σ α β γ) (act : σ → Action α → σ × Report α β γ) (bound : Nat) : Prop :=
  ∀ s action, h.potential s + action.weight < bound →
    h.Acts s action (act s action).1 (act s action).2 ∧
      h.potential (act s action).1 ≤ h.potential s + action.weight

theorem Carries.actsAll (hact : h.Carries act bound) (s : σ) (actions : List (Action α))
    (hroom : h.potential s + callWeight actions < bound) :
    h.ActsAll s actions (actAll act s actions).1 (actAll act s actions).2 ∧
      h.potential (actAll act s actions).1 ≤ h.potential s + callWeight actions := by
  induction actions generalizing s with
  | nil => exact ⟨.nil s, Nat.le_add_right _ _⟩
  | cons action actions ih =>
    rw [callWeight] at hroom ⊢
    obtain ⟨hfirst, hspent⟩ := hact s action (by omega)
    obtain ⟨hrest, hleft⟩ := ih (act s action).1 (by omega)
    exact ⟨.cons hfirst hrest, Nat.le_trans hleft (by omega)⟩

/-- A call finds its observer's part of the script, and carries it out. -/
theorem Carries.called (hact : h.Carries act bound) (hlawful : h.Lawful) (s : σ) (id : Nat)
    (hroom : h.potential s ≤ bound) :
    let start := h.withNotifier s ((h.notifier s).takeScript id).1
    let actions := ((h.notifier s).takeScript id).2
    h.ActsAll start actions (actAll act start actions).1 (actAll act start actions).2 ∧
      h.potential (actAll act start actions).1 ≤ h.potential s := by
  intro start actions
  have hstart : h.potential start = ((h.notifier s).takeScript id).1.potential := by
    rw [potential, hlawful.notifier_withNotifier]
  -- Without a script nothing happens; with one, the call itself is one unit less to do.
  rcases (h.notifier s).takeScript_spends id with hidle | hspends
  · have hactions : actions = [] := congrArg Prod.snd hidle
    have hsame : h.potential start = h.potential s := by rw [hstart, hidle]; rfl
    rw [hactions]
    exact ⟨.nil start, Nat.le_of_eq hsame⟩
  · have hleft : h.potential start + 1 + callWeight actions = h.potential s := by
      rw [hstart]
      exact hspends
    obtain ⟨hacts, hspent⟩ := hact.actsAll start actions (by omega)
    exact ⟨hacts, by omega⟩

theorem Carries.calls (hact : h.Carries act bound) (hlawful : h.Lawful) (buffer : BufferId)
    (s : σ) (ids : List Nat) (hroom : h.potential s ≤ bound) :
    h.Calls buffer s ids (h.callAll act buffer s ids).1 (h.callAll act buffer s ids).2 ∧
      h.potential (h.callAll act buffer s ids).1 ≤ h.potential s := by
  induction ids generalizing s with
  | nil => exact ⟨.nil buffer s, Nat.le_refl _⟩
  | cons id ids ih =>
    obtain ⟨hacts, hspent⟩ := hact.called hlawful s id hroom
    obtain ⟨hrest, hleft⟩ := ih (h.call act buffer s id).1 (Nat.le_trans hspent hroom)
    exact ⟨.cons hacts hrest, Nat.le_trans hleft hspent⟩

/-- **One more level of rounds** carries out one more acting call. -/
theorem Carries.deeper (hact : h.Carries act bound) (hlawful : h.Lawful) :
    h.Carries (h.step act) (bound + 1) := by
  intro s action hroom
  cases action with
  | subscribe name script =>
    refine ⟨.subscribe rfl, ?_⟩
    rw [potential, step, hlawful.notifier_withNotifier, Notifier.potential_subscribe, weight]
    exact Nat.le_refl _
  | unsubscribe id =>
    refine ⟨.unsubscribe rfl, ?_⟩
    rw [potential, step, hlawful.notifier_withNotifier, Notifier.potential_unsubscribe]
    exact Nat.le_add_right _ _
  | perform op =>
    rw [weight, Nat.add_zero] at hroom ⊢
    cases heffect : h.handle s op with
    | finished t result =>
      simp only [step, heffect]
      refine ⟨.finished heffect, ?_⟩
      rw [potential, hlawful.finished heffect]
      exact Nat.le_refl _
    | announced buffer opening close result =>
      obtain ⟨hopening, hclose⟩ := hlawful.announced heffect
      have hsame : h.potential opening = h.potential s := by rw [potential, hopening]; rfl
      obtain ⟨hround, hleft⟩ := hact.calls hlawful buffer opening
        (h.notifier opening).registered (by omega)
      simp only [step, heffect, round]
      refine ⟨.announced heffect hround rfl, ?_⟩
      rw [potential, hclose, ← hsame]
      exact hleft

theorem Lawful.carries_actUpTo (hlawful : h.Lawful) (depth : Nat) :
    h.Carries (h.actUpTo depth) (depth + 1) := by
  induction depth with
  | zero =>
    -- At the bottom no call can act any more, so it does not matter that `idle` leaves things undone.
    have hidle : h.Carries idle 0 := fun s action hroom => absurd hroom (Nat.not_lt_zero _)
    exact hidle.deeper hlawful
  | succ depth ih => exact ih.deeper hlawful

/-- **Every action is carried out**, with all actions of the observers that it calls. -/
theorem Lawful.acts_act (hlawful : h.Lawful) (s : σ) (action : Action α) :
    h.Acts s action (h.act s action).1 (h.act s action).2 :=
  (hlawful.carries_actUpTo _ s action (Nat.lt_succ_self _)).1

theorem Lawful.actsAll_run (hlawful : h.Lawful) (s : σ) (actions : List (Action α)) :
    h.ActsAll s actions (h.run s actions).1 (h.run s actions).2 := by
  induction actions generalizing s with
  | nil => exact .nil s
  | cons action actions ih => exact .cons (hlawful.acts_act s action) (ih _)

theorem act_of_finished {s t : σ} {op : α} {result : β}
    (heffect : h.handle s op = .finished t result) :
    h.act s (.perform op) = (t, .mk (.perform op) (.done result) []) := by
  unfold act
  cases (h.notifier s).potential + (Action.perform op).weight <;> simp only [actUpTo, step, heffect]

theorem outcome_act_of_announced {s opening : σ} {op : α} {buffer : BufferId} {close : σ → σ}
    {result : β} (heffect : h.handle s op = .announced buffer opening close result) :
    (h.act s (.perform op)).2.outcome = .done result := by
  unfold act
  cases (h.notifier s).potential + (Action.perform op).weight <;>
    simp only [actUpTo, step, heffect, Report.outcome]

end Host

/-! ### Histories -/

namespace Report

variable {α β γ : Type}

mutual

/-- The actions of a list of reports in the order in which they took effect: an action comes before
those of the calls that it brought about. -/
def timelineAll : List (Report α β γ) → List (Action α × Outcome β)
  | [] => []
  | .mk action outcome calls :: rest => (action, outcome) :: (timelineCalls calls ++ timelineAll rest)

/-- The actions of a round in the order in which they took effect. -/
def timelineCalls : List (Call α β γ) → List (Action α × Outcome β)
  | [] => []
  | .mk _ _ _ _ reports :: rest => timelineAll reports ++ timelineCalls rest

end

theorem timelineAll_singleton (action : Action α) (outcome : Outcome β) (calls : List (Call α β γ)) :
    timelineAll [.mk action outcome calls] = (action, outcome) :: timelineCalls calls := by
  rw [timelineAll, timelineAll, List.append_nil]

theorem timelineAll_cons (report : Report α β γ) (rest : List (Report α β γ)) :
    timelineAll (report :: rest) = timelineAll [report] ++ timelineAll rest := by
  cases report with
  | mk action outcome calls => rw [timelineAll_singleton, timelineAll, List.cons_append]

end Report

namespace Host

variable {σ α β γ ω : Type} {h : Host σ α β γ}

/-- A relation between states and histories that every step keeps. `note` adds an action to the history
as soon as it has taken effect, which is before the round that it starts. -/
structure Follows (h : Host σ α β γ) (note : ω → Action α × Outcome β → ω) (R : σ → ω → Prop) :
    Prop where
  subscribe : ∀ {s w name script n id}, (h.notifier s).subscribe ⟨name, script⟩ = (n, id) → R s w →
    R (h.withNotifier s n) (note w (.subscribe name script, .subscribed id))
  unsubscribe : ∀ {s w id n wasRegistered}, (h.notifier s).unsubscribe id = (n, wasRegistered) →
    R s w → R (h.withNotifier s n) (note w (.unsubscribe id, .unsubscribed wasRegistered))
  take : ∀ {s w id}, R s w → R (h.withNotifier s ((h.notifier s).takeScript id).1) w
  finished : ∀ {s w op t result}, h.handle s op = .finished t result → R s w →
    R t (note w (.perform op, .done result))
  opening : ∀ {s w op buffer opening close result},
    h.handle s op = .announced buffer opening close result → R s w →
      R opening (note w (.perform op, .done result))
  close : ∀ {s w op buffer opening close result t},
    h.handle s op = .announced buffer opening close result → R t w → R (close t) w

mutual

theorem Follows.acts {note : ω → Action α × Outcome β → ω} {R : σ → ω → Prop}
    (hf : h.Follows note R) {s t : σ} {w : ω} {action : Action α} {report : Report α β γ}
    (hacts : h.Acts s action t report) (hR : R s w) :
    R t ((Report.timelineAll [report]).foldl note w) := by
  match hacts with
  | .subscribe joined =>
    rw [Report.timelineAll_singleton, Report.timelineCalls]
    exact hf.subscribe joined hR
  | .unsubscribe left =>
    rw [Report.timelineAll_singleton, Report.timelineCalls]
    exact hf.unsubscribe left hR
  | .finished effect =>
    rw [Report.timelineAll_singleton, Report.timelineCalls]
    exact hf.finished effect hR
  | .announced effect round closed =>
    rw [Report.timelineAll_singleton, ← closed]
    exact hf.close effect (hf.calls round (hf.opening effect hR))

theorem Follows.actsAll {note : ω → Action α × Outcome β → ω} {R : σ → ω → Prop}
    (hf : h.Follows note R) {s t : σ} {w : ω} {actions : List (Action α)}
    {reports : List (Report α β γ)} (hacts : h.ActsAll s actions t reports) (hR : R s w) :
    R t ((Report.timelineAll reports).foldl note w) := by
  match hacts with
  | .nil _ =>
    rw [Report.timelineAll]
    exact hR
  | .cons first rest =>
    rw [Report.timelineAll_cons, List.foldl_append]
    exact hf.actsAll rest (hf.acts first hR)

theorem Follows.calls {note : ω → Action α × Outcome β → ω} {R : σ → ω → Prop}
    (hf : h.Follows note R) {buffer : BufferId} {s t : σ} {w : ω} {ids : List Nat}
    {calls : List (Call α β γ)} (hcalls : h.Calls buffer s ids t calls) (hR : R s w) :
    R t ((Report.timelineCalls calls).foldl note w) := by
  match hcalls with
  | .nil _ _ =>
    rw [Report.timelineCalls]
    exact hR
  | .cons acts rest =>
    rw [Report.timelineCalls, List.foldl_append]
    exact hf.calls rest (hf.actsAll acts (hf.take hR))

end

/-- **What every step keeps holds after every run**, of the state and the history of the run. -/
theorem Follows.run {note : ω → Action α × Outcome β → ω} {R : σ → ω → Prop}
    (hf : h.Follows note R) (hlawful : h.Lawful) {s : σ} {w : ω} (actions : List (Action α))
    (hR : R s w) :
    R (h.run s actions).1 ((Report.timelineAll (h.run s actions).2).foldl note w) :=
  hf.actsAll (hlawful.actsAll_run s actions) hR

end Host

end LiveSyntax
