import LiveSyntax.Notify.Report

/-!
# Hosts of observers

A `Host` says how operations work on a state that has a notifier in it. An operation may start a round: the observers
that are registered when it begins are called one after the other, in the order in which they subscribed, whatever
they do in the meantime. The actions of a call are done before the next call, and may start rounds of their own.

## Design notes

A call acts only by using up a part of its observer's script. So rounds nest no deeper than the number of calls that can
still act, and `Host.act` takes that number as its bound.
-/

namespace LiveSyntax

inductive Effect (σ β : Type) where
  | finished (state : σ) (result : β)
  /-- It starts a round about a buffer, and closes the state that the round ends in. -/
  | announced (buffer : BufferId) (opening : σ) (close : σ → σ) (result : β)

/-- How the operations `α` work on the states `σ`, with outcomes `β`; an observer sees a `γ`. -/
structure Host (σ α β γ : Type) where
  notifier : σ → Notifier α
  withNotifier : σ → Notifier α → σ
  view : σ → BufferId → γ
  handle : σ → α → Effect σ β

namespace Host

variable {σ α β γ : Type}

def actAll (act : σ → Action α → σ × Report α β γ) (s : σ) : List (Action α) → σ × List (Report α β γ)
  | [] => (s, [])
  | action :: rest =>
    let (s, report) := act s action
    let (s, reports) := actAll act s rest
    (s, report :: reports)

/-- Calls one observer: it sees the buffer, and then does the next part of its script. -/
def call (h : Host σ α β γ) (act : σ → Action α → σ × Report α β γ) (buffer : BufferId) (s : σ) (id : Nat) :
    σ × Call α β γ :=
  let name := (h.notifier s).nameOf id
  let seen := h.view s buffer
  let (notifier, actions) := (h.notifier s).takeScript id
  let (s, reports) := actAll act (h.withNotifier s notifier) actions
  (s, .mk id name buffer seen reports)

def callAll (h : Host σ α β γ) (act : σ → Action α → σ × Report α β γ) (buffer : BufferId) (s : σ) :
    List Nat → σ × List (Call α β γ)
  | [] => (s, [])
  | id :: rest =>
    let (s, first) := h.call act buffer s id
    let (s, others) := callAll h act buffer s rest
    (s, first :: others)

def round (h : Host σ α β γ) (act : σ → Action α → σ × Report α β γ) (buffer : BufferId) (s : σ) :
    σ × List (Call α β γ) :=
  h.callAll act buffer s (h.notifier s).registered

/-- What an action does, given what the actions of observers do. -/
def step (h : Host σ α β γ) (act : σ → Action α → σ × Report α β γ) (s : σ) (action : Action α) :
    σ × Report α β γ :=
  match action with
  | .subscribe name script =>
    let (notifier, id) := (h.notifier s).subscribe ⟨name, script⟩
    (h.withNotifier s notifier, .mk action (.subscribed id) [])
  | .unsubscribe id =>
    let (notifier, wasRegistered) := (h.notifier s).unsubscribe id
    (h.withNotifier s notifier, .mk action (.unsubscribed wasRegistered) [])
  | .perform op =>
    match h.handle s op with
    | .finished s result => (s, .mk action (.done result) [])
    | .announced buffer opening close result =>
      let (s, calls) := h.round act buffer opening
      (close s, .mk action (.done result) calls)

/-- Leaves an action undone. It stands for the actions of calls below the bound on nesting. -/
def idle (s : σ) (action : Action α) : σ × Report α β γ :=
  (s, .mk action (.unsubscribed none) [])

def actUpTo (h : Host σ α β γ) : (depth : Nat) → σ → Action α → σ × Report α β γ
  | 0 => h.step idle
  | depth + 1 => h.step (actUpTo h depth)

def act (h : Host σ α β γ) (s : σ) (action : Action α) : σ × Report α β γ :=
  h.actUpTo ((h.notifier s).potential + action.weight) s action

def run (h : Host σ α β γ) (s : σ) (actions : List (Action α)) : σ × List (Report α β γ) :=
  actAll h.act s actions

end Host

end LiveSyntax
