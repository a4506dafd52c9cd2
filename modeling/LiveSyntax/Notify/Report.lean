import LiveSyntax.Notify.Action

/-!
# What an action brought about

The report of an action has its outcome and the calls of the round that it started, if it started one. The report of a
call has what the observer saw and the reports of its actions. So a report shows which call belongs to which round,
however deeply rounds are nested.
-/

namespace LiveSyntax

/-- What an action on a host leads to; the operations of the host lead to a `β`. -/
inductive Outcome (β : Type) where
  | subscribed (id : Nat)
  /-- Whether the observer was registered; none for a number never given. -/
  | unsubscribed (wasRegistered : Option Bool)
  | done (result : β)

mutual

/-- What one action brought about. An observer sees a `γ` of the buffer that it is told about. -/
inductive Report (α β γ : Type) where
  | mk (action : Action α) (outcome : Outcome β) (calls : List (Call α β γ))

inductive Call (α β γ : Type) where
  | mk (observer : Nat) (name : String) (buffer : BufferId) (seen : γ) (reports : List (Report α β γ))

end

inductive LogEntry (α β γ : Type) where
  | called (name : String) (buffer : BufferId) (seen : γ)
  | acted (action : Action α) (outcome : Outcome β)

namespace Report

variable {α β γ : Type}

def action : Report α β γ → Action α
  | .mk action _ _ => action

def outcome : Report α β γ → Outcome β
  | .mk _ outcome _ => outcome

def calls : Report α β γ → List (Call α β γ)
  | .mk _ _ calls => calls

mutual

def logActions {α β γ : Type} : List (Report α β γ) → List (LogEntry α β γ)
  | [] => []
  | .mk action outcome calls :: rest => logCalls calls ++ .acted action outcome :: logActions rest

def logCalls {α β γ : Type} : List (Call α β γ) → List (LogEntry α β γ)
  | [] => []
  | .mk _ name buffer seen reports :: rest => .called name buffer seen :: (logActions reports ++ logCalls rest)

end

def log (r : Report α β γ) : List (LogEntry α β γ) :=
  logCalls r.calls

end Report

end LiveSyntax
