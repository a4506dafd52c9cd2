import LiveSyntax.Parse.Error

/-!
# Observers and what they do

An observer is told about every change of a buffer, and may act on it: subscribe or unsubscribe observers, or do
whatever the host offers. What an observer does is written down beforehand as a script: the actions of its first call,
those of its second, and so on. When the script is used up, the observer only listens.

A `Notifier` keeps every observer that ever subscribed, by the number that it got, and which of them are registered. One
that has unsubscribed may still be called by a round that had begun before, and then goes on with its script.
-/

namespace LiveSyntax

/-- An action on a host that offers the operations `α`. -/
inductive Action (α : Type) where
  /-- A new observer, with the actions of each of its calls. -/
  | subscribe (name : String) (script : List (List (Action α)))
  | unsubscribe (id : Nat)
  | perform (op : α)

instance {α : Type} : Inhabited (Action α) := ⟨.unsubscribe 0⟩

abbrev Script (α : Type) := List (List (Action α))

namespace Action

mutual

/-- How many acting calls an action can bring about. -/
def weight {α : Type} : Action α → Nat
  | .subscribe _ script => scriptWeight script
  | .unsubscribe _ => 0
  | .perform _ => 0

/-- How many acting calls a script can bring about, its own included. -/
def scriptWeight {α : Type} : List (List (Action α)) → Nat
  | [] => 0
  | actions :: rest => 1 + callWeight actions + scriptWeight rest

def callWeight {α : Type} : List (Action α) → Nat
  | [] => 0
  | action :: rest => weight action + callWeight rest

end

end Action

structure Observer (α : Type) where
  name : String
  script : Script α

/-- Observers by number, and which of them are registered. -/
structure Notifier (α : Type) where
  /-- Everyone who ever subscribed; the number of an observer is its place. The machine counts them in sixty-four bits;
  no run comes near that many. -/
  observers : Array (Observer α)
  /-- The registered ones, in the order in which they subscribed. -/
  registered : List Nat

namespace Notifier

variable {α : Type}

def empty : Notifier α :=
  ⟨#[], []⟩

def size (n : Notifier α) : Nat :=
  n.registered.length

def isIssued (n : Notifier α) (id : Nat) : Bool :=
  decide (id < n.observers.size)

def subscribe (n : Notifier α) (observer : Observer α) : Notifier α × Nat :=
  (⟨n.observers.push observer, n.registered ++ [n.observers.size]⟩, n.observers.size)

/-- Removes an observer, and returns whether it was registered; none for a number never given. -/
def unsubscribe (n : Notifier α) (id : Nat) : Notifier α × Option Bool :=
  if n.isIssued id then
    ({ n with registered := n.registered.filter (· != id) }, some (n.registered.contains id))
  else (n, none)

def nameOf (n : Notifier α) (id : Nat) : String :=
  match n.observers[id]? with
  | none => ""
  | some observer => observer.name

/-- Takes the actions of the next call out of an observer's script. -/
def takeScript (n : Notifier α) (id : Nat) : Notifier α × List (Action α) :=
  match n.observers[id]? with
  | none => (n, [])
  | some observer =>
    match observer.script with
    | [] => (n, [])
    | actions :: rest =>
      ({ n with observers := n.observers.setIfInBounds id { observer with script := rest } }, actions)

/-- How many calls of these observers, and of those that they may bring in, can still act. -/
def potential (n : Notifier α) : Nat :=
  Action.scriptWeight (n.observers.toList.flatMap fun observer => observer.script)

def describe (n : Notifier α) : String :=
  "ChangeNotifier \x7b observers: " ++ toString n.size ++ " \x7d"

end Notifier

end LiveSyntax
