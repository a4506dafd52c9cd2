import LiveSyntax.Notify.Host

/-!
# A notifier on its own

The smallest host: its state is a notifier and nothing else, and its operations start a round or ask for the number of
observers.
-/

namespace LiveSyntax

inductive Signal where
  | notify (buffer : BufferId)
  | size
  deriving DecidableEq, Repr

inductive SignalResult where
  | notified
  | size (count : Nat) (description : String)
  deriving DecidableEq, Repr

/-- The notifier as a host. Its observers see the name of the buffer. -/
def signalHost : Host (Notifier Signal) Signal SignalResult String where
  notifier n := n
  withNotifier _ n := n
  view _ buffer := bufferName buffer
  handle n op :=
    match op with
    | .notify buffer => .announced buffer n id .notified
    | .size => .finished n (.size n.size n.describe)

end LiveSyntax
