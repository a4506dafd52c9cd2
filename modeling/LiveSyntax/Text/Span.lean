/-!
# Byte spans

A `Span` runs from a start byte to a stop byte, which it leaves out. Nothing forces the start to come first: an
inverted span is empty, has length zero, and keeps both its ends.
-/

namespace LiveSyntax

/-- The bytes from `start` up to `stop`. -/
structure Span where
  start : Nat
  stop : Nat
  deriving DecidableEq, Repr, Inhabited

namespace Span

def caret (offset : Nat) : Span :=
  ⟨offset, offset⟩

/-- The number of bytes; zero for an inverted span. -/
def length (s : Span) : Nat :=
  s.stop - s.start

def isEmpty (s : Span) : Bool :=
  decide (s.stop ≤ s.start)

def isOrdered (s : Span) : Bool :=
  decide (s.start ≤ s.stop)

def contains (s other : Span) : Bool :=
  decide (s.start ≤ other.start ∧ other.stop ≤ s.stop)

def touches (s : Span) (offset : Nat) : Bool :=
  decide (s.start ≤ offset ∧ offset ≤ s.stop)

def overlaps (s other : Span) : Bool :=
  decide (s.start < other.stop ∧ other.start < s.stop)

def strictlyContains (s other : Span) : Bool :=
  s.contains other && decide (other.length < s.length)

def order (s other : Span) : Ordering :=
  (compare s.start other.start).then (compare s.stop other.stop)

def render (s : Span) : String :=
  "[" ++ toString s.start ++ ", " ++ toString s.stop ++ ")"

@[simp] theorem contains_iff {s other : Span} :
    s.contains other = true ↔ s.start ≤ other.start ∧ other.stop ≤ s.stop := by
  simp [contains]

@[simp] theorem touches_iff {s : Span} {offset : Nat} :
    s.touches offset = true ↔ s.start ≤ offset ∧ offset ≤ s.stop := by
  simp [touches]

@[simp] theorem strictlyContains_iff {s other : Span} :
    s.strictlyContains other = true ↔
      (s.start ≤ other.start ∧ other.stop ≤ s.stop) ∧ other.length < s.length := by
  simp [strictlyContains]

@[simp] theorem isEmpty_iff {s : Span} : s.isEmpty = true ↔ s.stop ≤ s.start := by
  simp [isEmpty]

@[simp] theorem isOrdered_iff {s : Span} : s.isOrdered = true ↔ s.start ≤ s.stop := by
  simp [isOrdered]

end Span

end LiveSyntax
