import LiveSyntax.Text.Coordinates
import LiveSyntax.Text.Span

/-!
# Edits in parser coordinates

An `Edit` tells an incremental parser which bytes of the old source were replaced and how far the new ones reach, by
byte offset and by position. A host may hand in any nine numbers, so an edit is checked against the lengths of both
sources before it is used.

## Design notes

Lengths are machine words. A check computes the length that an edit leads to, and where a sum on the way is no word it
does not come to an answer: it stops with `EditFault.overflow`, which is no error that a caller is handed but the end of
the call.
-/

namespace LiveSyntax

inductive EditError where
  /-- The start lies past one of the two ends. -/
  | inverted (start oldEnd newEnd : Nat)
  /-- The replaced span reaches past the source, or is inverted. -/
  | outOfRange (span : Span) (sourceLength : Nat)
  | lengthMismatch (expected actual : Nat)
  | deletedTextMismatch (start : Nat)
  deriving DecidableEq, Repr

inductive EditFault where
  | refused (error : EditError)
  /-- A length on the way is no word, and the call stops there. -/
  | overflow
  deriving DecidableEq, Repr

def EditError.message : EditError → String
  | .inverted start oldEnd newEnd =>
    s!"edit start {start} is past old end {oldEnd} or new end {newEnd}"
  | .outOfRange span sourceLength =>
    s!"edit range {span.render} exceeds source length {sourceLength}"
  | .lengthMismatch expected actual =>
    s!"edit implies a new length of {expected} bytes but the new source has {actual}"
  | .deletedTextMismatch start =>
    s!"deleted text does not match the source at character {start}"

/-- A replacement of the bytes from `start` to `oldEnd` of the old source by new ones that reach to `newEnd` in the new
source, with the positions of the three. -/
structure Edit where
  start : Nat
  oldEnd : Nat
  newEnd : Nat
  startPosition : Position
  oldEndPosition : Position
  newEndPosition : Position
  deriving DecidableEq, Repr, Inhabited

namespace Edit

def replace (before : Text) (a b : Nat) (inserted : Text) : Except EditError Edit :=
  if a ≤ b ∧ b ≤ before.byteCount then
    let startPosition := Position.atByte before a
    .ok {
      start := a
      oldEnd := b
      newEnd := a + inserted.byteCount
      startPosition
      oldEndPosition := Position.atByte before b
      newEndPosition := startPosition.advance inserted }
  else .error (.outOfRange ⟨a, b⟩ before.byteCount)

def insert (before : Text) (offset : Nat) (inserted : Text) : Except EditError Edit :=
  replace before offset offset inserted

def delete (before : Text) (span : Span) : Except EditError Edit :=
  replace before span.start span.stop []

def oldSpan (e : Edit) : Span :=
  ⟨e.start, e.oldEnd⟩

def newSpan (e : Edit) : Span :=
  ⟨e.start, e.newEnd⟩

def isNoop (e : Edit) : Bool :=
  decide (e.oldEnd = e.start ∧ e.newEnd = e.start)

/-- The length that the edit leads to, if every sum and difference on the way is a word. -/
def lengthAfter (e : Edit) (oldLength : Nat) : Option Nat := do
  let removed ← Offset.difference? e.oldEnd e.start
  let left ← Offset.difference? oldLength removed
  let added ← Offset.difference? e.newEnd e.start
  Offset.sum? left added

/-- Checks the edit against the lengths of the old and the new source: its ends follow its start, the replaced span
lies in the old source, and the lengths agree. -/
def validate (e : Edit) (oldLength newLength : Nat) : Except EditFault Unit :=
  if e.oldEnd < e.start ∨ e.newEnd < e.start then
    .error (.refused (.inverted e.start e.oldEnd e.newEnd))
  else if oldLength < e.oldEnd then
    .error (.refused (.outOfRange e.oldSpan oldLength))
  else
    match e.lengthAfter oldLength with
    | none => .error .overflow
    | some expected =>
      if expected = newLength then .ok () else .error (.refused (.lengthMismatch expected newLength))

/-- The length that a chain of edits expects after an edit that is not its last. The sum comes first, so it may be no
word where the length itself is one. -/
def runningLength (e : Edit) (length : Nat) : Option Nat :=
  (Offset.sum? length (e.newEnd - e.start)).map fun grown => grown - (e.oldEnd - e.start)

/-- Checks a chain of edits that leads from a source of `length` bytes to one of `newLength`. Every edit is checked
against the length that the ones before it leave, and the last one must lead to `newLength`. -/
def checkChain (length : Nat) : List Edit → (newLength : Nat) → Except EditFault Unit
  | [], _ => .ok ()
  | [e], newLength => e.validate length newLength
  | e :: rest, newLength =>
    match e.runningLength length with
    | none => .error .overflow
    | some next =>
      match e.validate length next with
      | .error fault => .error fault
      | .ok () => checkChain next rest newLength

end Edit

end LiveSyntax
