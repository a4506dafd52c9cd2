import LiveSyntax.Change.Edit

/-!
# Changes in editor coordinates

An editor reports a `Change` by the character at which it starts and by the exact texts that it deletes and inserts.
Changes are replayed in order, each on the text that the ones before it left, and give one edit each.
-/

namespace LiveSyntax

structure Change where
  start : Nat
  deleted : Text
  inserted : Text
  deriving DecidableEq, Repr, Inhabited

/-- The text after a change: as many characters go as the deleted text has, and the inserted text comes in. -/
def Change.apply (c : Change) (text : Text) : Text :=
  (text.deleteAt c.start c.deleted.length).insertAt c.start c.inserted

/-- The edit of a change. It is refused if it starts or ends past the end of the text, or if the text does not have
the deleted text there. -/
def Edit.ofChange (text : Text) (c : Change) : Except EditError Edit :=
  let start := text.byteOfChar c.start
  let oldEnd := start + c.deleted.byteCount
  if text.length < c.start ∨ text.byteCount < oldEnd then
    .error (.outOfRange ⟨start, oldEnd⟩ text.byteCount)
  else if text.slice? start oldEnd ≠ some c.deleted then
    .error (.deletedTextMismatch c.start)
  else
    let startPosition := text.positionOfByte start
    .ok {
      start
      oldEnd
      newEnd := start + c.inserted.byteCount
      startPosition
      oldEndPosition := startPosition.advance c.deleted
      newEndPosition := startPosition.advance c.inserted }

/-- The edits of a list of changes, each on the text that the ones before it left, with the text after all. The first
change that does not fit ends the replay. -/
def Change.replay (text : Text) : List Change → Except EditError (List Edit × Text)
  | [] => .ok ([], text)
  | c :: rest =>
    match Edit.ofChange text c with
    | .error err => .error err
    | .ok edit =>
      match Change.replay (c.apply text) rest with
      | .error err => .error err
      | .ok (edits, final) => .ok (edit :: edits, final)

end LiveSyntax
