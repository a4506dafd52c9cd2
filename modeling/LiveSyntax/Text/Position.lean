import LiveSyntax.Text.Basic
import LiveSyntax.Text.Offset

/-!
# Positions by row and column

A `Position` counts rows from zero and columns in bytes from the start of the row.
-/

namespace LiveSyntax

/-- A place in a text: its row, and its column in bytes, both from zero. -/
structure Position where
  row : Nat
  column : Nat
  deriving DecidableEq, Repr, Inhabited

namespace Position

def origin : Position :=
  ⟨0, 0⟩

def order (p q : Position) : Ordering :=
  (compare p.row q.row).then (compare p.column q.column)

def render (p : Position) : String :=
  "(" ++ toString p.row ++ ", " ++ toString p.column ++ ")"

def nextRow (p : Position) (row : Text) : Position :=
  ⟨Offset.addHeld p.row 1, row.byteCount⟩

/-- The place after a text that starts at `p`: its first row goes on from the column of `p`, every further row
starts a new one. -/
def advance (p : Position) (text : Text) : Position :=
  match text.rows with
  | [] => p
  | first :: below => below.foldl nextRow ⟨p.row, Offset.addHeld p.column first.byteCount⟩

/-- The place of a byte: as many rows down as line feeds come before it, as many columns in as bytes come between
the last of them and it. An offset past the end counts as the end. -/
def atByte (text : Text) (offset : Nat) : Position :=
  let before := text.bytes.take offset
  ⟨before.count Text.lineFeed, (before.reverse.takeWhile (· != Text.lineFeed)).length⟩

end Position

end LiveSyntax
