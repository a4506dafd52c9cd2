import LiveSyntax.Text.Basic
import LiveSyntax.Text.Position

/-!
# Coordinates in a text

Editors count characters, parsers count bytes and place nodes by row and column. The functions here carry a place
from one count to another. An offset past the end counts as the end; a byte inside a character counts as that
character.
-/

namespace LiveSyntax.Text

def byteOfChar (text : Text) (n : Nat) : Nat :=
  byteCount (text.take n)

/-- The character that a byte belongs to. -/
def charOfByte : Text → Nat → Nat
  | [], _ => 0
  | c :: rest, b => if c.utf8Size ≤ b then charOfByte rest (b - c.utf8Size) + 1 else 0

/-- Whether a byte offset stands between two characters, or at an end of the text. -/
def isBoundary (text : Text) (b : Nat) : Bool :=
  decide (text.byteOfChar (text.charOfByte b) = b)

def rowOfByte (text : Text) (b : Nat) : Nat :=
  (text.take (text.charOfByte b)).count '\n'

/-- The byte at which a row starts: each row before it and its line feed are passed. -/
def rowStart (text : Text) (row : Nat) : Nat :=
  byteCount ((text.rows.take row).flatMap fun r => r ++ ['\n'])

def positionOfByte (text : Text) (b : Nat) : Position :=
  let b := min b text.byteCount
  let row := text.rowOfByte b
  ⟨row, b - text.rowStart row⟩

def positionOfChar (text : Text) (n : Nat) : Position :=
  text.positionOfByte (text.byteOfChar n)

/-- The byte at which a row ends: the line feed before the next row, or the end of the text. -/
def rowEnd (text : Text) (row : Nat) : Nat :=
  if row + 1 < text.rowCount then text.rowStart (row + 1) - 1 else text.byteCount

/-- The byte at a position: the column is held at the end of its row, a row past the last one counts as the end of
the text. -/
def byteOfPosition (text : Text) (p : Position) : Nat :=
  if text.rowCount ≤ p.row then text.byteCount
  else text.rowStart p.row + min p.column (text.rowEnd p.row - text.rowStart p.row)

/-- The part from byte `a` up to byte `b`; none if the two are inverted, or one of them lies past the end or inside
a character. -/
def slice? (text : Text) (a b : Nat) : Option Text :=
  if a ≤ b ∧ text.isBoundary a ∧ text.isBoundary b then
    some ((text.take (text.charOfByte b)).drop (text.charOfByte a))
  else none

def insertAt (text : Text) (n : Nat) (inserted : Text) : Text :=
  text.take n ++ inserted ++ text.drop n

def deleteAt (text : Text) (n count : Nat) : Text :=
  text.take n ++ text.drop (n + count)

end LiveSyntax.Text
