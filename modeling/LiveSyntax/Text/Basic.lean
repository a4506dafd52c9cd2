/-!
# Texts

A `Text` is a list of characters. Its length is measured in three units: characters (`List.length`), bytes of
its UTF-8 form, and rows. Only the line feed ends a row, so a carriage return is an ordinary character, and a text
with `n` line feeds has `n + 1` rows.
-/

namespace LiveSyntax

abbrev Text := List Char

namespace Text

def bytes (text : Text) : List UInt8 :=
  text.flatMap String.utf8EncodeChar

def byteCount : Text → Nat
  | [] => 0
  | c :: rest => c.utf8Size + byteCount rest

def lineFeed : UInt8 := 10

/-- The rows of a text, without the line feeds between them. There is always at least one. -/
def rows : Text → List Text
  | [] => [[]]
  | c :: rest =>
    if c = '\n' then [] :: rows rest
    else match rows rest with
      | [] => [[c]]
      | row :: below => (c :: row) :: below

def rowCount (text : Text) : Nat :=
  text.rows.length

theorem length_bytes (text : Text) : text.bytes.length = text.byteCount := by
  induction text with
  | nil => rfl
  | cons c rest ih =>
    simp only [bytes, byteCount, List.flatMap_cons, List.length_append, String.length_utf8EncodeChar] at ih ⊢
    rw [ih]

@[simp] theorem byteCount_append (s t : Text) : byteCount (s ++ t) = byteCount s + byteCount t := by
  induction s with
  | nil => simp [byteCount]
  | cons c rest ih =>
    rw [List.cons_append, byteCount, byteCount, ih, Nat.add_assoc]

theorem rows_ne_nil (text : Text) : text.rows ≠ [] := by
  cases text with
  | nil => simp [rows]
  | cons c rest =>
    simp only [rows]
    split
    · simp
    · split <;> simp

end Text

end LiveSyntax
