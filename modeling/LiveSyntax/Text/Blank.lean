import LiveSyntax.Text.Basic
import LiveSyntax.Text.CharTable

/-!
# Blank characters and words

`Blank` characters are those with the Unicode property White_Space. A name taken from a source text is written with
one space between its words and none around them.
-/

namespace LiveSyntax

/-- Code points with the property White_Space. -/
def CharTable.blank : CharTable :=
  [(0x9, 0xD), (0x20, 0x20), (0x85, 0x85), (0xA0, 0xA0), (0x1680, 0x1680), (0x2000, 0x200A), (0x2028, 0x2029),
   (0x202F, 0x202F), (0x205F, 0x205F), (0x3000, 0x3000)]

def isBlank (c : Char) : Bool :=
  CharTable.blank.hasChar c

namespace Text

/-- The maximal runs of characters that are not blank. -/
def words : Text → List Text
  | [] => []
  | c :: rest =>
    if isBlank c then words rest
    else match rest, words rest with
      | next :: _, word :: others => if isBlank next then [c] :: word :: others else (c :: word) :: others
      | _, others => [c] :: others

def singleSpaced (text : Text) : Text :=
  List.intercalate [' '] text.words

def trimBlank (text : Text) : Text :=
  ((text.dropWhile isBlank).reverse.dropWhile isBlank).reverse

end Text

end LiveSyntax
