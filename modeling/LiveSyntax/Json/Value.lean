import LiveSyntax.Text.Basic

/-!
# JSON values as written

A `Json` value keeps what a reader may still need to know about its spelling: a number keeps its digits, and a string
keeps the units of its escapes, because an unpaired surrogate is harmless in a value that nobody reads.
-/

namespace LiveSyntax

namespace Json

structure Numeral where
  negative : Bool
  whole : List Nat
  fraction : Option (List Nat)
  /-- Whether the exponent has a minus sign, and its digits, if there is one. -/
  exponent : Option (Bool × List Nat)
  deriving DecidableEq, Repr

inductive Piece where
  /-- A character, as such or by a short escape. -/
  | char (c : Char)
  /-- A sixteen-bit unit, by number. -/
  | unit (n : Nat)
  deriving DecidableEq, Repr

def isHighSurrogate (n : Nat) : Bool :=
  decide (0xD800 ≤ n ∧ n ≤ 0xDBFF)

def isLowSurrogate (n : Nat) : Bool :=
  decide (0xDC00 ≤ n ∧ n ≤ 0xDFFF)

/-- The text of a string: units stand for themselves or, two by two, for the rest of the code points. None if half of a
pair stands alone. -/
def Piece.assemble? : List Piece → Option Text
  | [] => some []
  | .char c :: rest => (assemble? rest).map (c :: ·)
  | [.unit n] => if isHighSurrogate n || isLowSurrogate n then none else some [Char.ofNat n]
  | .unit n :: .char c :: rest =>
    if isHighSurrogate n || isLowSurrogate n then none
    else (assemble? rest).map fun text => Char.ofNat n :: c :: text
  | .unit n :: .unit m :: rest =>
    if isHighSurrogate n then
      if isLowSurrogate m then
        (assemble? rest).map (Char.ofNat (0x10000 + (n - 0xD800) * 0x400 + (m - 0xDC00)) :: ·)
      else none
    else if isLowSurrogate n then none
    else (assemble? (.unit m :: rest)).map (Char.ofNat n :: ·)

end Json

inductive Json where
  | null
  | bool (value : Bool)
  | number (value : Json.Numeral)
  | string (value : List Json.Piece)
  | array (items : List Json)
  | object (members : List (List Json.Piece × Json))
  deriving Repr

end LiveSyntax
