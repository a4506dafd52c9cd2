import LiveSyntax.Text.Basic

/-!
# Reading UTF-8

`Utf8.split` reads characters off a byte string as long as it can: it returns the longest text whose UTF-8 form
starts the bytes, and the bytes left over. Overlong forms, surrogates and numbers above `0x10FFFF` are not read.
-/

namespace LiveSyntax.Utf8

/-- The six bits that a continuation byte carries. -/
def continuation? (b : UInt8) : Option Nat :=
  if 0x80 ≤ b.toNat ∧ b.toNat ≤ 0xBF then some (b.toNat - 0x80) else none

/-- The character of a number that its byte length needs: at least `least`, and a Unicode scalar value. -/
def scalar? (least n : Nat) : Option Char :=
  if h : n.isValidChar then
    if least ≤ n then some (Char.ofNatAux n h) else none
  else none

/-- The first character of a byte string, with the number of bytes that it takes. -/
def character? : List UInt8 → Option (Char × Nat)
  | [] => none
  | a :: rest =>
    if a.toNat < 0x80 then (scalar? 0 a.toNat).map (·, 1)
    else if 0xC0 ≤ a.toNat ∧ a.toNat < 0xE0 then do
      let b ← rest[0]? >>= continuation?
      (scalar? 0x80 ((a.toNat - 0xC0) * 64 + b)).map (·, 2)
    else if 0xE0 ≤ a.toNat ∧ a.toNat < 0xF0 then do
      let b ← rest[0]? >>= continuation?
      let c ← rest[1]? >>= continuation?
      (scalar? 0x800 (((a.toNat - 0xE0) * 64 + b) * 64 + c)).map (·, 3)
    else if 0xF0 ≤ a.toNat ∧ a.toNat < 0xF8 then do
      let b ← rest[0]? >>= continuation?
      let c ← rest[1]? >>= continuation?
      let d ← rest[2]? >>= continuation?
      (scalar? 0x10000 ((((a.toNat - 0xF0) * 64 + b) * 64 + c) * 64 + d)).map (·, 4)
    else none

def splitUpTo : (fuel : Nat) → List UInt8 → Text × List UInt8
  | 0, bytes => ([], bytes)
  | fuel + 1, bytes =>
    match character? bytes with
    | none => ([], bytes)
    | some (c, size) =>
      let (text, rest) := splitUpTo fuel (bytes.drop size)
      (c :: text, rest)

/-- The longest text whose UTF-8 form starts the bytes, and the bytes after it. -/
def split (bytes : List UInt8) : Text × List UInt8 :=
  splitUpTo bytes.length bytes

/-- The text that the bytes are the UTF-8 form of, or else the length of their longest readable start. -/
def decode (bytes : List UInt8) : Except Nat Text :=
  match split bytes with
  | (text, []) => .ok text
  | (text, _ :: _) => .error text.byteCount

end LiveSyntax.Utf8
