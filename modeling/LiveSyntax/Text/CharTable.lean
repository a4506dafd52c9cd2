/-!
# Tables of characters

A `CharTable` lists the code points of a class as ascending ranges, both ends included.
-/

namespace LiveSyntax

abbrev CharTable := List (Nat × Nat)

def CharTable.hasCode (table : CharTable) (n : Nat) : Bool :=
  table.any fun (low, high) => decide (low ≤ n ∧ n ≤ high)

def CharTable.hasChar (table : CharTable) (c : Char) : Bool :=
  table.hasCode c.toNat

end LiveSyntax
