/-!
# Offsets as machine words

Offsets and lengths are natural numbers below `2 ^ 64`. A sum of offsets may leave that range. Some sums are then held
at the greatest word. The others have no value, and neither has a difference below zero: the computation stops there.
Where a difference is held at zero instead, it is the subtraction of `Nat`.
-/

namespace LiveSyntax.Offset

def greatest : Nat := 18446744073709551615

/-- The sum of two offsets, held at the greatest word. -/
def addHeld (a b : Nat) : Nat :=
  min (a + b) greatest

def sum? (a b : Nat) : Option Nat :=
  if a + b ≤ greatest then some (a + b) else none

def difference? (a b : Nat) : Option Nat :=
  if b ≤ a then some (a - b) else none

theorem sum?_of_le {a b : Nat} (h : a + b ≤ greatest) : sum? a b = some (a + b) :=
  if_pos h

theorem difference?_of_le {a b : Nat} (h : b ≤ a) : difference? a b = some (a - b) :=
  if_pos h

end LiveSyntax.Offset
