import Std.Data.TreeMap

/-!
# Name tables

A tree repeats a few kinds and fields many times, so its nodes refer to them by number. A `NameTable` numbers each name
at its first use, in the order of first uses, and never renumbers one.
-/

namespace LiveSyntax

structure NameTable where
  /-- The names; the number of a name is its place. -/
  names : Array String
  numbers : Std.TreeMap String Nat
  names_of_numbers : ∀ {name : String} {number : Nat}, numbers[name]? = some number → names[number]? = some name

namespace NameTable

theorem getElem?_push_of_some {names : Array String} {number : Nat} {other : String} (name : String)
    (h : names[number]? = some other) : (names.push name)[number]? = some other := by
  have hlt : number < names.size := (Array.getElem?_eq_some_iff.mp h).1
  rw [Array.getElem?_push_lt hlt]
  exact (Array.getElem?_eq_getElem hlt).symm.trans h

def empty : NameTable :=
  { names := #[], numbers := ∅, names_of_numbers := by simp }

instance : Inhabited NameTable := ⟨empty⟩

def push (t : NameTable) (name : String) : NameTable where
  names := t.names.push name
  numbers := t.numbers.insert name t.names.size
  names_of_numbers := by
    intro other number h
    rw [Std.TreeMap.getElem?_insert] at h
    split at h
    · next heq =>
      obtain rfl : name = other := by simpa using heq
      obtain rfl : t.names.size = number := by simpa using h
      exact Array.getElem?_push_size
    · exact getElem?_push_of_some name (t.names_of_numbers h)

/-- The number of a name, with the table after it was asked for. -/
def intern (t : NameTable) (name : String) : NameTable × Nat :=
  match t.numbers[name]? with
  | some number => (t, number)
  | none => (t.push name, t.names.size)

def intern? (t : NameTable) : Option String → NameTable × Option Nat
  | none => (t, none)
  | some name => ((t.intern name).1, some (t.intern name).2)

theorem names_intern (t : NameTable) (name : String) : (t.intern name).1.names[(t.intern name).2]? = some name := by
  unfold intern
  split
  · next h => exact t.names_of_numbers h
  · exact Array.getElem?_push_size

theorem names_intern_of_some {t : NameTable} {number : Nat} {other : String} (name : String)
    (h : t.names[number]? = some other) : (t.intern name).1.names[number]? = some other := by
  unfold intern
  split
  · exact h
  · exact getElem?_push_of_some name h

end NameTable

end LiveSyntax
