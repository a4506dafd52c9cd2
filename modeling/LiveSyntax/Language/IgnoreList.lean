import LiveSyntax.Regex.Pattern

/-!
# Ignored files

A list of patterns; a path is ignored if one of them matches somewhere in it.
-/

namespace LiveSyntax

structure IgnoreList where
  regexes : List Regex
  deriving Repr

namespace IgnoreList

/-- The list of some patterns, or the first of them that is no pattern. -/
def compile : List String → Except String IgnoreList
  | [] => .ok ⟨[]⟩
  | pattern :: rest =>
    match Regex.parse? pattern.toList with
    | none => .error pattern
    | some regex => (compile rest).map fun list => ⟨regex :: list.regexes⟩

def size (list : IgnoreList) : Nat :=
  list.regexes.length

/-- Whether one of the patterns matches somewhere in a path. -/
def isIgnored (list : IgnoreList) (path : String) : Bool :=
  list.regexes.any fun regex => regex.isMatch path.toList

end IgnoreList

end LiveSyntax
