import LiveSyntax.Text.Utf8

/-!
# Files by path

`Files` is what a file system has to offer to a reader: some contents, and for every path which of them it leads to, or
why it leads nowhere. What a path means (dots, links, separators at its end) is up to the file system. A text is read
from a file whose contents are UTF-8.
-/

namespace LiveSyntax

inductive FileFault where
  | notFound
  /-- The contents are not UTF-8. -/
  | invalidData
  /-- Anything else, in the word of the file system. -/
  | other (kind : String)
  deriving DecidableEq, Repr

/-- A path below another one. A path from the top of all directories stands for itself. -/
def joinPath (base below : String) : String :=
  if below.toList.head? = some '/' then below
  else if base.isEmpty ∨ base.toList.getLast? = some '/' then base ++ below
  else base ++ "/" ++ below

def Text.partsBetween (separator : Char) : Text → List Text
  | [] => [[]]
  | c :: rest =>
    if c = separator then [] :: partsBetween separator rest
    else match partsBetween separator rest with
      | [] => [[c]]
      | part :: others => (c :: part) :: others

def fileText (contents : List UInt8) : Except FileFault Text :=
  (Utf8.decode contents).mapError fun _ => .invalidData

/-- The contents of all files, and which of them a path leads to. -/
structure Files where
  contents : List (List UInt8)
  find : String → Except FileFault (Fin contents.length)

namespace Files

def readText (files : Files) (path : String) : Except FileFault Text := do
  fileText (files.contents.get (← files.find path))

def texts (files : Files) : List Text :=
  files.contents.filterMap fun contents => (fileText contents).toOption

theorem mem_texts {files : Files} {path : String} {text : Text} (h : files.readText path = .ok text) :
    text ∈ files.texts := by
  unfold readText at h
  cases hfind : files.find path with
  | error fault =>
    rw [hfind] at h
    cases h
  | ok i =>
    rw [hfind] at h
    have htext : fileText (files.contents.get i) = .ok text := h
    exact List.mem_filterMap.mpr ⟨_, List.get_mem _ _, by rw [htext]; rfl⟩

end Files

end LiveSyntax
