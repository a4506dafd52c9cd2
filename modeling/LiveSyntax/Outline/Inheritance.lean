import LiveSyntax.Language.File
import LiveSyntax.Text.Blank

/-!
# Query files and what they inherit

The query file of a language may name other languages whose queries it takes over, on a line that starts with
`; inherits:`. Loading a query appends theirs, and what they inherit in turn. A language that is already being loaded is
passed over, so that cycles end; so is an inherited one without a file.
-/

namespace LiveSyntax

structure QueryFiles where
  files : Files
  /-- The directory that has one directory for each language. -/
  directory : String
  /-- The name of the query file in the directory of a language. -/
  file : String

structure QueryFileError where
  path : String
  fault : FileFault
  deriving DecidableEq, Repr

namespace QueryFiles

def inheritsMark : Text := "; inherits:".toList

def withoutReturn (line : Text) : Text :=
  if line.getLast? = some '\r' then line.dropLast else line

def inheritsList? (line : Text) : Option Text :=
  if inheritsMark.isPrefixOf line then some (line.drop inheritsMark.length) else none

/-- The lines of a text that a line feed ends. What follows the last line feed counts unless it is empty. -/
def lines (text : Text) : List Text :=
  match text.rows.reverse with
  | [] => []
  | last :: earlier =>
    let ended := (earlier.reverse).map withoutReturn
    if last.isEmpty then ended else ended ++ [last]

def parents (text : Text) : List String :=
  match ((lines text).filterMap inheritsList?).getLast? with
  | none => []
  | some list => ((Text.partsBetween ',' list).map Text.trimBlank).filterMap fun name =>
    if name.isEmpty then none else some (String.ofList name)

def path (files : QueryFiles) (language : String) : String :=
  joinPath (joinPath files.directory language) files.file

def read (files : QueryFiles) (language : String) : Except FileFault Text :=
  files.files.readText (files.path language)

/-- The query of a language with all that it inherits. `visiting` holds the languages being loaded, and `fuel` bounds
how many these may become. -/
def loadUpTo (files : QueryFiles) : (fuel : Nat) → (visiting : List String) → (inherited : Bool) →
    (language : String) → Except QueryFileError Text
  | 0, _, _, _ => .ok []
  | fuel + 1, visiting, inherited, language =>
    if visiting.contains language then .ok []
    else
      match files.read language with
      | .error fault =>
        if inherited && fault == .notFound then .ok [] else .error ⟨files.path language, fault⟩
      | .ok text => do
        let below ← (parents text).mapM (loadUpTo files fuel (language :: visiting) true)
        return List.intercalate ['\n'] (text :: below)

/-- The languages that all files together name as parents. -/
def named (files : QueryFiles) : List String :=
  files.files.texts.flatMap parents

/-- The query of a language with all that it inherits. Beyond the language itself only named parents are visited, so no
more of them than are named are being loaded at once. -/
def load (files : QueryFiles) (language : String) : Except QueryFileError Text :=
  files.loadUpTo (files.named.length + 2) [] false language

end QueryFiles

end LiveSyntax
