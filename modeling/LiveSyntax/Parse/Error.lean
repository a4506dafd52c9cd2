import LiveSyntax.Change.Edit
import LiveSyntax.Language.Registry
import LiveSyntax.Selection.Covering
import LiveSyntax.Tree.Builder

/-!
# What can go wrong with a buffer

One type for everything that parsing, updating or reading the tree of a buffer may fail with, and the wording of each
failure.
-/

namespace LiveSyntax

abbrev BufferId := Nat

def bufferName (buffer : BufferId) : String :=
  s!"buffer#{buffer}"

inductive BufferError where
  | grammar (error : GrammarError)
  /-- The source is not UTF-8 beyond a byte. -/
  | unsupportedEncoding (validUpTo : Nat)
  | untracked (buffer : BufferId)
  | outOfBounds (error : OutOfBounds)
  | noTree (grammar : String)
  | conversion (error : BuildError)
  | invalidEdit (error : EditError)
  /-- A length computed from the edits is no word. The call does not return, and the buffer is left as it was. -/
  | overflow
  /-- The changes do not lead to the new source. -/
  | editMismatch (buffer : BufferId)
  /-- The buffer was changed while its own observers were being told. -/
  | reentrant (buffer : BufferId)
  | query (text : String)
  deriving DecidableEq, Repr

def BufferError.ofEditFault : EditFault → BufferError
  | .refused error => .invalidEdit error
  | .overflow => .overflow

def BufferError.message : BufferError → String
  | .grammar error => error.message
  | .unsupportedEncoding validUpTo => s!"source is not valid UTF-8 (valid up to byte {validUpTo})"
  | .untracked buffer => bufferName buffer ++ " is not tracked"
  | .outOfBounds error => error.message
  | .noTree name => "parser produced no tree for grammar " ++ Quoted.render name
  | .conversion error => "parser tree could not be converted: " ++ error.message
  | .invalidEdit error => "invalid edit: " ++ error.message
  | .overflow => "attempt to add with overflow"
  | .editMismatch buffer => "replaying the changes for " ++ bufferName buffer ++ " does not reproduce the new source"
  | .reentrant buffer => bufferName buffer ++ " was mutated from inside its own change notification"
  | .query text => "query error: " ++ text

end LiveSyntax
