import LiveSyntax.Change.Replay
import LiveSyntax.Parse.Error
import LiveSyntax.Parse.Parser
import LiveSyntax.Text.Utf8

/-!
# Parsing sources

A source comes as bytes. It is decoded, its grammar is looked up and taken up by the parser, and if it was reached
from an earlier parse by edits, these are checked against both lengths. Then it is parsed and the parser's tree is
made into a syntax tree.
-/

namespace LiveSyntax

inductive ParseMode where
  | full
  /-- From an earlier tree, by edits. -/
  | incremental
  deriving DecidableEq, Repr

structure Parsed where
  raw : ParseTree
  tree : Tree
  language : Language
  mode : ParseMode

namespace Parser

/-- The edits that lead from the earlier source, if an earlier tree of this grammar can be reused: they fit it or the
parse fails, and without any the parse is full. -/
def modeFor (previous : Option Parsed) (edits : List Edit) (grammar : String) (newLength : Nat) :
    Except EditFault ParseMode :=
  match previous with
  | none => .ok .full
  | some parsed =>
    if parsed.tree.grammar = grammar ∧ edits ≠ [] then
      match Edit.checkChain parsed.tree.sourceLength edits newLength with
      | .error fault => .error fault
      | .ok () => .ok .incremental
    else .ok .full

def reparse (parser : Parser) (registry : Registry) (previous : Option Parsed) (edits : List Edit)
    (grammar : String) (source : List UInt8) : Except BufferError Parsed :=
  match Utf8.decode source with
  | .error validUpTo => .error (.unsupportedEncoding validUpTo)
  | .ok text =>
    match parser.languageFor registry grammar with
    | .error e => .error (.grammar e)
    | .ok language =>
      match modeFor previous edits grammar text.byteCount with
      | .error fault => .error (.ofEditFault fault)
      | .ok mode =>
        match parser.parse language text with
        | none => .error (.noTree grammar)
        | some raw =>
          match Tree.ofParse grammar text raw with
          | .error e => .error (.conversion e)
          | .ok tree => .ok { raw, tree, language, mode }

def parseFull (parser : Parser) (registry : Registry) (grammar : String) (source : List UInt8) :
    Except BufferError Parsed :=
  parser.reparse registry none [] grammar source

end Parser

end LiveSyntax
