import LiveSyntax.Language.Registry
import LiveSyntax.Parse.Tree

/-!
# The parser

What the library needs from a parser, as functions of its arguments. A parse depends on the language and the text alone:
edits may make it faster and never change its answer. Nodes of the parser's tree are named by their place in pre-order.
-/

namespace LiveSyntax

structure Parser where
  /-- Takes a language up, or says why it cannot. -/
  load : Language → Except String Unit
  /-- The tree of a text, unless the parser gives up. -/
  parse : Language → Text → Option ParseTree
  /-- The names of the captures of a query, or why it does not compile. -/
  compile : Language → String → Except String (List String)
  /-- The captures of a query below a node of a text's tree, as capture and node, in the order of delivery. -/
  captures : Language → String → Text → Nat → List (Nat × Nat)
  /-- The smallest node of a text's tree that spans some bytes. -/
  descendant? : Language → String → Text → Span → Option Nat

/-- The language of a grammar, once the parser has taken it up. -/
def Parser.languageFor (parser : Parser) (registry : Registry) (grammar : String) : Except GrammarError Language :=
  match registry.grammarFor grammar with
  | .error e => .error e
  | .ok language =>
    match parser.load language with
    | .error reason => .error (.unavailable grammar reason)
    | .ok () => .ok language

end LiveSyntax
