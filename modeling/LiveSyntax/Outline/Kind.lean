/-!
# Kinds of symbols

A coarse tag for what a symbol is, read from the name of a capture and written as a word or as one letter.
-/

namespace LiveSyntax

inductive SymbolKind where
  | classType
  | typeAlias
  | interface
  | variable
  | constant
  | object
  | element
  | importItem
  | function
  | call
  | block
  | conditional
  | loop
  | unknown
  deriving DecidableEq, Repr

namespace SymbolKind

def definitionMark : String := "definition."

def ofWord : String → SymbolKind
  | "class" => .classType
  | "type" => .typeAlias
  | "interface" => .interface
  | "var" => .variable
  | "variable" => .variable
  | "constant" => .constant
  | "object" => .object
  | "element" => .element
  | "import" => .importItem
  | "function" => .function
  | "method" => .function
  | "call" => .call
  | "block" => .block
  | "if" => .conditional
  | "loop" => .loop
  | _ => .unknown

/-- The kind that the name of a capture stands for, with or without the definition mark. -/
def ofCapture (name : String) : SymbolKind :=
  let chars := name.toList
  let mark := definitionMark.toList
  if mark.isPrefixOf chars then ofWord (String.ofList (chars.drop mark.length)) else ofWord name

def word : SymbolKind → String
  | .classType => "class"
  | .typeAlias => "type"
  | .interface => "interface"
  | .variable => "var"
  | .constant => "constant"
  | .object => "object"
  | .element => "element"
  | .importItem => "import"
  | .function => "function"
  | .call => "call"
  | .block => "block"
  | .conditional => "if"
  | .loop => "loop"
  | .unknown => "unknown"

def letter : SymbolKind → Char
  | .classType | .constant => 'c'
  | .typeAlias => 't'
  | .interface | .importItem | .conditional => 'i'
  | .variable => 'v'
  | .object => 'o'
  | .element => 'e'
  | .function => 'f'
  | .call | .loop => 'l'
  | .block => 'b'
  | .unknown => '?'

end SymbolKind

end LiveSyntax
