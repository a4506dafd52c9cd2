import LiveSyntax.Language.Scope
import LiveSyntax.Language.Settings
import LiveSyntax.Text.Quoted

/-!
# Grammar registries

A `Registry` knows grammars by name. A grammar is loaded, or it is known and cannot be loaded for some reason. Scopes
lead only to grammars that the registry knows.
-/

namespace LiveSyntax

structure Language where
  name : String
  deriving DecidableEq, Repr, Inhabited

inductive Availability where
  | loaded (language : Language)
  | unavailable (reason : String)
  deriving DecidableEq, Repr

inductive GrammarError where
  /-- Nothing is known under this name. -/
  | unsupported (name : String)
  /-- It is known and cannot be used. -/
  | unavailable (name reason : String)
  deriving DecidableEq, Repr

def GrammarError.message : GrammarError → String
  | .unsupported name => "no grammar registered under " ++ Quoted.render name
  | .unavailable name reason => "grammar " ++ Quoted.render name ++ " is unavailable: " ++ reason

structure Registry where
  grammars : Std.TreeMap String Availability
  /-- All claims to scopes. -/
  allScopes : ScopeTable
  /-- The claims of the known grammars. -/
  scopes : ScopeTable

namespace Registry

/-- No grammar is known; the claims to scopes wait for them. -/
def withScopes (scopes : ScopeTable) : Registry :=
  { grammars := ∅, allScopes := scopes, scopes := ScopeTable.empty }

def empty : Registry :=
  withScopes ScopeTable.builtin

def names (r : Registry) : List String :=
  r.grammars.keys

def size (r : Registry) : Nat :=
  r.grammars.size

/-- Sets what is known about a grammar, and keeps the claims of the known ones. -/
def set (r : Registry) (name : String) (availability : Availability) : Registry :=
  let grammars := r.grammars.insert name availability
  { r with grammars, scopes := r.allScopes.retain grammars.keys }

def register (r : Registry) (name : String) (language : Language) : Registry :=
  r.set name (.loaded language)

def markUnavailable (r : Registry) (name reason : String) : Registry :=
  r.set name (.unavailable reason)

def grammarFor (r : Registry) (name : String) : Except GrammarError Language :=
  match r.grammars[name]? with
  | some (.loaded language) => .ok language
  | some (.unavailable reason) => .error (.unavailable name reason)
  | none => .error (.unsupported name)

def isLoaded (r : Registry) (name : String) : Bool :=
  match r.grammarFor name with
  | .ok _ => true
  | .error _ => false

def isSupported (r : Registry) (name : String) : Bool :=
  r.grammars.contains name

def grammarOfScope? (r : Registry) (scope : String) : Option String :=
  r.scopes.languageOf? scope

def notProvided : String := "grammar was not provided by the host"

/-- The registry of user settings: of the languages that the host provides, those installed are registered, and all of
them if none is named; what is installed and not provided is unavailable. -/
def ofSettings (settings : Settings) (languages : List (String × Language)) : Registry :=
  let installed := settings.installedLanguages
  let provided := languages.filter fun entry => installed.isEmpty || installed.contains entry.1
  let registered := provided.foldl (fun r entry => r.register entry.1 entry.2) (withScopes settings.scopeTable)
  installed.foldl (fun r name => if r.isSupported name then r else r.markUnavailable name notProvided) registered

def describe (r : Registry) : String :=
  "GrammarRegistry \x7b grammars: [" ++ String.intercalate ", " (r.names.map Quoted.render) ++ "], scopes: " ++
    toString r.scopes.scopeCount ++ " \x7d"

end Registry

end LiveSyntax
