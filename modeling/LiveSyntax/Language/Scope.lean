import LiveSyntax.Language.BuiltinScopes
import Std.Data.TreeMap

/-!
# Scope tables

An editor names the language of a place by a dotted scope such as `text.html.basic`. A `ScopeTable` keeps, for every
language, the scopes that it claims, and for every scope the language that serves it: the one that claimed it last. A
scope that nobody claimed is resolved to the longest claimed one that it extends by a dot.
-/

namespace LiveSyntax

/-- Scopes by language and languages by scope. -/
structure ScopeTable where
  /-- The scopes that each language claims. -/
  scopes : Std.TreeMap String (List String)
  /-- The language that serves each scope. -/
  languages : Std.TreeMap String String

namespace ScopeTable

def empty : ScopeTable :=
  ⟨∅, ∅⟩

def scopesOf (t : ScopeTable) (language : String) : List String :=
  t.scopes.getD language []

def languageNames (t : ScopeTable) : List String :=
  t.scopes.keys

def scopeCount (t : ScopeTable) : Nat :=
  t.languages.size

/-- A language gives up a scope, if it still serves it. -/
def release (language : String) (languages : Std.TreeMap String String) (scope : String) :
    Std.TreeMap String String :=
  if languages[scope]? = some language then languages.erase scope else languages

/-- A language claims scopes. It gives up those that it claimed before and still serves. -/
def insert (t : ScopeTable) (language : String) (scopes : List String) : ScopeTable :=
  let released := (t.scopesOf language).foldl (release language) t.languages
  { scopes := t.scopes.insert language scopes
    languages := scopes.foldl (fun table scope => table.insert scope language) released }

/-- Keeps only some languages, and only the scopes that one of these serves. -/
def retain (t : ScopeTable) (kept : List String) : ScopeTable :=
  let scopes := t.scopes.filter fun language _ => kept.contains language
  { scopes, languages := t.languages.filter fun _ language => scopes.contains language }

/-- Whether a scope extends another one by a dot. -/
def extendsByDot (scope shorter : String) : Bool :=
  (shorter.toList ++ ['.']).isPrefixOf scope.toList

/-- The longer of two scopes; of two that are as long, the second. -/
def longer (best : Option String) (scope : String) : Option String :=
  match best with
  | none => some scope
  | some other => if other.utf8ByteSize ≤ scope.utf8ByteSize then some scope else some other

/-- The claimed scope that stands for a scope: itself, or else the longest one that it extends by a dot. -/
def resolve? (t : ScopeTable) (scope : String) : Option String :=
  if t.languages.contains scope then some scope
  else (t.languages.keys.filter (extendsByDot scope)).foldl longer none

def languageOf? (t : ScopeTable) (scope : String) : Option String :=
  match t.resolve? scope with
  | none => none
  | some resolved => t.languages[resolved]?

def insertAll (t : ScopeTable) (claims : List (String × List String)) : ScopeTable :=
  claims.foldl (fun t claim => t.insert claim.1 claim.2) t

def builtin : ScopeTable :=
  empty.insertAll builtinScopes

/-- The built-in table in which the overrides stand in for the claims of the languages that they name. They come last,
in the order of their names, so that of two claims to a scope the override wins. -/
def withOverrides (overrides : Std.TreeMap String (List String)) : ScopeTable :=
  (empty.insertAll (builtinScopes.filter fun claim => !overrides.contains claim.1)).insertAll overrides.toList

def agrees (t u : ScopeTable) : Bool :=
  t.scopes.toList == u.scopes.toList && t.languages.toList == u.languages.toList

end ScopeTable

end LiveSyntax
