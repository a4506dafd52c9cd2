import LiveSyntax.Json.Number
import LiveSyntax.Json.Reader
import LiveSyntax.Language.File
import LiveSyntax.Language.IgnoreList
import LiveSyntax.Language.Scope

/-!
# User settings

Settings are read from a JSON object, all of whose fields may be missing, or from an array that gives the fields in
order. Unknown fields are passed over. A field given twice is an error; in a map inside a field, the last of several
equal names counts. Settings whose ignore patterns do not compile are refused.
-/

namespace LiveSyntax

structure Settings where
  installedLanguages : List String
  scopeOverrides : Std.TreeMap String (List String)
  /-- How long to wait after a change, in milliseconds. -/
  debounce : Std.TreeMap String Float
  ignorePatterns : List String
  debug : Bool
  queriesPath : Option String
  maxTrees : Option Nat

inductive SettingsError where
  | malformed
  | invalidIgnorePattern (pattern : String)
  | unreadable (fault : FileFault)
  deriving DecidableEq, Repr

namespace Json

def string? : Json → Option String
  | .string pieces => (Piece.assemble? pieces).map String.ofList
  | _ => none

def bool? : Json → Option Bool
  | .bool value => some value
  | _ => none

def strings? : Json → Option (List String)
  | .array items => items.mapM string?
  | _ => none

def double? : Json → Option Float
  | .number numeral => numeral.double?
  | _ => none

def word? : Json → Option Nat
  | .number numeral => numeral.word?
  | _ => none

/-- Null, or a value of some kind. -/
def nullable? {α : Type} (read : Json → Option α) : Json → Option (Option α)
  | .null => some none
  | value => (read value).map some

def map? {α : Type} (read : Json → Option α) : Json → Option (Std.TreeMap String α)
  | .object members =>
    members.foldlM (fun table (name, value) => do
      let name ← Piece.assemble? name
      let value ← read value
      return table.insert (String.ofList name) value) ∅
  | _ => none

end Json

namespace Settings

def default : Settings :=
  { installedLanguages := [], scopeOverrides := ∅, debounce := ∅, ignorePatterns := [], debug := false
    queriesPath := none, maxTrees := none }

def isDefault (s : Settings) : Bool :=
  s.installedLanguages.isEmpty && s.scopeOverrides.isEmpty && s.debounce.isEmpty && s.ignorePatterns.isEmpty &&
    !s.debug && s.queriesPath.isNone && s.maxTrees.isNone

inductive Field where
  | installedLanguages
  | scopeOverrides
  | debounce
  | ignorePatterns
  | debug
  | queriesPath
  | maxTrees
  deriving DecidableEq, Repr

def Field.all : List Field :=
  [.installedLanguages, .scopeOverrides, .debounce, .ignorePatterns, .debug, .queriesPath, .maxTrees]

def Field.name : Field → String
  | .installedLanguages => "installed_languages"
  | .scopeOverrides => "language_name_to_scopes"
  | .debounce => "language_name_to_debounce_ms"
  | .ignorePatterns => "file_ignore_patterns"
  | .debug => "debug"
  | .queriesPath => "queries_path"
  | .maxTrees => "max_cached_trees"

/-- Sets a field to a value, if it is of the right kind. -/
def set? (s : Settings) (field : Field) (value : Json) : Option Settings :=
  match field with
  | .installedLanguages => value.strings?.map fun v => { s with installedLanguages := v }
  | .scopeOverrides => (value.map? Json.strings?).map fun v => { s with scopeOverrides := v }
  | .debounce => (value.map? Json.double?).map fun v => { s with debounce := v }
  | .ignorePatterns => value.strings?.map fun v => { s with ignorePatterns := v }
  | .debug => value.bool?.map fun v => { s with debug := v }
  | .queriesPath => (value.nullable? Json.string?).map fun v => { s with queriesPath := v }
  | .maxTrees => (value.nullable? Json.word?).map fun v => { s with maxTrees := v }

/-- Sets the fields that an object names, each at most once. -/
def setMembers? (s : Settings) (seen : List Field) : List (List Json.Piece × Json) → Option Settings
  | [] => some s
  | (name, value) :: rest => do
    let name ← Json.Piece.assemble? name
    match Field.all.find? fun field => field.name.toList == name with
    | none => setMembers? s seen rest
    | some field =>
      if seen.contains field then failure
      let s ← s.set? field value
      setMembers? s (field :: seen) rest

/-- Sets the fields that a list of values gives in order. -/
def setItems? (s : Settings) : List Field → List Json → Option Settings
  | _, [] => some s
  | [], _ :: _ => none
  | field :: fields, value :: rest => do
    let s ← s.set? field value
    setItems? s fields rest

def ofJson? : Json → Option Settings
  | .object members => default.setMembers? [] members
  | .array items => default.setItems? Field.all items
  | _ => none

def ignoreList (s : Settings) : Except String IgnoreList :=
  IgnoreList.compile s.ignorePatterns

def ofText (text : Text) : Except SettingsError Settings :=
  match Json.read? text >>= ofJson? with
  | none => .error .malformed
  | some settings =>
    match settings.ignoreList with
    | .error pattern => .error (.invalidIgnorePattern pattern)
    | .ok _ => .ok settings

def ofFile (contents : Option (List UInt8)) : Except SettingsError Settings :=
  match contents with
  | none => .error (.unreadable .notFound)
  | some contents =>
    match fileText contents with
    | .error fault => .error (.unreadable fault)
    | .ok text => ofText text

def scopeTable (s : Settings) : ScopeTable :=
  ScopeTable.withOverrides s.scopeOverrides

def installedScopeTable (s : Settings) : ScopeTable :=
  s.scopeTable.retain s.installedLanguages

/-- How long to wait after a change, in whole milliseconds: a half is rounded up, and a time that is not positive
counts as none. -/
def debounceFor (s : Settings) (language : String) : Nat :=
  match s.debounce[language]? with
  | none => 0
  | some ms => if ms.isFinite && ms > 0 then ms.round.toUInt64.toNat else 0

end Settings

end LiveSyntax
