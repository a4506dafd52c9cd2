import LiveSyntax.Proofs.Builder
import LiveSyntax.Proofs.StoreSteps
import LiveSyntax.Proofs.Utf8

/-!
# The store does not remember how a tree was reached

A tree on the shelf may be the last of many: it was tracked, edited, changed, replaced from inside a
round, and grammars came and went meanwhile. A `Ledger` keeps only what the calls of a run show: which
grammars were set, and which buffer, grammar and source each successful install was asked for. It knows
nothing of edits or of earlier trees. Still it determines every tree on the shelf, because each one is
what a parse from nothing makes of the last install of its buffer.

## Main definitions

- `Ledger`, `Ledger.note`: the installs of a run, read off the actions and their outcomes.
- `Ledger.last?`: the last install of a buffer.
- `Store.Matches`: every tree of a store is that of the last install of its buffer.

## Main results

- `Parser.reparse_eq_parseFull`: a parse on top of an earlier one differs only in its mode.
- `Store.follows_matches`: every step of the store keeps `Store.Matches`.
- `Store.history_independent`: after every run, the ledger determines the trees.
-/

namespace LiveSyntax

/-! ### Parses -/

theorem Registry.isLoaded_iff {registry : Registry} {grammar : String} :
    registry.isLoaded grammar = true ↔ ∃ language, registry.grammarFor grammar = .ok language := by
  cases hfor : registry.grammarFor grammar <;> simp [Registry.isLoaded, hfor]

namespace Parser

variable {parser : Parser} {registry : Registry} {previous : Option Parsed} {edits : List Edit}
  {grammar : String} {source : List UInt8} {parsed : Parsed}

theorem languageFor_eq_ok_iff {language : Language} :
    parser.languageFor registry grammar = .ok language ↔
      registry.grammarFor grammar = .ok language ∧ parser.load language = .ok () := by
  constructor
  · intro h
    unfold languageFor at h
    split at h
    · cases h
    · next hfor =>
      split at h
      · cases h
      · next hload =>
        cases h
        exact ⟨hfor, hload⟩
  · rintro ⟨hfor, hload⟩
    simp only [languageFor, hfor, hload]

/-- What a parse goes through: the source is decoded, the parser takes the grammar up, the edits fit, and the
parser comes to a tree that is one. -/
theorem reparse_eq_ok_iff :
    parser.reparse registry previous edits grammar source = .ok parsed ↔
      ∃ text language mode raw tree, Utf8.decode source = .ok text ∧
        parser.languageFor registry grammar = .ok language ∧
        modeFor previous edits grammar text.byteCount = .ok mode ∧
        parser.parse language text = some raw ∧
        Tree.ofParse grammar text raw = .ok tree ∧
        parsed = ⟨raw, tree, language, mode⟩ := by
  constructor
  · intro h
    unfold reparse at h
    split at h
    · cases h
    · next text htext =>
      split at h
      · cases h
      · next language hlanguage =>
        split at h
        · cases h
        · next mode hmode =>
          split at h
          · cases h
          · next raw hraw =>
            split at h
            · cases h
            · next tree htree =>
              cases h
              exact ⟨text, language, mode, raw, tree, htext, hlanguage, hmode, hraw, htree, rfl⟩
  · rintro ⟨text, language, mode, raw, tree, htext, hlanguage, hmode, hraw, htree, rfl⟩
    simp only [reparse, htext, hlanguage, hmode, hraw, htree]

/-- **Edits do not show in the outcome.** A parse on top of an earlier one gives what a parse from
nothing gives, apart from its mode. -/
theorem reparse_eq_parseFull (h : parser.reparse registry previous edits grammar source = .ok parsed) :
    ∃ full, parser.parseFull registry grammar source = .ok full ∧ full.mode = .full ∧
      parsed = { full with mode := parsed.mode } := by
  obtain ⟨text, language, mode, raw, tree, htext, hlanguage, -, hraw, htree, rfl⟩ := reparse_eq_ok_iff.mp h
  refine ⟨⟨raw, tree, language, .full⟩, ?_, rfl, rfl⟩
  exact reparse_eq_ok_iff.mpr ⟨text, language, .full, raw, tree, htext, hlanguage, rfl, hraw, htree, rfl⟩

/-- A parsed tree has the grammar and the source that were asked for, and its root spans all of it. -/
theorem parseFull_spec (h : parser.parseFull registry grammar source = .ok parsed) :
    parsed.tree.grammar = grammar ∧ parsed.tree.source.bytes = source ∧
      parsed.tree.span Arena.root = ⟨0, source.length⟩ := by
  obtain ⟨text, language, mode, raw, tree, htext, -, -, -, htree, rfl⟩ := reparse_eq_ok_iff.mp h
  obtain ⟨hgrammar, hsource, hspan⟩ := Tree.build_spec htree
  have hbytes := Utf8.decode_eq_ok_iff.mp htext
  refine ⟨hgrammar, ?_, ?_⟩
  · rw [hsource, hbytes]
  · rw [hspan, ← hbytes, Text.length_bytes]

end Parser

/-! ### Look-ups on the shelf -/

namespace Shelf

theorem getElem?_foldl_erase (entries : Std.TreeMap BufferId Entry) (dropped : List BufferId)
    (buffer : BufferId) :
    (dropped.foldl (fun kept b => kept.erase b) entries)[buffer]? =
      if buffer ∈ dropped then none else entries[buffer]? := by
  induction dropped generalizing entries with
  | nil => simp
  | cons first dropped ih =>
    rw [List.foldl_cons, ih, Std.TreeMap.getElem?_erase]
    by_cases hdropped : buffer ∈ dropped
    · simp [hdropped]
    · by_cases hfirst : first = buffer
      · simp [hfirst]
      · have hne : buffer ≠ first := fun h => hfirst h.symm
        simp [hdropped, hne, hfirst]

theorem entry_of_foldl_erase {entries : Std.TreeMap BufferId Entry} {dropped : List BufferId}
    {buffer : BufferId} {e : Entry}
    (h : (dropped.foldl (fun kept b => kept.erase b) entries)[buffer]? = some e) :
    entries[buffer]? = some e := by
  rw [getElem?_foldl_erase] at h
  split at h
  · cases h
  · exact h

variable {s : Shelf} {buffer other : BufferId} {e : Entry}

/-- After an install, the buffer has the new entry and no other buffer has gained one. -/
theorem entry_of_install {grammar : String} {parsed : Parsed}
    (h : (s.install buffer grammar parsed).entryOf? other = some e) :
    (other = buffer ∧ e = ⟨buffer, grammar, parsed, s.clock⟩) ∨
      (other ≠ buffer ∧ s.entryOf? other = some e) := by
  have hinsert : (s.entries.insert buffer ⟨buffer, grammar, parsed, s.clock⟩)[other]? = some e := by
    unfold entryOf? install evict at h
    split at h
    · exact h
    · exact entry_of_foldl_erase h
  rw [Std.TreeMap.getElem?_insert] at hinsert
  by_cases hbuffer : buffer = other
  · subst hbuffer
    left
    simp at hinsert
    exact ⟨rfl, hinsert.symm⟩
  · right
    simp [hbuffer] at hinsert
    exact ⟨fun h => hbuffer h.symm, hinsert⟩

/-- The bound never drops the tree that an install brings. -/
theorem entryOf?_install_self (s : Shelf) (buffer : BufferId) (grammar : String) (parsed : Parsed) :
    (s.install buffer grammar parsed).entryOf? buffer = some ⟨buffer, grammar, parsed, s.clock⟩ := by
  unfold entryOf? install evict
  split
  · exact Std.TreeMap.getElem?_insert_self
  · have hkept : ∀ entries n, buffer ∉ (byAge entries buffer).take n := by
      intro entries n hmem
      obtain ⟨x, hx, hsame⟩ := List.mem_map.mp (List.mem_of_mem_take hmem)
      rw [List.mem_mergeSort] at hx
      have hother := (List.mem_filter.mp hx).2
      simp [hsame] at hother
    rw [getElem?_foldl_erase, if_neg (hkept _ _)]
    exact Std.TreeMap.getElem?_insert_self

theorem entry_of_untrack (h : (s.untrack buffer).1.entryOf? other = some e) :
    s.entryOf? other = some e := by
  have herase : ([buffer].foldl (fun kept b => kept.erase b) s.entries)[other]? = some e := h
  exact entry_of_foldl_erase herase

theorem entry_of_setRegistry {registry : Registry}
    (h : (s.setRegistry registry).1.entryOf? other = some e) : s.entryOf? other = some e :=
  entry_of_foldl_erase h

end Shelf

/-! ### Ledgers -/

/-- An install, as far as the calls of a run show it. -/
structure Install where
  /-- The buffer. -/
  buffer : BufferId
  /-- The grammar that was named, or else that of the install before. -/
  grammar : String
  /-- The source that was passed. -/
  source : List UInt8
  /-- The grammars that were known. -/
  registry : Registry

/-- What the calls of a run show. -/
structure Ledger where
  /-- The grammars that are known. -/
  registry : Registry
  /-- The installs, newest first. -/
  installs : List Install

namespace Ledger

/-- Before the first call. -/
def start (registry : Registry) : Ledger :=
  ⟨registry, []⟩

/-- The last install of a buffer. -/
def last? (l : Ledger) (buffer : BufferId) : Option Install :=
  l.installs.find? fun install => install.buffer == buffer

/-- One more install. Without a grammar of its own it goes on with that of the last one. -/
def record (l : Ledger) (buffer : BufferId) (named : Option String) (source : List UInt8) : Ledger :=
  let grammar := named.getD (((l.last? buffer).map (·.grammar)).getD "")
  { l with installs := ⟨buffer, grammar, source, l.registry⟩ :: l.installs }

/-- What an action and its outcome add. Only an outcome with a new tree is an install. -/
def note (l : Ledger) : Action StoreOp × Outcome StoreResult → Ledger
  | (.perform (.setRegistry registry), _) => { l with registry }
  | (.perform op, .done (.tree (.ok _))) =>
    match op.request? with
    | none => l
    | some (buffer, named, source) => l.record buffer named source
  | _ => l

/-- The ledger of a run that began with some grammars. -/
def ofReports (registry : Registry) (reports : List (Report StoreOp StoreResult (Option Nat))) :
    Ledger :=
  (Report.timelineAll reports).foldl note (start registry)

theorem last?_record_self (l : Ledger) (buffer : BufferId) (named : Option String)
    (source : List UInt8) :
    (l.record buffer named source).last? buffer =
      some ⟨buffer, named.getD (((l.last? buffer).map (·.grammar)).getD ""), source, l.registry⟩ := by
  simp [last?, record]

theorem last?_record_of_ne (l : Ledger) {buffer other : BufferId} (named : Option String)
    (source : List UInt8) (h : other ≠ buffer) :
    (l.record buffer named source).last? other = l.last? other := by
  simp [last?, record, h.symm]

theorem note_installed (l : Ledger) {op : StoreOp} {buffer : BufferId} {named : Option String}
    {source : List UInt8} (tree : Tree) (h : op.request? = some (buffer, named, source)) :
    l.note (.perform op, .done (.tree (.ok tree))) = l.record buffer named source := by
  cases op <;> cases h <;> rfl

theorem note_of_quiet (l : Ledger) {op : StoreOp} {result : StoreResult}
    (hresult : ∀ tree, result ≠ .tree (.ok tree)) (hop : ∀ registry, op ≠ .setRegistry registry) :
    l.note (.perform op, .done result) = l := by
  unfold note
  split
  · next registry _ heq =>
    obtain ⟨haction, -⟩ := Prod.mk.inj heq
    exact absurd (Action.perform.inj haction) (hop registry)
  · next heq =>
    obtain ⟨-, houtcome⟩ := Prod.mk.inj heq
    exact absurd (Outcome.done.inj houtcome) (hresult _)
  · rfl

end Ledger

namespace Store

/-- The entry of a buffer is what a parse from nothing makes of the buffer's last install. -/
structure Recorded (parser : Parser) (l : Ledger) (buffer : BufferId) (e : Entry) : Prop where
  buffer_eq : e.buffer = buffer
  installed : ∃ install, l.last? buffer = some install ∧ e.grammar = install.grammar ∧
    ∃ full, parser.parseFull install.registry install.grammar install.source = .ok full ∧
      full.mode = .full ∧ e.parsed = { full with mode := e.parsed.mode }

/-- A ledger knows the grammars of a store, and determines its entries. -/
structure Matches (parser : Parser) (s : Store StoreOp) (l : Ledger) : Prop where
  registry : s.shelf.registry = l.registry
  entries : ∀ buffer e, s.shelf.entryOf? buffer = some e → Recorded parser l buffer e

theorem matches_empty (parser : Parser) (registry : Registry) (options : StoreOptions) :
    (Store.empty registry options).Matches parser (Ledger.start registry) := by
  refine ⟨rfl, fun buffer e h => ?_⟩
  simp [Store.empty, Shelf.empty, Shelf.entryOf?] at h

/-- A store that has only entries of the old one matches a ledger with the old installs. -/
theorem Matches.of_subset {parser : Parser} {s t : Store StoreOp} {l m : Ledger} (h : s.Matches parser l)
    (hregistry : t.shelf.registry = m.registry) (hinstalls : m.installs = l.installs)
    (hentries : ∀ buffer e, t.shelf.entryOf? buffer = some e → s.shelf.entryOf? buffer = some e) :
    t.Matches parser m := by
  refine ⟨hregistry, fun buffer e he => ?_⟩
  have hlast : m.last? buffer = l.last? buffer := by rw [Ledger.last?, hinstalls, Ledger.last?]
  obtain ⟨hbuffer, hinstalled⟩ := h.entries buffer e (hentries buffer e he)
  rw [← hlast] at hinstalled
  exact ⟨hbuffer, hinstalled⟩

/-- The ledger knows the grammar of an install, whether it is named or goes on from before. -/
theorem Matches.grammar_eq {parser : Parser} {s : Store StoreOp} {l : Ledger} (h : s.Matches parser l)
    {buffer : BufferId} {named : Option String} {grammar : String}
    (hgrammar : s.shelf.grammarOf? buffer named = some grammar) :
    named.getD (((l.last? buffer).map (·.grammar)).getD "") = grammar := by
  cases named with
  | some name => exact Option.some.inj hgrammar
  | none =>
    -- The current entry is that of the last install, so both name the same grammar.
    obtain ⟨e, he, rfl⟩ := Option.map_eq_some_iff.mp hgrammar
    obtain ⟨install, hlast, hsame, -⟩ := (h.entries buffer e he).installed
    rw [hlast, hsame]
    rfl

/-- **An install** makes the ledger's last install and the new entry the same. -/
theorem Matches.install {parser : Parser} {s : Store StoreOp} {l : Ledger} (h : s.Matches parser l)
    {op : StoreOp} {buffer : BufferId} {source : List UInt8} {grammar : String} {parsed : Parsed}
    (hinstalls : s.Installs parser op buffer source grammar parsed) (announcing : List BufferId) :
    Matches parser { s with shelf := s.shelf.install buffer grammar parsed, announcing }
      (l.note (.perform op, .done (.tree (.ok parsed.tree)))) := by
  obtain ⟨named, hrequest, hgrammar⟩ := hinstalls.request
  obtain ⟨previous, edits, hparse⟩ := hinstalls.parse
  rw [l.note_installed _ hrequest]
  refine ⟨h.registry, fun other e he => ?_⟩
  rcases Shelf.entry_of_install he with ⟨rfl, rfl⟩ | ⟨hne, hold⟩
  · -- Here the edits and the earlier tree drop out.
    obtain ⟨full, hfull, hmode, hsame⟩ := Parser.reparse_eq_parseFull hparse
    refine ⟨rfl, _, l.last?_record_self other named source, (h.grammar_eq hgrammar).symm, full, ?_,
      hmode, hsame⟩
    rw [h.grammar_eq hgrammar, ← h.registry]
    exact hfull
  · obtain ⟨hbuffer, hinstalled⟩ := h.entries other e hold
    rw [← l.last?_record_of_ne named source hne] at hinstalled
    exact ⟨hbuffer, hinstalled⟩

/-- Every step of the store, at every depth of rounds, keeps the match with the ledger. -/
theorem follows_matches (parser : Parser) :
    (storeHost parser).Follows Ledger.note (Matches parser) where
  subscribe _ h := h.of_subset h.registry rfl fun _ _ he => he
  unsubscribe _ h := h.of_subset h.registry rfl fun _ _ he => he
  take h := h.of_subset h.registry rfl fun _ _ he => he
  finished := by
    intro s l op t result heffect h
    cases step_of_finished heffect with
    | install _ announced => exact absurd announced announce_ne_finished
    | refuse error request =>
      rw [l.note_of_quiet (by rintro tree ⟨⟩) (by rintro registry rfl; cases request)]
      exact h
    | answer quiet same =>
      rw [l.note_of_quiet (by rintro tree rfl; cases quiet) same]
      exact h
    | untrack buffer removed =>
      exact h.of_subset h.registry rfl fun _ _ he => Shelf.entry_of_untrack he
    | setRegistry registry =>
      exact h.of_subset rfl rfl fun _ _ he => Shelf.entry_of_setRegistry he
  opening := by
    intro s l op buffer opening close result heffect h
    obtain ⟨source, grammar, parsed, announcing, hinstalls, rfl, rfl, -⟩ := step_announced heffect
    exact h.install hinstalls announcing
  close := by
    intro s l op buffer opening close result t heffect h
    obtain ⟨-, -, -, -, -, -, -, hclose⟩ := step_announced heffect
    obtain ⟨announcing, ht⟩ := hclose t
    rw [ht]
    exact h.of_subset h.registry rfl fun _ _ he => he

/-- **The store does not remember how a tree was reached.** Take any run from an empty store, with
observers that act from inside rounds, and any buffer that is tracked at its end. The entry names its
buffer and its grammar right, and there was a last install of the buffer: the tree has the source that
this install was asked for, byte for byte, its root spans that source, and the whole outcome of the
parse is that of a parse from nothing with the grammars known at that install, except for the mode. -/
theorem history_independent (parser : Parser) (registry : Registry) (options : StoreOptions)
    (actions : List (Action StoreOp)) (buffer : BufferId) (e : Entry)
    (h : ((storeHost parser).run (Store.empty registry options) actions).1.shelf.entryOf? buffer =
      some e) :
    let reports := ((storeHost parser).run (Store.empty registry options) actions).2
    e.buffer = buffer ∧ e.grammar = e.parsed.tree.grammar ∧
    ∃ install, (Ledger.ofReports registry reports).last? buffer = some install ∧
      e.grammar = install.grammar ∧
      e.source.bytes = install.source ∧
      e.parsed.tree.span Arena.root = ⟨0, install.source.length⟩ ∧
      ∃ full, parser.parseFull install.registry install.grammar install.source = .ok full ∧
        full.mode = .full ∧ e.parsed = { full with mode := e.parsed.mode } := by
  have hmatches := (follows_matches parser).run (lawful_storeHost parser) actions
    (matches_empty parser registry options)
  obtain ⟨hbuffer, install, hlast, hgrammar, full, hfull, hmode, hsame⟩ :=
    hmatches.entries buffer e h
  obtain ⟨htree, hsource, hspan⟩ := Parser.parseFull_spec hfull
  have hparsed : e.parsed.tree = full.tree := by rw [hsame]
  refine ⟨hbuffer, ?_, install, hlast, hgrammar, ?_, ?_, full, hfull, hmode, hsame⟩
  · rw [hparsed, htree, hgrammar]
  · rw [Entry.source, hparsed, hsource]
  · rw [hparsed, hspan]

/-- An observer that is told about a new buffer appends to it at once, by an edit. -/
theorem history_independent_nested_update :
    let registry := (Registry.withScopes ScopeTable.empty).register "text" ⟨"text"⟩
    let append : Edit := ⟨1, 1, 2, ⟨0, 1⟩, ⟨0, 1⟩, ⟨0, 2⟩⟩
    let actions : List (Action StoreOp) :=
      [.subscribe "editor" [[.perform (.update 1 append [0x61, 0x62])]],
        .perform (.track 1 "text" [0x61])]
    let host := storeHost Parser.plain
    let reached := host.run (Store.empty registry ⟨false, none⟩) actions
    ∃ e install, reached.1.shelf.entryOf? 1 = some e ∧ e.parsed.mode = .incremental ∧
      (Ledger.ofReports registry reached.2).last? 1 = some install ∧ install.source = [0x61, 0x62] ∧
      e.source.bytes = [0x61, 0x62] ∧
      ∃ full, Parser.plain.parseFull install.registry "text" [0x61, 0x62] = .ok full ∧ full.mode = .full ∧
        e.parsed = { full with mode := .incremental } := by
  intro registry append actions host reached
  have hmode : (reached.1.shelf.entryOf? 1).map (·.parsed.mode) = some .incremental := by decide +kernel
  have hlast : ((Ledger.ofReports registry reached.2).last? 1).map (fun install => (install.grammar, install.source)) =
      some ("text", [0x61, 0x62]) := by decide +kernel
  obtain ⟨e, he, hincremental⟩ := Option.map_eq_some_iff.mp hmode
  obtain ⟨-, -, install, hinstall, -, hsource, -, full, hfull, hfullMode, hsame⟩ :=
    history_independent Parser.plain registry ⟨false, none⟩ actions 1 e he
  obtain ⟨last, hrecorded, hasked⟩ := Option.map_eq_some_iff.mp hlast
  obtain rfl : last = install := Option.some.inj (hrecorded.symm.trans hinstall)
  obtain ⟨hgrammar, hbytes⟩ := Prod.mk.inj hasked
  rw [hbytes] at hsource
  rw [hgrammar, hbytes] at hfull
  rw [hincremental] at hsame
  exact ⟨e, last, he, hincremental, hrecorded, hbytes, hsource, full, hfull, hfullMode, hsame⟩

end Store

end LiveSyntax
