import LiveSyntax.Proofs.EditChains
import LiveSyntax.Proofs.Moments
import LiveSyntax.Proofs.ParseWalk
import LiveSyntax.Proofs.Replay
import LiveSyntax.Proofs.StoreHistory

/-!
# Which changes a store accepts

A list of changes with a new source passes three checks that know nothing of each other. The replay asks
whether each change finds the text that it deletes. In debug mode the replayed text is compared with the
new source. And before the parser reuses the old tree, the chain of edits is checked against the lengths
of the old and the new source, with sums that could leave the word. This file shows that the last check
says nothing new: edits that come from a replay pass it exactly for the length of the replayed text.

## Main definitions

- `Change.stages`: the texts that a replay goes through.
- `Parser.HasRoom`: the parser comes to a tree of a source that fits a node table.

## Main results

- `Edit.checkChain_of_replay`: the lengths for which the edits of a replay form a chain.
- `Parser.exists_reparse_iff`: when a parse on top of an earlier one succeeds.
- `Store.changes_accepted_iff`: which changes and sources an update accepts.

## Design notes

Running sums of lengths are words if every text of the replay has at most `Text.maxBytes` bytes. No
machine holds a longer text, because its length is also an offset with a sign.
-/

namespace LiveSyntax

/-- How many bytes a text can have. -/
def Text.maxBytes : Nat := 9223372036854775807

/-- The texts that a replay goes through, up to the first change that does not fit. -/
def Change.stages (text : Text) : List Change → List Text
  | [] => [text]
  | c :: rest =>
    match Edit.ofChange text c with
    | .error _ => [text]
    | .ok _ => text :: Change.stages (c.apply text) rest

theorem Change.self_mem_stages (text : Text) (changes : List Change) :
    text ∈ Change.stages text changes := by
  cases changes with
  | nil => exact List.mem_cons_self
  | cons c rest =>
    unfold Change.stages
    split <;> exact List.mem_cons_self

/-! ### Chains of edits -/

namespace Edit

variable {text : Text} {c : Change} {e : Edit}

/-- The edit of a change fits the text, and its exact length is that of the changed text. -/
theorem fits_ofChange (h : ofChange text c = .ok e) :
    e.Fits text.byteCount ∧ e.exactLength text.byteCount = (c.apply text).byteCount := by
  obtain ⟨before, after, rfl, hlength, hstart, hold, hnew, -⟩ := ofChange_spec h
  rw [Change.apply_eq hlength, exactLength]
  simp only [Text.byteCount_append]
  exact ⟨⟨by omega, by omega, by omega⟩, by omega⟩

/-- The running sum of the edit of a change is greater than the lengths of both texts, and still a word. -/
theorem sum_le_of_ofChange (h : ofChange text c = .ok e)
    (hbefore : text.byteCount ≤ Text.maxBytes) (hafter : (c.apply text).byteCount ≤ Text.maxBytes) :
    text.byteCount + (e.newEnd - e.start) ≤ Offset.greatest := by
  obtain ⟨-, hexact⟩ := fits_ofChange h
  have hmax : Text.maxBytes + Text.maxBytes ≤ Offset.greatest := by decide
  rw [exactLength] at hexact
  omega

theorem validate_ofChange_iff (h : ofChange text c = .ok e)
    (hafter : (c.apply text).byteCount ≤ Text.maxBytes) (newLength : Nat) :
    e.validate text.byteCount newLength = .ok () ↔ newLength = (c.apply text).byteCount := by
  obtain ⟨hfits, hexact⟩ := fits_ofChange h
  have hmax : Text.maxBytes ≤ Offset.greatest := by decide
  rw [hfits.validate_eq_ok_iff (by omega), hexact, eq_comm]

/-- **Edits of a replay form a chain** to the length of the replayed text, and to no other. -/
theorem checkChain_of_replay {source final : Text} {changes : List Change} {edits : List Edit}
    (h : Change.replay source changes = .ok (edits, final))
    (hheld : ∀ stage ∈ Change.stages source changes, stage.byteCount ≤ Text.maxBytes)
    (newLength : Nat) :
    checkChain source.byteCount edits newLength = .ok () ↔
      edits = [] ∨ newLength = final.byteCount := by
  induction changes generalizing source edits with
  | nil =>
    cases h
    exact iff_of_true rfl (.inl rfl)
  | cons c rest ih =>
    obtain ⟨e, others, rfl, he, hrest⟩ := Change.replay_cons_eq_ok h
    have hstages : Change.stages source (c :: rest) = source :: Change.stages (c.apply source) rest := by
      simp only [Change.stages, he]
    rw [hstages] at hheld
    have hlater : ∀ stage ∈ Change.stages (c.apply source) rest, stage.byteCount ≤ Text.maxBytes :=
      fun stage hstage => hheld stage (List.mem_cons_of_mem _ hstage)
    have hbefore := hheld source List.mem_cons_self
    have hafter := hlater _ (Change.self_mem_stages _ rest)
    cases others with
    | nil =>
      -- The last edit is the one that is checked against the new length.
      obtain rfl : final = c.apply source := by
        have hnone := Change.length_of_replay hrest
        obtain rfl := List.length_eq_zero_iff.mp hnone.symm
        cases hrest
        rfl
      rw [checkChain, validate_ofChange_iff he hafter]
      simp
    | cons next others =>
      obtain ⟨hfits, hexact⟩ := fits_ofChange he
      have hsum := sum_le_of_ofChange he hbefore hafter
      rw [checkChain_cons_of_fits hsum hfits (List.cons_ne_nil _ _), hexact]
      simpa using ih hrest hlater

end Edit

/-! ### Parses -/

namespace Parser

/-- The parser comes to a tree of a source, if the source is a text, and the tree fits a node table. -/
def HasRoom (parser : Parser) (registry : Registry) (grammar : String) (source : List UInt8) : Prop :=
  ∀ language text, registry.grammarFor grammar = .ok language → Utf8.decode source = .ok text →
    ∃ raw, parser.parse language text = some raw ∧ raw.size ≤ Builder.maxNodes

/-- A parse on top of an earlier one fails only for its bytes or for its edits. -/
theorem exists_reparse_iff {parser : Parser} {registry : Registry} {previous : Parsed}
    {edits : List Edit} {grammar : String} {source : List UInt8}
    (hloaded : ∃ language, parser.languageFor registry grammar = .ok language)
    (hgrammar : previous.tree.grammar = grammar) (hroom : parser.HasRoom registry grammar source) :
    (∃ parsed, parser.reparse registry (some previous) edits grammar source = .ok parsed) ↔
      ∃ text, Utf8.decode source = .ok text ∧
        (edits = [] ∨ Edit.checkChain previous.tree.sourceLength edits text.byteCount = .ok ()) := by
  obtain ⟨language, hlanguage⟩ := hloaded
  have hmode : ∀ newLength, (∃ mode, modeFor (some previous) edits grammar newLength = .ok mode) ↔
      edits = [] ∨ Edit.checkChain previous.tree.sourceLength edits newLength = .ok () := by
    intro newLength
    by_cases hedits : edits = []
    · simp [modeFor, hedits]
    · cases hchain : Edit.checkChain previous.tree.sourceLength edits newLength <;>
        simp [modeFor, hgrammar, hedits, hchain]
  constructor
  · rintro ⟨parsed, hparsed⟩
    obtain ⟨text, -, mode, -, -, htext, -, hmodeFor, -⟩ := reparse_eq_ok_iff.mp hparsed
    exact ⟨text, htext, (hmode _).mp ⟨mode, hmodeFor⟩⟩
  · rintro ⟨text, htext, hedits⟩
    obtain ⟨mode, hmodeFor⟩ := (hmode _).mpr hedits
    obtain ⟨raw, hraw, hsize⟩ := hroom language text (languageFor_eq_ok_iff.mp hlanguage).1 htext
    obtain ⟨tree, htree, -⟩ := Tree.exists_ofParse grammar text raw hsize
    exact ⟨_, reparse_eq_ok_iff.mpr
      ⟨text, language, mode, raw, tree, htext, hlanguage, hmodeFor, hraw, htree, rfl⟩⟩

end Parser

namespace Shelf

/-- What the parse for a list of changes goes through. -/
theorem parseChanges_eq_ok_iff {s : Shelf} {parser : Parser} {buffer : BufferId} {e : Entry}
    {changes : List Change} {source : List UInt8} {outcome : String × Parsed}
    (he : s.entryOf? buffer = some e) :
    s.parseChanges parser buffer changes source = .ok outcome ↔
      ∃ edits replayed, Change.replay e.source changes = .ok (edits, replayed) ∧
        (s.options.debug = true → source = replayed.bytes) ∧ outcome.1 = e.grammar ∧
        parser.reparse s.registry (some e.parsed) edits e.grammar source = .ok outcome.2 := by
  have hrequire : s.require buffer = .ok e := by rw [require, he]
  constructor
  · intro h
    simp only [parseChanges, hrequire] at h
    split at h
    · cases h
    · next edits replayed hreplay =>
      split at h
      · cases h
      · next hsame =>
        split at h
        · cases h
        · next parsed hparse =>
          cases h
          refine ⟨edits, replayed, hreplay, fun hdebug => ?_, rfl, hparse⟩
          exact (not_not.mp fun hne => hsame ⟨hdebug, hne⟩).symm
  · rintro ⟨edits, replayed, hreplay, hsame, hgrammar, hparse⟩
    obtain ⟨grammar, parsed⟩ := outcome
    obtain rfl : grammar = e.grammar := hgrammar
    have hcompare : ¬(s.options.debug = true ∧ replayed.bytes ≠ source) :=
      fun hboth => hboth.2 (hsame hboth.1).symm
    simp only [parseChanges, hrequire, hreplay]
    rw [if_neg hcompare, hparse]

/-- **The check of edits is implied**: once the changes are replayed, only the length is left. -/
theorem exists_parseChanges_iff {s : Shelf} {parser : Parser} {buffer : BufferId} {e : Entry}
    {changes : List Change} {source : List UInt8} (he : s.entryOf? buffer = some e)
    (hgrammar : e.parsed.tree.grammar = e.grammar)
    (hloaded : ∃ language, parser.languageFor s.registry e.grammar = .ok language)
    (hheld : ∀ stage ∈ Change.stages e.source changes, stage.byteCount ≤ Text.maxBytes)
    (hroom : parser.HasRoom s.registry e.grammar source) :
    (∃ outcome, s.parseChanges parser buffer changes source = .ok outcome) ↔
      ∃ edits replayed, Change.replay e.source changes = .ok (edits, replayed) ∧
        (s.options.debug = true → source = replayed.bytes) ∧
        (∃ text, Utf8.decode source = .ok text) ∧
        (changes = [] ∨ source.length = replayed.byteCount) := by
  have hreparse : ∀ edits replayed, Change.replay e.source changes = .ok (edits, replayed) →
      ((∃ parsed, parser.reparse s.registry (some e.parsed) edits e.grammar source = .ok parsed) ↔
        (∃ text, Utf8.decode source = .ok text) ∧
          (changes = [] ∨ source.length = replayed.byteCount)) := by
    intro edits replayed hreplay
    have hnone : edits = [] ↔ changes = [] := by
      rw [← List.length_eq_zero_iff, Change.length_of_replay hreplay, List.length_eq_zero_iff]
    rw [Parser.exists_reparse_iff hloaded hgrammar hroom, ← hnone, ← exists_and_right]
    refine exists_congr fun text => and_congr_right fun htext => ?_
    have hlength : source.length = text.byteCount := by
      rw [← Utf8.decode_eq_ok_iff.mp htext, Text.length_bytes]
    have hchain := Edit.checkChain_of_replay hreplay hheld text.byteCount
    rw [hlength]
    exact ⟨fun h => h.elim .inl hchain.mp, fun h => .inr (hchain.mpr h)⟩
  constructor
  · rintro ⟨outcome, houtcome⟩
    obtain ⟨edits, replayed, hreplay, hsame, -, hparse⟩ := (parseChanges_eq_ok_iff he).mp houtcome
    exact ⟨edits, replayed, hreplay, hsame, (hreparse edits replayed hreplay).mp ⟨_, hparse⟩⟩
  · rintro ⟨edits, replayed, hreplay, hsame, hsource⟩
    obtain ⟨parsed, hparse⟩ := (hreparse edits replayed hreplay).mpr hsource
    exact ⟨(e.grammar, parsed),
      (parseChanges_eq_ok_iff he).mpr ⟨edits, replayed, hreplay, hsame, rfl, hparse⟩⟩

end Shelf

namespace Store

theorem exists_announced_of_commit {parser : Parser} {s : Store StoreOp} {op : StoreOp} {buffer : BufferId}
    {parsed : String × Parsed} (h : (storeHost parser).handle s op = commit buffer s (.ok parsed)) :
    ∃ opening close,
      (storeHost parser).handle s op = .announced buffer opening close (.tree (.ok parsed.2.tree)) ∧
        opening.shelf = s.shelf.install buffer parsed.1 parsed.2 := by
  obtain ⟨announcing, close, hannounce, -⟩ := announce_eq buffer
    { s with shelf := s.shelf.install buffer parsed.1 parsed.2 } (.tree (.ok parsed.2.tree))
  exact ⟨_, close, h.trans hannounce, rfl⟩

/-- The outcome of an operation that installs what a parse gives is that of the parse. -/
theorem outcome_act_of_commit {parser : Parser} {s : Store StoreOp} {op : StoreOp} {buffer : BufferId}
    {outcome : Except BufferError (String × Parsed)}
    (h : (storeHost parser).handle s op = commit buffer s outcome) :
    ((storeHost parser).act s (.perform op)).2.outcome =
      .done (.tree (outcome.map fun parsed => parsed.2.tree)) := by
  cases outcome with
  | error err =>
    rw [Host.act_of_finished h]
    rfl
  | ok parsed =>
    obtain ⟨opening, close, hannounced, -⟩ := exists_announced_of_commit h
    exact Host.outcome_act_of_announced hannounced

theorem Recorded.tree_grammar {parser : Parser} {l : Ledger} {buffer : BufferId} {e : Entry}
    (h : Recorded parser l buffer e) : e.parsed.tree.grammar = e.grammar := by
  obtain ⟨install, -, hgrammar, full, hfull, -, hsame⟩ := h.installed
  rw [hsame, hgrammar]
  exact (Parser.parseFull_spec hfull).1

/-- **Exactly these changes are accepted.** Take any moment of any run, and a tracked buffer that is not
being announced and whose grammar the parser can load. In debug mode an update by changes succeeds if and only if
the changes can be replayed on the current source and lead to the new one. Without debug mode it succeeds
if and only if the changes can be replayed, the new source is valid UTF-8, and there are no changes or
the new source is as long as the replayed text. A success installs a tree of the new source. The edits of
a replay are never refused. -/
theorem changes_accepted_iff (parser : Parser) (registry : Registry) (options : StoreOptions)
    (actions : List (Action StoreOp)) (m : (storeHost parser).Moment)
    (hm : (storeHost parser).Reaches (Store.empty registry options) actions m)
    (buffer : BufferId) (e : Entry) (he : m.state.shelf.entryOf? buffer = some e)
    (hfree : buffer ∉ m.state.announcing)
    (hloaded : ∃ language, parser.languageFor m.state.shelf.registry e.grammar = .ok language)
    (changes : List Change) (source : List UInt8)
    (hheld : ∀ stage ∈ Change.stages e.source changes, stage.byteCount ≤ Text.maxBytes)
    (hroom : parser.HasRoom m.state.shelf.registry e.grammar source) :
    let op : StoreOp := .updateWithChanges buffer changes source
    let outcome := ((storeHost parser).act m.state (.perform op)).2.outcome
    (m.state.shelf.options.debug = true →
      ((∃ tree, outcome = .done (.tree (.ok tree))) ↔
        ∃ edits replayed, Change.replay e.source changes = .ok (edits, replayed) ∧
          source = replayed.bytes)) ∧
    (m.state.shelf.options.debug = false →
      ((∃ tree, outcome = .done (.tree (.ok tree))) ↔
        ∃ edits replayed, Change.replay e.source changes = .ok (edits, replayed) ∧
          (∃ text, Utf8.decode source = .ok text) ∧
          (changes = [] ∨ source.length = replayed.bytes.length))) ∧
    (∀ tree, outcome = .done (.tree (.ok tree)) → ∃ opening close e',
      (storeHost parser).handle m.state op = .announced buffer opening close (.tree (.ok tree)) ∧
        opening.shelf.entryOf? buffer = some e' ∧ e'.parsed.tree = tree ∧ e'.source.bytes = source) ∧
    (∀ edits replayed, Change.replay e.source changes = .ok (edits, replayed) →
      Edit.checkChain e.parsed.tree.sourceLength edits replayed.byteCount = .ok ()) := by
  intro op outcome
  have hmatches := (follows_matches parser).reaches (matches_empty parser registry options) hm
  have hgrammar := (hmatches.entries buffer e he).tree_grammar
  have hguarded : m.state.guarded buffer (fun shelf => shelf.parseChanges parser buffer changes source) =
      m.state.shelf.parseChanges parser buffer changes source := by
    rw [guarded, checkReentrant, if_neg fun h => hfree h.2]
  have hhandle : (storeHost parser).handle m.state op =
      commit buffer m.state (m.state.shelf.parseChanges parser buffer changes source) := by
    rw [← hguarded]
    rfl
  have houtcome : outcome = .done (.tree _) := outcome_act_of_commit hhandle
  have haccepts : (∃ tree, outcome = .done (.tree (.ok tree))) ↔
      ∃ parsed, m.state.shelf.parseChanges parser buffer changes source = .ok parsed := by
    rw [houtcome]
    cases m.state.shelf.parseChanges parser buffer changes source <;> simp [Except.map]
  rw [haccepts, Shelf.exists_parseChanges_iff he hgrammar hloaded hheld hroom]
  refine ⟨?_, ?_, ?_, ?_⟩
  · intro hdebug
    refine exists_congr fun edits => exists_congr fun replayed => and_congr_right fun _ => ?_
    constructor
    · exact fun h => h.1 hdebug
    · rintro rfl
      exact ⟨fun _ => rfl, ⟨replayed, Utf8.decode_eq_ok_iff.mpr rfl⟩, .inr (Text.length_bytes _)⟩
  · intro hdebug
    simp only [hdebug, Bool.false_eq_true, false_implies, true_and, Text.length_bytes]
  · intro tree htree
    rw [houtcome] at htree
    cases hparse : m.state.shelf.parseChanges parser buffer changes source with
    | error err =>
      rw [hparse] at htree
      cases htree
    | ok parsed =>
      rw [hparse] at htree hhandle
      cases htree
      obtain ⟨edits, replayed, -, -, -, hreparse⟩ := (Shelf.parseChanges_eq_ok_iff he).mp hparse
      obtain ⟨full, hfull, -, hsame⟩ := Parser.reparse_eq_parseFull hreparse
      obtain ⟨opening, close, hannounced, hshelf⟩ := exists_announced_of_commit hhandle
      refine ⟨opening, close, ⟨buffer, parsed.1, parsed.2, m.state.shelf.clock⟩, hannounced, ?_, rfl, ?_⟩
      · rw [hshelf]
        exact Shelf.entryOf?_install_self _ _ _ _
      · rw [Entry.source, hsame]
        exact (Parser.parseFull_spec hfull).2.1
  · intro edits replayed hreplay
    exact (Edit.checkChain_of_replay hreplay hheld _).mpr (.inr rfl)

/-- Two changes turn `aé` into `xyz`, and the new source is another one of three bytes. Without debug mode
that is accepted. -/
theorem changes_accepted_iff_same_length :
    let registry := (Registry.withScopes ScopeTable.empty).register "text" ⟨"text"⟩
    let host := storeHost Parser.plain
    let actions : List (Action StoreOp) := [.perform (.track 1 "text" [0x61, 0xC3, 0xA9])]
    let changes : List Change := [⟨1, ['é'], ['x', 'y', 'z']⟩, ⟨0, ['a'], []⟩]
    let source : List UInt8 := [0x71, 0x72, 0x73]
    ∃ (m : host.Moment) (e : Entry), host.Reaches (Store.empty registry ⟨false, none⟩) actions m ∧
      m.state.shelf.entryOf? 1 = some e ∧ e.source = ['a', 'é'] ∧
      ∃ tree, (host.act m.state (.perform (.updateWithChanges 1 changes source))).2.outcome =
        .done (.tree (.ok tree)) := by
  intro registry host actions changes source
  obtain ⟨m, e, hm, he, hfree, hdebug, hsource, hloaded⟩ : ∃ (m : host.Moment) (e : Entry),
      host.Reaches (Store.empty registry ⟨false, none⟩) actions m ∧
        m.state.shelf.entryOf? 1 = some e ∧ 1 ∉ m.state.announcing ∧
        m.state.shelf.options.debug = false ∧ e.source = ['a', 'é'] ∧
        ∃ language, Parser.plain.languageFor m.state.shelf.registry e.grammar = .ok language :=
    ⟨_, _, (lawful_storeHost Parser.plain).reaches_run _ actions, rfl, by decide +kernel, rfl, rfl,
      ⟨"text"⟩, by decide +kernel⟩
  have hheld : ∀ stage ∈ Change.stages e.source changes, stage.byteCount ≤ Text.maxBytes := by
    rw [hsource]
    decide +kernel
  have hroom : Parser.plain.HasRoom m.state.shelf.registry e.grammar source := by
    intro language text _ _
    exact ⟨_, rfl, (by decide : 1 ≤ Builder.maxNodes)⟩
  obtain ⟨-, hquick, -, -⟩ := changes_accepted_iff Parser.plain registry ⟨false, none⟩ actions m hm 1 e he
    hfree hloaded changes source hheld hroom
  obtain ⟨edits, hreplay⟩ : ∃ edits, Change.replay e.source changes = .ok (edits, ['x', 'y', 'z']) := by
    rw [hsource]
    exact ⟨_, rfl⟩
  have htext : Utf8.decode source = .ok ['q', 'r', 's'] := by decide +kernel
  have hlength : source.length = (Text.bytes ['x', 'y', 'z']).length := by decide +kernel
  exact ⟨m, e, hm, he, hsource, (hquick hdebug).mpr ⟨edits, _, hreplay, ⟨_, htext⟩, .inr hlength⟩⟩

end Store

end LiveSyntax
