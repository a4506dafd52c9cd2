import LiveSyntax.Proofs.Acceptance
import LiveSyntax.Proofs.Recency
import Mathlib.Data.List.Sort

/-!
# Grammars of tracked buffers

The trees of a store and its grammars are kept apart, and different operations change them: an install
brings a tree, and `setRegistry` brings other grammars, perhaps from inside a round and under the trees
of others. Still every tracked buffer has a grammar that is loaded now, not only one that was loaded when
its tree was installed. For an install this is because the parse has just looked the grammar up; for new
grammars it is because the buffers without one are dropped at once.

So an update, which goes on with the grammar of its buffer, always finds it. The parser may still refuse the
language behind it, and then the update says that the grammar is unavailable.

## Main definitions

- `Shelf.Loaded`: the grammar of every tracked buffer is loaded.
- `Shelf.LoadFails`: the parser refuses the language of a tracked buffer.
- `Shelf.Prunes`: what other grammars do to a shelf.

## Main results

- `Store.follows_loaded`: every step of the store keeps `Shelf.Loaded`.
- `Store.tracked_grammars_loaded`: what holds at every moment of a run.

## Design notes

A run has one thread, as in `Host.Moment`. Between the check of a grammar and the install of its tree no other operation
takes place, which threads that share a store would have to see to.
-/

namespace LiveSyntax

namespace Parser

variable {parser : Parser} {registry : Registry} {grammar : String} {err : GrammarError}

/-- A grammar that is loaded fails only if the parser refuses its language. -/
theorem languageFor_eq_error {language : Language} (hlanguage : registry.grammarFor grammar = .ok language)
    (h : parser.languageFor registry grammar = .error err) :
    ∃ reason, parser.load language = .error reason ∧ err = .unavailable grammar reason := by
  simp only [languageFor, hlanguage] at h
  split at h
  · next reason hload =>
    cases h
    exact ⟨reason, hload, rfl⟩
  · cases h

/-- A parse that fails for want of a grammar fails where the grammar is taken up. -/
theorem reparse_eq_grammar_error {previous : Option Parsed} {edits : List Edit} {source : List UInt8}
    (h : parser.reparse registry previous edits grammar source = .error (.grammar err)) :
    parser.languageFor registry grammar = .error err := by
  unfold reparse at h
  split at h
  · cases h
  · split at h
    · next hfor =>
      cases h
      exact hfor
    · split at h
      · next fault _ => cases fault <;> cases h
      · split at h
        · cases h
        · split at h <;> cases h

end Parser

namespace Shelf

/-- The grammar of every tracked buffer is loaded. -/
def Loaded (s : Shelf) : Prop :=
  ∀ buffer e, s.entryOf? buffer = some e → s.registry.isLoaded e.grammar = true

/-- A buffer is tracked, its grammar is loaded, and the parser refuses the language behind it. -/
def LoadFails (parser : Parser) (s : Shelf) (buffer : BufferId) (err : GrammarError) : Prop :=
  ∃ e language reason, s.entryOf? buffer = some e ∧ s.registry.grammarFor e.grammar = .ok language ∧
    parser.load language = .error reason ∧ err = .unavailable e.grammar reason

variable {s : Shelf}

theorem loaded_empty (registry : Registry) (options : StoreOptions) :
    (Shelf.empty registry options).Loaded := by
  intro buffer e he
  simp [Shelf.empty, entryOf?] at he

theorem Loaded.install (h : s.Loaded) {buffer : BufferId} {grammar : String} {parsed : Parsed}
    (hloaded : s.registry.isLoaded grammar = true) : (s.install buffer grammar parsed).Loaded := by
  intro other e he
  rcases entry_of_install he with ⟨-, rfl⟩ | ⟨-, hold⟩
  · exact hloaded
  · exact h other e hold

theorem Loaded.untrack (h : s.Loaded) (buffer : BufferId) : (s.untrack buffer).1.Loaded :=
  fun other e he => h other e (entry_of_untrack he)

/-- Other grammars leave no buffer without one, whatever the shelf was like before. -/
theorem loaded_setRegistry (s : Shelf) (registry : Registry) : (s.setRegistry registry).1.Loaded := by
  intro buffer e he
  have hkept : buffer ∉ s.unloadable registry := by
    intro hdropped
    change (List.foldl _ _ _)[buffer]? = some e at he
    rw [getElem?_foldl_erase, if_pos hdropped] at he
    cases he
  rw [mem_unloadable_iff (entry_of_setRegistry he), Bool.not_eq_false] at hkept
  exact hkept

section

variable {parser : Parser} {buffer : BufferId} {source : List UInt8} {err : GrammarError}

theorem Loaded.loadFails_of_reparse (h : s.Loaded) {e : Entry} (he : s.entryOf? buffer = some e)
    {previous : Option Parsed} {edits : List Edit}
    (hparse : parser.reparse s.registry previous edits e.grammar source = .error (.grammar err)) :
    s.LoadFails parser buffer err := by
  obtain ⟨language, hlanguage⟩ := Registry.isLoaded_iff.mp (h buffer e he)
  obtain ⟨reason, hload, herr⟩ := Parser.languageFor_eq_error hlanguage (Parser.reparse_eq_grammar_error hparse)
  exact ⟨e, language, reason, he, hlanguage, hload, herr⟩

theorem Loaded.loadFails_of_parseUpdate (h : s.Loaded) {edit : Edit}
    (hparse : s.parseUpdate parser buffer edit source = .error (.grammar err)) :
    s.LoadFails parser buffer err := by
  cases he : s.entryOf? buffer with
  | none => simp [parseUpdate, require, he] at hparse
  | some e =>
    simp only [parseUpdate, require, he] at hparse
    split at hparse
    · next hreparse =>
      cases hparse
      exact h.loadFails_of_reparse he hreparse
    · cases hparse

theorem Loaded.loadFails_of_parseChanges (h : s.Loaded) {changes : List Change}
    (hparse : s.parseChanges parser buffer changes source = .error (.grammar err)) :
    s.LoadFails parser buffer err := by
  cases he : s.entryOf? buffer with
  | none => simp [parseChanges, require, he] at hparse
  | some e =>
    simp only [parseChanges, require, he] at hparse
    split at hparse
    · cases hparse
    · split at hparse
      · cases hparse
      · split at hparse
        · next hreparse =>
          cases hparse
          exact h.loadFails_of_reparse he hreparse
        · cases hparse

end

/-! ### Other grammars -/

/-- What other grammars do to a shelf. The buffers that are dropped are those without a grammar among
them. All else stays: the other entries with their stamps, and so the order in which trees will go. -/
structure Prunes (registry : Registry) (s t : Shelf) (removed : List BufferId) : Prop where
  increasing : removed.Pairwise (· < ·)
  mem_removed : ∀ buffer, buffer ∈ removed ↔
    ∃ e err, s.entryOf? buffer = some e ∧ registry.grammarFor e.grammar = .error err
  entryOf? : ∀ buffer, t.entryOf? buffer = if buffer ∈ removed then none else s.entryOf? buffer
  byAge : ∀ keep, byAge t.entries keep = (byAge s.entries keep).filter fun b => b ∉ removed
  registry : t.registry = registry
  options : t.options = s.options
  clock : t.clock = s.clock

theorem increasing_unloadable (s : Shelf) (registry : Registry) :
    (s.unloadable registry).Pairwise (· < ·) := by
  have hordered : (s.entries.toList.filter fun e => !registry.isLoaded e.2.grammar).Pairwise
      fun a b => compare a.1 b.1 = .lt :=
    Std.TreeMap.ordered_keys_toList.filter _
  refine List.pairwise_map.mpr (hordered.imp fun hlt => ?_)
  exact Nat.compare_eq_lt.mp hlt

theorem mem_unloadable (s : Shelf) (registry : Registry) (buffer : BufferId) :
    buffer ∈ s.unloadable registry ↔
      ∃ e err, s.entryOf? buffer = some e ∧ registry.grammarFor e.grammar = .error err := by
  constructor
  · intro hmem
    obtain ⟨⟨other, e⟩, he, rfl⟩ := List.mem_map.mp hmem
    have hentry : s.entryOf? other = some e :=
      Std.TreeMap.mem_toList_iff_getElem?_eq_some.mp (List.mem_filter.mp he).1
    have hloaded := (mem_unloadable_iff hentry).mp hmem
    cases hfor : registry.grammarFor e.grammar with
    | ok language => simp [Registry.isLoaded, hfor] at hloaded
    | error err => exact ⟨e, err, hentry, hfor⟩
  · rintro ⟨e, err, he, hfor⟩
    rw [mem_unloadable_iff he, Registry.isLoaded, hfor]

theorem InOrder.prunes {bound : Option Nat} {r : Recency} (h : s.InOrder bound r)
    (registry : Registry) :
    Prunes registry s (s.setRegistry registry).1 (s.setRegistry registry).2 where
  increasing := increasing_unloadable s registry
  mem_removed := mem_unloadable s registry
  entryOf? buffer := getElem?_foldl_erase _ _ _
  byAge keep := by
    obtain ⟨-, es, hlists, -⟩ := h
    have hkept := hlists.foldl_erase (s.unloadable registry)
    change Shelf.byAge (List.foldl _ _ _) _ = _
    rw [hkept.byAge_eq, hlists.byAge_eq, List.filter_map, List.filter_reverse, List.filter_filter,
      List.filter_filter]
    -- Both sides drop the same entries, in the two possible orders.
    refine congrArg (List.map _) (congrArg _ (List.filter_congr fun e _ => ?_))
    exact Bool.and_comm _ _
  registry := rfl
  options := rfl
  clock := rfl

end Shelf

namespace Store

/-- Every step of the store, at every depth of rounds, leaves the grammars of tracked buffers loaded. -/
theorem follows_loaded (parser : Parser) :
    (storeHost parser).Follows (fun w _ => w) (fun s (_ : Unit) => s.shelf.Loaded) where
  subscribe _ h := h
  unsubscribe _ h := h
  take h := h
  finished := by
    intro s w op t result heffect h
    cases step_of_finished heffect with
    | install _ announced => exact absurd announced announce_ne_finished
    | refuse => exact h
    | answer => exact h
    | untrack buffer removed => exact h.untrack buffer
    | setRegistry registry => exact s.shelf.loaded_setRegistry registry
  opening := by
    intro s w op buffer opening close result heffect h
    obtain ⟨source, grammar, parsed, announcing, hinstalls, -, rfl, -⟩ := step_announced heffect
    -- The parse looked the grammar up in the same registry that the shelf still has.
    obtain ⟨previous, edits, hparse⟩ := hinstalls.parse
    obtain ⟨-, language, -, -, -, -, hlanguage, -⟩ := Parser.reparse_eq_ok_iff.mp hparse
    exact h.install (Registry.isLoaded_iff.mpr ⟨language, (Parser.languageFor_eq_ok_iff.mp hlanguage).1⟩)
  close := by
    intro s w op buffer opening close result t heffect h
    rw [shelf_close heffect t]
    exact h

/-- An operation that parses and installs fails for want of a grammar only if its parse does. -/
theorem parse_of_outcome_grammar {parser : Parser} {s : Store StoreOp} {op : StoreOp} {buffer : BufferId}
    {parse : Shelf → Except BufferError (String × Parsed)} {err : GrammarError}
    (heffect : (storeHost parser).handle s op = commit buffer s (s.guarded buffer parse))
    (houtcome : ((storeHost parser).act s (.perform op)).2.outcome = .done (.tree (.error (.grammar err)))) :
    parse s.shelf = .error (.grammar err) := by
  rw [outcome_act_of_commit heffect] at houtcome
  unfold guarded checkReentrant at houtcome
  split at houtcome
  · next hguard =>
    split at hguard
    · cases hguard
      cases houtcome
    · cases hguard
  · cases hparse : parse s.shelf with
    | ok outcome =>
      rw [hparse] at houtcome
      cases houtcome
    | error e =>
      rw [hparse] at houtcome
      cases houtcome
      rfl

/-- **Tracked grammars stay loaded.** At every moment of every run from an empty store, also in the
middle of rounds and whatever grammars observers have set, the grammar of every tracked buffer is loaded.
Other grammars drop exactly the buffers without one among them, and answer with these buffers in order.
An update never fails because its grammar is unknown. If it fails for want of a grammar at all, then the
buffer is tracked, its grammar is loaded, and the parser refuses the language, for the reason that the
update gives. -/
theorem tracked_grammars_loaded (parser : Parser) (registry : Registry) (options : StoreOptions)
    (actions : List (Action StoreOp)) (m : (storeHost parser).Moment)
    (hm : (storeHost parser).Reaches (Store.empty registry options) actions m) :
    (∀ buffer e, m.state.shelf.entryOf? buffer = some e →
      ∃ language, m.state.shelf.registry.grammarFor e.grammar = .ok language) ∧
    (∀ next, ∃ shelf removed,
      (storeHost parser).act m.state (.perform (.setRegistry next)) =
        ({ m.state with shelf }, .mk (.perform (.setRegistry next)) (.done (.removed removed)) []) ∧
      Shelf.Prunes next m.state.shelf shelf removed) ∧
    (∀ buffer edit source err,
      ((storeHost parser).act m.state (.perform (.update buffer edit source))).2.outcome =
        .done (.tree (.error (.grammar err))) →
      (∀ name, err ≠ .unsupported name) ∧ m.state.shelf.LoadFails parser buffer err) ∧
    (∀ buffer changes source err,
      ((storeHost parser).act m.state (.perform (.updateWithChanges buffer changes source))).2.outcome =
        .done (.tree (.error (.grammar err))) →
      (∀ name, err ≠ .unsupported name) ∧ m.state.shelf.LoadFails parser buffer err) := by
  have hloaded : m.state.shelf.Loaded :=
    (follows_loaded parser).reaches (w := ()) (Shelf.loaded_empty registry options) hm
  have horder := (follows_inOrder parser options.maxTrees).reaches
    (Shelf.inOrder_empty registry options) hm
  have hsupported : ∀ {buffer err}, m.state.shelf.LoadFails parser buffer err →
      ∀ name, err ≠ .unsupported name := by
    rintro buffer err ⟨e, language, reason, -, -, -, rfl⟩ name hname
    cases hname
  refine ⟨?_, ?_, ?_, ?_⟩
  · intro buffer e he
    exact Registry.isLoaded_iff.mp (hloaded buffer e he)
  · intro next
    exact ⟨_, _, Host.act_of_finished rfl, horder.prunes next⟩
  · intro buffer edit source err houtcome
    have hfails := hloaded.loadFails_of_parseUpdate (parse_of_outcome_grammar rfl houtcome)
    exact ⟨hsupported hfails, hfails⟩
  · intro buffer changes source err houtcome
    have hfails := hloaded.loadFails_of_parseChanges (parse_of_outcome_grammar rfl houtcome)
    exact ⟨hsupported hfails, hfails⟩

/-- While the second buffer is being announced, an observer sets other grammars. There the grammar of the first buffer
is unavailable, and that of the second stands for a language that the parser refuses. The first buffer goes. The second
stays and cannot be updated any more, but not because its grammar is unknown. -/
theorem tracked_grammars_loaded_refused_language :
    let parser : Parser := { Parser.plain with
      load := fun language => if language.name = "old" then .error "wrong version" else .ok () }
    let code := (Registry.withScopes ScopeTable.empty).register "code" ⟨"code"⟩
    let both := code.register "text" ⟨"text"⟩
    let other := (code.register "code" ⟨"old"⟩).markUnavailable "text" "gone"
    let host := storeHost parser
    let actions : List (Action StoreOp) :=
      [.subscribe "switch" [[], [.perform (.setRegistry other)]],
        .perform (.track 1 "text" [0x61]), .perform (.track 2 "code" [0x62])]
    ∃ m : host.Moment, host.Reaches (Store.empty both ⟨true, none⟩) actions m ∧ m.tasks = [] ∧
      m.state.shelf.tracked = [2] ∧
      (∃ e language, m.state.shelf.entryOf? 2 = some e ∧
        m.state.shelf.registry.grammarFor e.grammar = .ok language) ∧
      (∃ err, (host.act m.state (.perform (.updateWithChanges 2 [] [0x62]))).2.outcome =
        .done (.tree (.error (.grammar err))) ∧ (∀ name, err ≠ .unsupported name) ∧
          m.state.shelf.LoadFails parser 2 err) ∧
      ∃ shelf, (host.act m.state (.perform (.setRegistry Registry.empty))).1.shelf = shelf ∧
        Shelf.Prunes Registry.empty m.state.shelf shelf [2] := by
  intro parser code both other host actions
  let parse (shelf : Shelf) := shelf.parseChanges parser 2 [] [0x62]
  obtain ⟨m, hm, htasks, htracked, hremoved, hparse⟩ : ∃ m : host.Moment,
      host.Reaches (Store.empty both ⟨true, none⟩) actions m ∧ m.tasks = [] ∧
        m.state.shelf.tracked = [2] ∧ m.state.shelf.unloadable Registry.empty = [2] ∧
        (m.state.guarded 2 parse).map (fun _ => ()) =
          .error (.grammar (.unavailable "code" "wrong version")) :=
    ⟨_, (lawful_storeHost parser).reaches_run _ actions, rfl, by decide +kernel, by decide +kernel,
      by decide +kernel⟩
  have hrefused : (host.act m.state (.perform (.updateWithChanges 2 [] [0x62]))).2.outcome =
      .done (.tree (.error (.grammar (.unavailable "code" "wrong version")))) := by
    rw [outcome_act_of_commit rfl]
    change Outcome.done (StoreResult.tree ((m.state.guarded 2 parse).map _)) = _
    cases houtcome : m.state.guarded 2 parse with
    | ok parsed =>
      rw [houtcome] at hparse
      cases hparse
    | error e =>
      rw [houtcome] at hparse
      cases hparse
      rfl
  obtain ⟨hloaded, hprunes, -, hchanges⟩ :=
    tracked_grammars_loaded parser both ⟨true, none⟩ actions m hm
  obtain ⟨shelf, removed, hact, hshelf⟩ := hprunes Registry.empty
  have hsame : removed = [2] := by
    rw [← hremoved]
    refine hshelf.increasing.eq_of_mem_iff (m.state.shelf.increasing_unloadable _) fun buffer => ?_
    rw [hshelf.mem_removed, Shelf.mem_unloadable]
  obtain ⟨e, err, he, -⟩ := (hshelf.mem_removed 2).mp (by simp [hsame])
  obtain ⟨language, hlanguage⟩ := hloaded 2 e he
  rw [hsame] at hshelf
  exact ⟨m, hm, htasks, htracked, ⟨e, language, he, hlanguage⟩, ⟨_, hrefused, hchanges 2 [] _ _ hrefused⟩, shelf,
    by rw [hact], hshelf⟩

end Store

end LiveSyntax
