import LiveSyntax.Proofs.Moments
import LiveSyntax.Proofs.StoreHistory
import Mathlib.Data.List.Nodup

/-!
# Which trees stay

A bounded shelf stamps its trees and, after each install, drops those with the oldest stamps beyond the
bound. `Recency` is the plain account of the same: a list of buffers, each with its grammar, most
recently installed first. An install moves its buffer to the front and cuts the list to the bound. The
list is kept from the calls of a run alone; it knows no stamps and never sorts.

The two agree because the stamps of a shelf are pairwise different and grow with every install, so that
the entries in the order of their stamps are the list, read backwards.

## Main definitions

- `Recency`, `Recency.note`: the list, and what an action does to it.
- `Shelf.Lists`: the entries of a shelf, newest first.
- `Shelf.InOrder`: a shelf and a list that agree.

## Main results

- `Shelf.Lists.byAge_eq`, `Shelf.Lists.evict`: eviction by stamps is a cut of the list.
- `Store.follows_inOrder`: every step of the store keeps `Shelf.InOrder`.
- `Store.tracked_perm_recency`: at every moment, the tracked buffers are those of the list.
-/

namespace LiveSyntax

/-- The first elements of a list, as many as a bound admits; it admits at least one. -/
def cut {α : Type} (bound : Option Nat) (l : List α) : List α :=
  match bound with
  | none => l
  | some n => l.take (max n 1)

theorem map_cut {α β : Type} (bound : Option Nat) (f : α → β) (l : List α) :
    (cut bound l).map f = cut bound (l.map f) := by
  cases bound with
  | none => rfl
  | some n => exact List.map_take

theorem cut_subset {α : Type} (bound : Option Nat) (l : List α) : cut bound l ⊆ l := by
  cases bound with
  | none => exact fun _ h => h
  | some n => exact List.take_subset _ _

theorem cut_cons_self {α : Type} (bound : Option Nat) (x : α) (l : List α) :
    x ∈ cut bound (x :: l) := by
  cases bound with
  | none => exact List.mem_cons_self
  | some n =>
    obtain ⟨k, hk⟩ : ∃ k, max n 1 = k + 1 := ⟨max n 1 - 1, by omega⟩
    rw [cut, hk, List.take_succ_cons]
    exact List.mem_cons_self

theorem length_cut_le {α : Type} (bound : Nat) (l : List α) :
    (cut (some bound) l).length ≤ max bound 1 :=
  List.length_take_le _ _

/-- Buffers with their grammars, most recently installed first. -/
abbrev Recency := List (BufferId × String)

namespace Recency

/-- The buffers, most recently installed first. -/
def ids (r : Recency) : List BufferId :=
  r.map (·.1)

def remove (r : Recency) (buffer : BufferId) : Recency :=
  r.filter fun e => e.1 != buffer

/-- The grammar of a buffer in the list. -/
def grammarOf (r : Recency) (buffer : BufferId) : String :=
  ((r.find? fun e => e.1 == buffer).map (·.2)).getD ""

/-- Moves a buffer to the front, and cuts the list to a bound. -/
def touch (bound : Option Nat) (r : Recency) (buffer : BufferId) (grammar : String) : Recency :=
  cut bound ((buffer, grammar) :: r.remove buffer)

/-- What an action and its outcome do to the list. An outcome with a new tree is an install; it goes on
with the grammar of the buffer if it names none. Reads, failures and answers from what is there do
nothing. -/
def note (bound : Option Nat) (r : Recency) : Action StoreOp × Outcome StoreResult → Recency
  | (.perform (.untrack buffer), _) => r.remove buffer
  | (.perform (.setRegistry registry), _) => r.filter fun e => registry.isLoaded e.2
  | (.perform op, .done (.tree (.ok _))) =>
    match op.request? with
    | none => r
    | some (buffer, named, _) => r.touch bound buffer (named.getD (r.grammarOf buffer))
  | _ => r

/-- The list after some actions, from an empty one on. -/
def ofPast (bound : Option Nat) (past : List (Action StoreOp × Outcome StoreResult)) : Recency :=
  past.foldl (note bound) []

theorem note_installed (bound : Option Nat) (r : Recency) {op : StoreOp} {buffer : BufferId}
    {named : Option String} {source : List UInt8} (tree : Tree)
    (h : op.request? = some (buffer, named, source)) :
    r.note bound (.perform op, .done (.tree (.ok tree))) =
      r.touch bound buffer (named.getD (r.grammarOf buffer)) := by
  cases op <;> cases h <;> rfl

theorem note_of_quiet (bound : Option Nat) (r : Recency) {op : StoreOp} {result : StoreResult}
    (hresult : ∀ tree, result ≠ .tree (.ok tree)) (huntrack : ∀ buffer, op ≠ .untrack buffer)
    (hregistry : ∀ registry, op ≠ .setRegistry registry) :
    r.note bound (.perform op, .done result) = r := by
  unfold note
  split
  · next buffer _ heq =>
    obtain ⟨haction, -⟩ := Prod.mk.inj heq
    exact absurd (Action.perform.inj haction) (huntrack buffer)
  · next registry _ heq =>
    obtain ⟨haction, -⟩ := Prod.mk.inj heq
    exact absurd (Action.perform.inj haction) (hregistry registry)
  · next heq =>
    obtain ⟨-, houtcome⟩ := Prod.mk.inj heq
    exact absurd (Outcome.done.inj houtcome) (hresult _)
  · rfl

end Recency

/-! ### Entries in order -/

namespace Shelf

/-- The entries of a map, newest first. Each one is found under the buffer that it names. -/
structure Lists (entries : Std.TreeMap BufferId Entry) (es : List Entry) : Prop where
  getElem?_iff : ∀ {buffer e}, entries[buffer]? = some e ↔ e ∈ es ∧ e.buffer = buffer
  newest_first : es.Pairwise fun e f => f.stamp < e.stamp

namespace Lists

variable {entries : Std.TreeMap BufferId Entry} {es : List Entry}

theorem entry_unique (h : Lists entries es) {e f : Entry} (he : e ∈ es) (hf : f ∈ es)
    (hsame : e.buffer = f.buffer) : e = f := by
  have hfound := h.getElem?_iff.mpr ⟨he, hsame⟩
  rw [h.getElem?_iff.mpr ⟨hf, rfl⟩] at hfound
  exact (Option.some.inj hfound).symm

theorem stamp_unique (h : Lists entries es) {e f : Entry} (he : e ∈ es) (hf : f ∈ es)
    (hsame : e.stamp = f.stamp) : e = f := by
  have hnodup : (es.map (·.stamp)).Nodup :=
    List.pairwise_map.mpr (h.newest_first.imp fun hlt heq => by omega)
  exact List.inj_on_of_nodup_map hnodup he hf hsame

theorem nodup (h : Lists entries es) : es.Nodup :=
  h.newest_first.imp fun hlt heq => by rw [heq] at hlt; exact Nat.lt_irrefl _ hlt

/-- The map lists its entries by buffer, and `es` lists the same entries by age. -/
theorem perm (h : Lists entries es) : entries.toList.Perm (es.map fun e => (e.buffer, e)) := by
  refine (List.perm_ext_iff_of_nodup ?_ ?_).mpr ?_
  · refine Std.TreeMap.distinct_keys_toList.imp fun hne heq => hne ?_
    rw [heq]
    exact Std.ReflCmp.compare_self
  · exact List.Nodup.map (fun e f heq => (Prod.mk.inj heq).2) h.nodup
  · rintro ⟨buffer, e⟩
    rw [Std.TreeMap.mem_toList_iff_getElem?_eq_some, h.getElem?_iff, List.mem_map]
    constructor
    · rintro ⟨he, rfl⟩
      exact ⟨e, he, rfl⟩
    · rintro ⟨f, hf, heq⟩
      cases heq
      exact ⟨hf, rfl⟩

theorem size_eq (h : Lists entries es) : entries.size = es.length := by
  rw [← Std.TreeMap.length_toList, h.perm.length_eq, List.length_map]

theorem keys_perm (h : Lists entries es) : entries.keys.Perm (es.map (·.buffer)) := by
  rw [← Std.TreeMap.map_fst_toList_eq_keys]
  have hperm := h.perm.map Prod.fst
  rw [List.map_map] at hperm
  exact hperm

theorem foldl_erase (h : Lists entries es) (dropped : List BufferId) :
    Lists (dropped.foldl (fun kept b => kept.erase b) entries)
      (es.filter fun e => e.buffer ∉ dropped) := by
  refine ⟨?_, h.newest_first.filter _⟩
  intro buffer e
  rw [getElem?_foldl_erase, List.mem_filter, decide_eq_true_iff]
  by_cases hdropped : buffer ∈ dropped
  · rw [if_pos hdropped]
    refine iff_of_false nofun ?_
    rintro ⟨⟨-, hkept⟩, rfl⟩
    exact hkept hdropped
  · rw [if_neg hdropped, h.getElem?_iff]
    constructor
    · rintro ⟨he, rfl⟩
      exact ⟨⟨he, hdropped⟩, rfl⟩
    · rintro ⟨⟨he, -⟩, rfl⟩
      exact ⟨he, rfl⟩

theorem insert (h : Lists entries es) (new : Entry) (hfresh : ∀ e ∈ es, e.stamp < new.stamp) :
    Lists (entries.insert new.buffer new) (new :: es.filter fun e => e.buffer != new.buffer) := by
  refine ⟨?_, List.pairwise_cons.mpr ⟨?_, h.newest_first.filter _⟩⟩
  · intro buffer e
    rw [Std.TreeMap.getElem?_insert, List.mem_cons, List.mem_filter]
    by_cases hbuffer : new.buffer = buffer
    · subst hbuffer
      rw [if_pos Std.ReflCmp.compare_self]
      constructor
      · intro heq
        obtain rfl := Option.some.inj heq
        exact ⟨.inl rfl, rfl⟩
      · rintro ⟨rfl | ⟨-, hother⟩, hsame⟩
        · rfl
        · simp [hsame] at hother
    · rw [if_neg (by simpa using hbuffer), h.getElem?_iff]
      constructor
      · rintro ⟨he, rfl⟩
        exact ⟨.inr ⟨he, by simpa using fun heq => hbuffer heq.symm⟩, rfl⟩
      · rintro ⟨rfl | ⟨he, -⟩, hsame⟩
        · exact absurd hsame hbuffer
        · exact ⟨he, hsame⟩
  · intro e he
    exact hfresh e (List.mem_filter.mp he).1

/-- **The order of eviction** is the order of the list, read backwards. -/
theorem byAge_eq (h : Lists entries es) (keep : BufferId) :
    byAge entries keep = (es.filter fun e => e.buffer != keep).reverse.map (·.buffer) := by
  let others := (es.filter fun e => e.buffer != keep).map fun e => (e.buffer, e)
  have hperm : (entries.toList.filter fun e => e.1 != keep).Perm others.reverse := by
    have hall := h.perm.filter fun e => e.1 != keep
    rw [List.filter_map] at hall
    exact hall.trans (List.reverse_perm _).symm
  -- Both lists are sorted by stamp, and no two entries have the same stamp.
  have hsorted : (entries.toList.filter fun e => e.1 != keep).mergeSort
      (fun a b => decide (a.2.stamp ≤ b.2.stamp)) = others.reverse := by
    have hmem : ∀ x ∈ others.reverse, ∃ e ∈ es, (e.buffer, e) = x := by
      intro x hx
      obtain ⟨e, he, rfl⟩ := List.mem_map.mp (List.mem_reverse.mp hx)
      exact ⟨e, (List.mem_filter.mp he).1, rfl⟩
    refine @List.Perm.eq_of_pairwise _ (fun a b => a.2.stamp ≤ b.2.stamp) _ _ ?_ ?_ ?_
      ((List.mergeSort_perm _ _).trans hperm)
    · intro a b ha hb hab hba
      rw [((List.mergeSort_perm _ _).trans hperm).mem_iff] at ha
      obtain ⟨e, he, rfl⟩ := hmem a ha
      obtain ⟨f, hf, rfl⟩ := hmem b hb
      have hsame : e.stamp = f.stamp := Nat.le_antisymm hab hba
      rw [h.stamp_unique he hf hsame]
    · refine (List.pairwise_mergeSort ?_ ?_ _).imp fun hle => of_decide_eq_true hle
      · intro a b c hab hbc
        simp only [decide_eq_true_eq] at hab hbc ⊢
        omega
      · intro a b
        simp only [Bool.or_eq_true, decide_eq_true_eq]
        omega
    · rw [List.pairwise_reverse, List.pairwise_map]
      exact (h.newest_first.filter _).imp Nat.le_of_lt
  rw [byAge, hsorted, List.map_reverse, List.map_reverse, List.map_map]
  rfl

theorem byAge_newest {new : Entry} (h : Lists entries (new :: es)) :
    byAge entries new.buffer = es.reverse.map (·.buffer) := by
  have hothers : es.filter (fun e => e.buffer != new.buffer) = es := by
    refine List.filter_eq_self.mpr fun e he => ?_
    rw [bne_iff_ne]
    intro hsame
    obtain rfl := h.entry_unique (List.mem_cons_of_mem _ he) List.mem_cons_self hsame
    exact (List.nodup_cons.mp h.nodup).1 he
  rw [h.byAge_eq, List.filter_cons, if_neg (by simp), hothers]

theorem disjoint_buffers {older newer : List Entry} (h : Lists entries (newer ++ older)) {e f : Entry}
    (he : e ∈ newer) (hf : f ∈ older) : e.buffer ≠ f.buffer := by
  intro hsame
  obtain rfl := h.entry_unique (List.mem_append_left _ he) (List.mem_append_right _ hf) hsame
  exact (List.nodup_append.mp h.nodup).2.2 e he e hf rfl

/-- **Eviction** keeps the newest entries, and the one that was just brought is among them. -/
theorem evict {new : Entry} (h : Lists entries (new :: es)) (bound : Option Nat) :
    Lists (evict entries bound new.buffer) (cut bound (new :: es)) := by
  cases bound with
  | none => exact h
  | some n =>
    obtain ⟨k, hk⟩ : ∃ k, max n 1 = k + 1 := ⟨max n 1 - 1, by omega⟩
    -- The entries that go are those past the first `k + 1`.
    have hdropped : (byAge entries new.buffer).take (entries.size - max n 1) =
        (es.drop k).reverse.map (·.buffer) := by
      rw [h.byAge_newest, ← List.map_take, List.take_reverse, h.size_eq, List.length_cons, hk]
      by_cases hfew : es.length ≤ k
      · rw [List.drop_eq_nil_of_le (by omega), List.drop_eq_nil_of_le hfew]
      · rw [show es.length - (es.length + 1 - (k + 1)) = k by omega]
    have hcut : new :: es = (new :: es.take k) ++ es.drop k := by
      rw [List.cons_append, List.take_append_drop]
    have hkept : (new :: es).filter (fun e => e.buffer ∉ (es.drop k).reverse.map (·.buffer)) =
        cut (some n) (new :: es) := by
      have hsplit := h
      rw [hcut] at hsplit
      rw [cut, hk, List.take_succ_cons, hcut, List.filter_append, List.filter_eq_self.mpr,
        List.filter_eq_nil_iff.mpr, List.append_nil]
      · intro f hf
        rw [decide_eq_true_iff, not_not]
        exact List.mem_map.mpr ⟨f, List.mem_reverse.mpr hf, rfl⟩
      · intro e he
        simp only [List.mem_map, List.mem_reverse, decide_eq_true_eq, not_exists, not_and]
        exact fun f hf hsame => hsplit.disjoint_buffers he hf hsame.symm
    rw [Shelf.evict, hdropped, ← hkept]
    exact h.foldl_erase _

end Lists

/-- A shelf and a list agree: the list is that of the entries, newest first, and has no more than the
bound admits. All stamps lie before the clock. -/
structure InOrder (bound : Option Nat) (s : Shelf) (r : Recency) : Prop where
  bound_eq : s.options.maxTrees = bound
  listed : ∃ es, Lists s.entries es ∧ (∀ e ∈ es, e.stamp < s.clock) ∧
    (∀ n, bound = some n → es.length ≤ max n 1) ∧ es.map (fun e => (e.buffer, e.grammar)) = r

variable {bound : Option Nat} {s : Shelf} {r : Recency}

theorem inOrder_empty (registry : Registry) (options : StoreOptions) :
    (Shelf.empty registry options).InOrder options.maxTrees [] := by
  refine ⟨rfl, [], ⟨?_, List.Pairwise.nil⟩, nofun, fun _ _ => Nat.zero_le _, rfl⟩
  intro buffer e
  simp [Shelf.empty]

theorem InOrder.size_le (h : s.InOrder bound r) (n : Nat) (hn : s.options.maxTrees = some n) :
    s.entries.size ≤ max n 1 := by
  obtain ⟨hbound, es, hlists, -, hlength, -⟩ := h
  rw [hlists.size_eq]
  exact hlength n (hbound.symm.trans hn)

theorem InOrder.grammarOf_eq (h : s.InOrder bound r) {buffer : BufferId} {e : Entry}
    (he : s.entryOf? buffer = some e) : r.grammarOf buffer = e.grammar := by
  obtain ⟨-, es, hlists, -, -, rfl⟩ := h
  obtain ⟨hmem, rfl⟩ := hlists.getElem?_iff.mp he
  have hfound : (es.find? fun f => f.buffer == e.buffer) = some e := by
    cases hfind : es.find? fun f => f.buffer == e.buffer with
    | none => exact absurd (List.find?_eq_none.mp hfind e hmem) (by simp)
    | some f =>
      have hsame : f.buffer = e.buffer := by simpa using List.find?_some hfind
      rw [hlists.entry_unique (List.mem_of_find?_eq_some hfind) hmem hsame]
  rw [Recency.grammarOf, List.find?_map]
  simp only [Function.comp_def, hfound]
  rfl

/-- **An install** moves its buffer to the front and cuts the list. -/
theorem InOrder.install (h : s.InOrder bound r) (buffer : BufferId) (grammar : String)
    (parsed : Parsed) :
    (s.install buffer grammar parsed).InOrder bound (r.touch bound buffer grammar) := by
  obtain ⟨hbound, es, hlists, hfresh, -, rfl⟩ := h
  let new : Entry := ⟨buffer, grammar, parsed, s.clock⟩
  have hinsert : Lists (s.entries.insert buffer new)
      (new :: es.filter fun e => e.buffer != buffer) :=
    hlists.insert new hfresh
  refine ⟨hbound, _, hinsert.evict s.options.maxTrees, ?_, ?_, ?_⟩
  · intro e he
    change e.stamp < s.clock + 1
    rcases List.mem_cons.mp (cut_subset _ _ he) with rfl | hold
    · exact Nat.lt_succ_self _
    · exact Nat.lt_succ_of_lt (hfresh e (List.mem_filter.mp hold).1)
  · intro n hn
    rw [hbound, hn]
    exact length_cut_le n _
  · rw [map_cut, hbound, List.map_cons, Recency.touch, Recency.remove, List.filter_map]
    rfl

/-- Dropping buffers leaves the order of the others. -/
theorem InOrder.drop (h : s.InOrder bound r) {t : Shelf} (dropped : List BufferId)
    (keeps : BufferId × String → Bool) (hoptions : t.options = s.options) (hclock : t.clock = s.clock)
    (hentries : t.entries = dropped.foldl (fun kept b => kept.erase b) s.entries)
    (hkeeps : ∀ buffer e, s.entryOf? buffer = some e →
      (keeps (buffer, e.grammar) = true ↔ buffer ∉ dropped)) : t.InOrder bound (r.filter keeps) := by
  obtain ⟨hbound, es, hlists, hfresh, hlength, rfl⟩ := h
  refine ⟨by rw [hoptions, hbound], es.filter fun e => e.buffer ∉ dropped, ?_, ?_, ?_, ?_⟩
  · rw [hentries]
    exact hlists.foldl_erase dropped
  · intro e he
    rw [hclock]
    exact hfresh e (List.mem_filter.mp he).1
  · intro n hn
    exact Nat.le_trans (List.length_filter_le _ _) (hlength n hn)
  · rw [List.filter_map]
    refine congrArg _ (List.filter_congr fun e he => ?_)
    have hiff := hkeeps e.buffer e (hlists.getElem?_iff.mpr ⟨he, rfl⟩)
    rw [Bool.eq_iff_iff, decide_eq_true_iff]
    exact hiff.symm

theorem InOrder.untrack (h : s.InOrder bound r) (buffer : BufferId) :
    (s.untrack buffer).1.InOrder bound (r.remove buffer) := by
  refine h.drop [buffer] _ rfl rfl rfl ?_
  intro other e _
  rw [bne_iff_ne, List.mem_singleton]

theorem mem_unloadable_iff {registry : Registry} {buffer : BufferId} {e : Entry}
    (he : s.entryOf? buffer = some e) :
    buffer ∈ s.unloadable registry ↔ registry.isLoaded e.grammar = false := by
  unfold unloadable
  rw [List.mem_map]
  constructor
  · rintro ⟨⟨other, f⟩, hf, rfl⟩
    obtain ⟨hmem, hloaded⟩ := List.mem_filter.mp hf
    have hsame : s.entryOf? other = some f := Std.TreeMap.mem_toList_iff_getElem?_eq_some.mp hmem
    rw [he] at hsame
    cases hsame
    simpa using hloaded
  · intro hloaded
    refine ⟨(buffer, e), List.mem_filter.mpr ⟨?_, by simpa using hloaded⟩, rfl⟩
    exact Std.TreeMap.mem_toList_iff_getElem?_eq_some.mpr he

theorem InOrder.setRegistry (h : s.InOrder bound r) (registry : Registry) :
    (s.setRegistry registry).1.InOrder bound (r.filter fun e => registry.isLoaded e.2) := by
  refine h.drop (s.unloadable registry) _ rfl rfl rfl ?_
  intro buffer e he
  rw [mem_unloadable_iff he]
  simp

end Shelf

namespace Store

/-- Every step of the store, at every depth of rounds, keeps the shelf and the list in agreement. -/
theorem follows_inOrder (parser : Parser) (bound : Option Nat) :
    (storeHost parser).Follows (Recency.note bound) (fun s r => s.shelf.InOrder bound r) where
  subscribe _ h := h
  unsubscribe _ h := h
  take h := h
  finished := by
    intro s r op t result heffect h
    by_cases huntrack : ∃ buffer, op = .untrack buffer
    · obtain ⟨buffer, rfl⟩ := huntrack
      cases heffect
      exact h.untrack buffer
    · have hkeeps : ∀ buffer, op ≠ .untrack buffer := fun buffer heq => huntrack ⟨buffer, heq⟩
      cases step_of_finished heffect with
      | install _ announced => exact absurd announced announce_ne_finished
      | refuse error request =>
        rw [r.note_of_quiet bound (by rintro tree ⟨⟩) hkeeps (by rintro registry rfl; cases request)]
        exact h
      | answer quiet same =>
        rw [r.note_of_quiet bound (by rintro tree rfl; cases quiet) hkeeps same]
        exact h
      | untrack buffer removed => exact absurd rfl (hkeeps buffer)
      | setRegistry registry => exact h.setRegistry registry
  opening := by
    intro s r op buffer opening close result heffect h
    obtain ⟨source, grammar, parsed, announcing, hinstalls, rfl, rfl, -⟩ := step_announced heffect
    obtain ⟨named, hrequest, hgrammar⟩ := hinstalls.request
    have hname : named.getD (r.grammarOf buffer) = grammar := by
      cases named with
      | some name => exact Option.some.inj hgrammar
      | none =>
        obtain ⟨e, he, rfl⟩ := Option.map_eq_some_iff.mp hgrammar
        exact h.grammarOf_eq he
    rw [r.note_installed bound _ hrequest, hname]
    exact h.install buffer grammar parsed
  close := by
    intro s r op buffer opening close result t heffect h
    rw [shelf_close heffect t]
    exact h

/-- **A bounded store keeps the most recently installed trees.** At every moment of every run from an
empty store, also in the middle of rounds, the tracked buffers are those of the list that the actions so
far give, each once. So there are never more trees than the bound admits, and after an install its
buffer is tracked. -/
theorem tracked_perm_recency (parser : Parser) (registry : Registry) (options : StoreOptions)
    (actions : List (Action StoreOp)) (m : (storeHost parser).Moment)
    (hm : (storeHost parser).Reaches (Store.empty registry options) actions m) :
    m.state.shelf.tracked.Perm (Recency.ofPast options.maxTrees m.past).ids ∧
    (∀ bound, options.maxTrees = some bound → m.state.shelf.entries.size ≤ max bound 1) ∧
    (∀ earlier op tree buffer named source,
      m.past = earlier ++ [(.perform op, .done (.tree (.ok tree)))] →
      op.request? = some (buffer, named, source) → buffer ∈ m.state.shelf.tracked) := by
  have hinOrder := (follows_inOrder parser options.maxTrees).reaches
    (Shelf.inOrder_empty registry options) hm
  obtain ⟨-, es, hlists, -, hlength, hes⟩ := hinOrder
  have hperm : m.state.shelf.tracked.Perm (Recency.ofPast options.maxTrees m.past).ids := by
    have hids : (Recency.ofPast options.maxTrees m.past).ids = es.map (·.buffer) := by
      rw [Recency.ofPast, ← hes, Recency.ids, List.map_map]
      rfl
    rw [hids]
    exact hlists.keys_perm
  refine ⟨hperm, ?_, ?_⟩
  · intro bound hbound
    rw [hlists.size_eq]
    exact hlength bound hbound
  · intro earlier op tree buffer named source hpast hrequest
    -- The last action put the buffer at the front of the list, and a cut keeps the front.
    rw [hperm.mem_iff, hpast, Recency.ofPast, List.foldl_append]
    change buffer ∈ (Recency.note _ _ _).ids
    rw [Recency.note_installed _ _ _ hrequest]
    exact List.mem_map.mpr ⟨_, cut_cons_self _ _ _, rfl⟩

/-- With room for two trees, the third one drops the first. The observer that is told brings the first
back from inside the round, and the second goes. -/
theorem tracked_perm_recency_nested_install :
    let registry := (Registry.withScopes ScopeTable.empty).register "text" ⟨"text"⟩
    let host := storeHost Parser.plain
    let actions : List (Action StoreOp) :=
      [.subscribe "reader" [[], [], [.perform (.track 1 "text" [0x64])]],
        .perform (.track 1 "text" [0x61]), .perform (.track 2 "text" [0x62]),
        .perform (.track 3 "text" [0x63])]
    ∃ m : host.Moment, host.Reaches (Store.empty registry ⟨true, some 2⟩) actions m ∧ m.tasks = [] ∧
      (Recency.ofPast (some 2) m.past).ids = [1, 3] ∧ m.state.shelf.tracked.Perm [1, 3] ∧
      m.state.shelf.entries.size ≤ 2 := by
  intro registry host actions
  obtain ⟨m, hm, htasks, hids⟩ : ∃ m : host.Moment,
      host.Reaches (Store.empty registry ⟨true, some 2⟩) actions m ∧ m.tasks = [] ∧
        (Recency.ofPast (some 2) m.past).ids = [1, 3] :=
    ⟨_, (lawful_storeHost Parser.plain).reaches_run _ actions, rfl, by decide +kernel⟩
  obtain ⟨hperm, hsize, -⟩ := tracked_perm_recency Parser.plain registry ⟨true, some 2⟩ actions m hm
  rw [hids] at hperm
  exact ⟨m, hm, htasks, hids, hperm, hsize 2 rfl⟩

end Store

end LiveSyntax
