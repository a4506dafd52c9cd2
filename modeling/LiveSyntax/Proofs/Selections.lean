import LiveSyntax.Proofs.Navigation
import LiveSyntax.Selection.Command

/-!
# Selections under commands

A command fails if it has to look at a span that is inverted or reaches past the source. The builder does
not check the spans that it is told, so in general a node may have such a span, and a command may select
it. In a tree whose spans are nested this cannot happen: going down from the root, which spans the whole
source, every span is ordered and inside.

What a command puts out is either a span that was selected or the span of a node of the tree. This holds
of every tree and needs no nesting; with nesting it follows that a selection in bounds stays so, and that
commands can be run on each other's output for ever.

## Main definitions

- `Tree.Nested`: every node lies inside its parent.
- `Tree.Lands`: a span is one of some given spans, or that of a node.
- `Command.runAll`: a chain of commands, with all selections on the way.

## Main results

- `Command.exists_run`: a command on a selection in bounds succeeds, and where it lands.
- `Command.chain_stays_valid`: the same for chains, in bounds all along.
-/

namespace LiveSyntax

/-! ### Nested spans -/

theorem Arena.Linked.lt_of_mem_ancestors {t : Arena} (h : t.Linked) {a i : Nat} (hi : i < t.size)
    (ha : a ∈ t.ancestors i) : a < t.size := by
  refine h.climb (P := fun i => a ∈ t.ancestors i → a < t.size) ?_ ?_ hi ha
  · intro hmem
    rw [h.ancestors_root (Nat.zero_lt_of_lt hi)] at hmem
    cases hmem
  · intro i p hi hp hparent _ ih hmem
    rw [h.ancestors_eq_cons hi hparent] at hmem
    rcases List.mem_cons.mp hmem with rfl | habove
    · exact hp
    · exact ih habove

namespace Tree

/-- Every node but the root has an ordered span, which lies inside that of its parent. -/
def Nested (t : Tree) : Prop :=
  ∀ i < t.size, ∀ p ∈ t.parent? i,
    (t.span i).isOrdered = true ∧ (t.span p).contains (t.span i) = true

instance (t : Tree) : Decidable t.Nested :=
  inferInstanceAs (Decidable (∀ i < t.size, ∀ p ∈ t.parent? i, _))

variable {t : Tree} {i : Nat} {s : Span}

@[simp] theorem inBounds_iff : t.inBounds s = true ↔ s.start ≤ s.stop ∧ s.stop ≤ t.sourceLength := by
  simp [inBounds]

/-- **Nested spans are in bounds**, all of them. -/
theorem Nested.inBounds_span (h : t.Nested) (hlinked : t.Linked)
    (hroot : t.span Arena.root = ⟨0, t.sourceLength⟩) (hi : i < t.size) :
    t.inBounds (t.span i) = true := by
  refine hlinked.climb (P := fun i => t.inBounds (t.span i) = true) ?_ ?_ hi
  · simp [hroot]
  · intro i p hi _ hparent _ ih
    obtain ⟨hordered, hinside⟩ := h i hi p hparent
    simp only [inBounds_iff, Span.isOrdered_iff, Span.contains_iff] at *
    omega

/-! ### Targets -/

/-- A target is a node of the tree, if there is one. -/
def Targets (t : Tree) (target : Option Nat) : Prop :=
  ∀ i ∈ target, i < t.size

theorem targets_none : t.Targets none := by
  simp [Targets]

theorem targets_some (hi : i < t.size) : t.Targets (some i) := by
  simpa [Targets] using hi

theorem descend_lt (h : t.Linked) (s : Span) (fuel : Nat) (hi : i < t.size) :
    t.descend s fuel i < t.size := by
  induction fuel generalizing i with
  | zero => exact hi
  | succ fuel ih =>
    rw [descend]
    split
    · exact hi
    · next c hfound => exact ih ((h.mem_children_iff hi).mp (List.mem_of_find?_eq_some hfound)).1

theorem exists_covering (h : t.Linked) (hsize : 0 < t.size) (hs : t.inBounds s = true) :
    ∃ i, t.covering s = .ok i ∧ i < t.size :=
  ⟨_, if_pos hs, descend_lt h s t.size hsize⟩

theorem smallerDescendant?_targets (h : t.Linked) (hi : i < t.size) :
    t.Targets (t.smallerDescendant? i) := by
  intro d hd
  have hbelow := Arena.mem_subtree_iff.mp (List.mem_of_find?_eq_some hd)
  exact Nat.lt_of_lt_of_le hbelow.2 (h.bounds hi).2

theorem exists_ancestorForSelection (h : t.Linked) (hsize : 0 < t.size)
    (hs : t.inBounds s = true) : ∃ target, t.ancestorForSelection s = .ok target ∧ t.Targets target := by
  obtain ⟨i, hcover, hi⟩ := exists_covering h hsize hs
  simp only [ancestorForSelection, hcover, bind, Except.bind]
  cases hparent : t.parent? i with
  | none => exact ⟨none, rfl, targets_none⟩
  | some p =>
    by_cases hlonger : s.length < t.length i
    · exact ⟨some i, if_pos hlonger, targets_some hi⟩
    · refine ⟨_, if_neg hlonger, targets_some ?_⟩
      cases hlarger : t.largerAncestor? i with
      | none => exact h.parent_lt_size hi hparent
      | some a => exact h.lt_of_mem_ancestors hi (List.mem_of_find?_eq_some hlarger)

theorem exists_descendantForSelection (h : t.Linked) (hsize : 0 < t.size)
    (hs : t.inBounds s = true) :
    ∃ target, t.descendantForSelection s = .ok target ∧ t.Targets target := by
  obtain ⟨i, hcover, hi⟩ := exists_covering h hsize hs
  simp only [descendantForSelection, hcover, bind, Except.bind]
  exact ⟨_, rfl, smallerDescendant?_targets h hi⟩

theorem climbOnlyChildren_lt (h : t.Linked) (fuel : Nat) (hi : i < t.size) :
    t.climbOnlyChildren fuel i < t.size := by
  induction fuel generalizing i with
  | zero => exact hi
  | succ fuel ih =>
    rw [climbOnlyChildren]
    split
    · exact hi
    · next p hparent =>
      split
      · exact hi
      · exact ih (h.parent_lt_size hi hparent)

theorem cyclicSibling?_targets (h : t.Linked) (hi : i < t.size) (forward : Bool) :
    t.Targets (t.cyclicSibling? i forward) := by
  rw [cyclicSibling?]
  split
  · exact targets_none
  · next p hparent =>
    have hp : p < t.size := h.parent_lt_size hi hparent
    dsimp only
    split
    · exact targets_none
    · intro c hc
      exact ((h.mem_children_iff hp).mp (List.mem_of_getElem? hc)).1

theorem siblingNearOffset?_targets (h : t.Linked) (hsize : 0 < t.size) (offset : Nat)
    (forward : Bool) : t.Targets (t.siblingNearOffset? offset forward) := by
  rw [siblingNearOffset?]
  split
  · exact targets_none
  · next first hfirst =>
    have hlt : first < t.size := smallerDescendant?_targets h hsize first hfirst
    split
    · exact targets_some hlt
    · next p hparent =>
      have hp : p < t.size := h.parent_lt_size hlt hparent
      refine targets_some ?_
      -- A neighbour is a child of the parent, and without one the first node is taken.
      cases forward with
      | true =>
        cases hfound : (t.children p).find? fun c => decide (offset ≤ (t.span c).start) with
        | none => simpa [hfound] using hlt
        | some c =>
          have hchild := (h.mem_children_iff hp).mp (List.mem_of_find?_eq_some hfound)
          simpa [hfound] using hchild.1
      | false =>
        cases hfound : ((t.children p).filter fun c =>
            decide ((t.span c).start ≤ offset)).getLast? with
        | none => simpa [hfound] using hlt
        | some c =>
          have hmem := (List.mem_filter.mp (List.mem_of_getLast? hfound)).1
          simpa [hfound] using ((h.mem_children_iff hp).mp hmem).1

theorem exists_siblingForSelection (h : t.Linked) (hsize : 0 < t.size) (hs : t.inBounds s = true)
    (forward : Bool) :
    ∃ target, t.siblingForSelection s forward = .ok target ∧ t.Targets target := by
  obtain ⟨i, hcover, hi⟩ := exists_covering h hsize hs
  simp only [siblingForSelection, hcover, bind, Except.bind]
  by_cases hroot : i = Arena.root
  · exact ⟨_, if_pos hroot, siblingNearOffset?_targets h hsize s.start forward⟩
  · exact ⟨_, if_neg hroot, cyclicSibling?_targets h (climbOnlyChildren_lt h t.size hi) forward⟩

theorem pick_subset (which : Which) (start : Nat) (found : List Nat) :
    t.pick which start found ⊆ found := by
  intro c hc
  cases which with
  | all => exact hc
  | next =>
    simp only [pick, Option.mem_toList, Option.or_eq_some_iff] at hc
    rcases hc with hafter | ⟨-, hfirst⟩
    · exact List.mem_of_find?_eq_some hafter
    · exact List.mem_of_head? hfirst
  | previous =>
    simp only [pick, Option.mem_toList, Option.or_eq_some_iff] at hc
    rcases hc with hbefore | ⟨-, hlast⟩
    · exact List.mem_reverse.mp (List.mem_of_find?_eq_some hbefore)
    · exact List.mem_of_getLast? hlast

theorem cousinsMatching_lt (filter : CousinFilter) {c : Nat} (hc : c ∈ t.cousinsMatching i filter) :
    c < t.size := by
  rw [cousinsMatching] at hc
  split at hc
  · cases hc
  · exact List.mem_range.mp (List.mem_filter.mp (pick_subset _ _ _ hc)).1

/-! ### Landing places -/

/-- A span is one of those given, or that of a node. -/
def Lands (t : Tree) (given : List Span) (r : Span) : Prop :=
  r ∈ given ∨ ∃ i < t.size, t.span i = r

variable {given : List Span} {r : Span}

theorem Lands.mono {more : List Span} (h : t.Lands given r) (hsub : given ⊆ more) : t.Lands more r :=
  h.imp_left (@hsub r)

theorem Lands.inBounds (h : t.Lands given r) (hgiven : ∀ s ∈ given, t.inBounds s = true)
    (hspans : ∀ i < t.size, t.inBounds (t.span i) = true) : t.inBounds r = true := by
  rcases h with hold | ⟨i, hi, rfl⟩
  · exact hgiven r hold
  · exact hspans i hi

end Tree

namespace Command

open LiveSyntax.Tree

variable {t : Tree} {s : Span} {selection : List Span}

theorem lands_spanOr {target : Option Nat} (h : t.Targets target) :
    t.Lands [s] (spanOr t s target) := by
  cases target with
  | none => exact .inl (List.mem_singleton_self s)
  | some i => exact .inr ⟨i, h i rfl, rfl⟩

/-- A move that succeeds on every span in bounds, and lands at the span or at nodes. -/
def Moves (t : Tree) (move : Span → Except OutOfBounds (List Span)) : Prop :=
  ∀ s, t.inBounds s = true → ∃ out, move s = .ok out ∧ ∀ r ∈ out, t.Lands [s] r

/-- A move that looks something up and answers with spans is one, if what it finds leads to such spans. -/
theorem moves_bind {α : Type} {find : Span → Except OutOfBounds α} {P : α → Prop}
    {out : Span → α → List Span}
    (hfind : ∀ s, t.inBounds s = true → ∃ found, find s = .ok found ∧ P found)
    (hout : ∀ s found, P found → ∀ r ∈ out s found, t.Lands [s] r) :
    Moves t fun s => do
      let found ← find s
      return out s found := by
  intro s hs
  obtain ⟨found, hfound, hp⟩ := hfind s hs
  refine ⟨out s found, ?_, hout s found hp⟩
  simp only [hfound, bind, Except.bind, pure, Except.pure]

section

variable (h : t.Linked) (hsize : 0 < t.size)

include h hsize

theorem moves_growOne : Moves t (growOne t) := by
  refine moves_bind (fun s hs => exists_ancestorForSelection h hsize hs) fun s target htarget => ?_
  have hfiltered : t.Targets (target.filter (· != Arena.root)) :=
    fun i hi => htarget i (Option.mem_filter_iff.mp hi).1
  simpa using lands_spanOr hfiltered

theorem moves_shrinkOne : Moves t (shrinkOne t) := by
  refine moves_bind (fun s hs => exists_descendantForSelection h hsize hs) fun s target htarget => ?_
  simpa using lands_spanOr htarget

theorem moves_moveOne (forward : Bool) : Moves t (moveOne t forward) := by
  refine moves_bind (fun s hs => exists_siblingForSelection h hsize hs forward)
    fun s target htarget => ?_
  simpa using lands_spanOr htarget

theorem moves_siblingSpans (forward : Bool) : Moves t (siblingSpans t forward) := by
  refine moves_bind (fun s hs => exists_siblingForSelection h hsize hs forward)
    fun s target htarget r hr => ?_
  obtain ⟨i, hi, rfl⟩ := Option.map_eq_some_iff.mp (Option.mem_toList.mp hr)
  exact .inr ⟨i, htarget i hi, rfl⟩

theorem moves_cousinSpans (filter : CousinFilter) : Moves t (cousinSpans t filter) := by
  refine moves_bind (fun s hs => exists_covering h hsize hs) fun s i _ r hr => ?_
  obtain ⟨c, hc, rfl⟩ := List.mem_map.mp hr
  exact .inr ⟨c, cousinsMatching_lt filter hc, rfl⟩

theorem moves_spreadOne (filter : CousinFilter) : Moves t (spreadOne t filter) := by
  intro s hs
  obtain ⟨found, hfound, hlands⟩ := moves_cousinSpans h hsize filter s hs
  have hself : t.Lands [s] s := .inl (List.mem_singleton_self s)
  simp only [spreadOne, hfound, bind, Except.bind]
  by_cases hnone : found.isEmpty = true
  · exact ⟨[s], if_pos hnone, by simpa using hself⟩
  · by_cases hall : filter.which = .all
    · refine ⟨s :: found, by rw [if_neg hnone, if_pos hall]; rfl, ?_⟩
      exact List.forall_mem_cons.mpr ⟨hself, hlands⟩
    · exact ⟨found, by rw [if_neg hnone, if_neg hall]; rfl, hlands⟩

theorem exists_nodesForSelection (hsel : ∀ s ∈ selection, t.inBounds s = true) :
    ∃ nodes, t.nodesForSelection selection = .ok nodes ∧ ∀ i ∈ nodes, i < t.size := by
  have hall : ∀ previous, ∃ nodes, t.coveringEach previous selection = .ok nodes ∧
      ∀ i ∈ nodes, i < t.size := by
    induction selection with
    | nil => exact fun previous => ⟨[], rfl, by simp⟩
    | cons s rest ih =>
      obtain ⟨hs, hrest⟩ := List.forall_mem_cons.mp hsel
      intro previous
      by_cases hrepeat : previous = some s
      · rw [coveringEach, if_pos hrepeat]
        exact ih hrest previous
      · obtain ⟨i, hcover, hi⟩ := exists_covering h hsize hs
        obtain ⟨others, hothers, hlt⟩ := ih hrest (some s)
        rw [coveringEach, if_neg hrepeat, hcover, hothers]
        exact ⟨i :: others, rfl, List.forall_mem_cons.mpr ⟨hi, hlt⟩⟩
  exact hall none

end

theorem Moves.exists_each {move : Span → Except OutOfBounds (List Span)} (hmove : Moves t move)
    (hsel : ∀ s ∈ selection, t.inBounds s = true) :
    ∃ out, each move selection = .ok out ∧ ∀ r ∈ out, t.Lands selection r := by
  induction selection with
  | nil => exact ⟨[], rfl, by simp⟩
  | cons s rest ih =>
    obtain ⟨hs, hrest⟩ := List.forall_mem_cons.mp hsel
    obtain ⟨here, hhere, hlands⟩ := hmove s hs
    obtain ⟨others, hothers, hfar⟩ := ih hrest
    refine ⟨here ++ others, by simp [each, hhere, hothers], fun r hr => ?_⟩
    rcases List.mem_append.mp hr with hnear | hr
    · exact (hlands r hnear).mono (by simp)
    · exact (hfar r hr).mono (List.subset_cons_self s rest)

theorem mem_of_origin? {fromLast : Bool} (h : origin? selection fromLast = some s) :
    s ∈ selection := by
  cases fromLast with
  | true => exact List.mem_of_getLast? h
  | false => exact List.mem_of_head? h

theorem Moves.exists_extendFrom {move : Span → Except OutOfBounds (List Span)} (hmove : Moves t move)
    (hsel : ∀ s ∈ selection, t.inBounds s = true) (fromLast : Bool) :
    ∃ out, extendFrom move selection fromLast = .ok out ∧ ∀ r ∈ out, t.Lands selection r := by
  rw [extendFrom]
  cases horigin : origin? selection fromLast with
  | none => exact ⟨selection, rfl, fun r hr => .inl hr⟩
  | some s =>
    have hmem := mem_of_origin? horigin
    obtain ⟨added, hadded, hlands⟩ := hmove s (hsel s hmem)
    refine ⟨selection ++ added, by simp [hadded], fun r hr => ?_⟩
    rcases List.mem_append.mp hr with hold | hnew
    · exact .inl hold
    · exact (hlands r hnew).mono (by simpa using hmem)

/-- Dropping repeats changes nothing about where a selection lands. -/
theorem exists_map_eraseDups {outcome : Except OutOfBounds (List Span)} {P : Span → Prop}
    (h : ∃ out, outcome = .ok out ∧ ∀ r ∈ out, P r) :
    ∃ out, outcome.map List.eraseDups = .ok out ∧ ∀ r ∈ out, P r := by
  obtain ⟨out, rfl, hout⟩ := h
  exact ⟨out.eraseDups, rfl, fun r hr => hout r (List.mem_eraseDups.mp hr)⟩

/-- **A command on a selection in bounds succeeds**, and puts out spans of the selection and of nodes. -/
theorem exists_run (h : t.Linked) (hsize : 0 < t.size) (command : Command)
    (hsel : ∀ s ∈ selection, t.inBounds s = true) :
    ∃ out, command.run t selection = .ok out ∧ ∀ r ∈ out, t.Lands selection r := by
  cases command with
  | ancestor => exact exists_map_eraseDups ((moves_growOne h hsize).exists_each hsel)
  | descendant => exact exists_map_eraseDups ((moves_shrinkOne h hsize).exists_each hsel)
  | sibling forward extend =>
    cases extend with
    | true =>
      exact exists_map_eraseDups ((moves_siblingSpans h hsize forward).exists_extendFrom hsel forward)
    | false => exact exists_map_eraseDups ((moves_moveOne h hsize forward).exists_each hsel)
  | cousins filter extend =>
    cases extend with
    | true => exact exists_map_eraseDups ((moves_cousinSpans h hsize filter).exists_extendFrom hsel _)
    | false => exact exists_map_eraseDups ((moves_spreadOne h hsize filter).exists_each hsel)
  | node =>
    obtain ⟨nodes, hnodes, hlt⟩ := exists_nodesForSelection h hsize hsel
    refine ⟨nodes.map t.span, by simp [run, hnodes, Except.map], fun r hr => ?_⟩
    obtain ⟨i, hi, rfl⟩ := List.mem_map.mp hr
    exact .inr ⟨i, hlt i hi, rfl⟩

/-! ### Chains of commands -/

/-- Runs commands one after the other, each on what the one before put out. Returns all that was put
out on the way. -/
def runAll (t : Tree) : List Command → List Span → Except OutOfBounds (List (List Span))
  | [], _ => .ok []
  | command :: rest, selection =>
    match command.run t selection with
    | .error e => .error e
    | .ok out =>
      match runAll t rest out with
      | .error e => .error e
      | .ok later => .ok (out :: later)

theorem exists_runAll (h : t.Linked) (hsize : 0 < t.size)
    (hspans : ∀ i < t.size, t.inBounds (t.span i) = true) (commands : List Command)
    (hsel : ∀ s ∈ selection, t.inBounds s = true) :
    ∃ outputs, runAll t commands selection = .ok outputs ∧ outputs.length = commands.length ∧
      ∀ output ∈ outputs, ∀ r ∈ output, t.Lands selection r := by
  induction commands generalizing selection with
  | nil => exact ⟨[], rfl, rfl, by simp⟩
  | cons command rest ih =>
    obtain ⟨out, hrun, hlands⟩ := exists_run h hsize command hsel
    have hout : ∀ r ∈ out, t.inBounds r = true := fun r hr => (hlands r hr).inBounds hsel hspans
    obtain ⟨later, hlater, hlength, hfar⟩ := ih hout
    refine ⟨out :: later, by simp [runAll, hrun, hlater], by simp [hlength], ?_⟩
    refine List.forall_mem_cons.mpr ⟨hlands, fun output houtput r hr => ?_⟩
    -- What a later command finds in its input has landed before.
    rcases hfar output houtput r hr with hseen | hnode
    · exact hlands r hseen
    · exact .inr hnode

/-- **Selections stay valid under any chain of commands.** Take any tree that some events build and whose
spans are nested, and any selection of ordered spans inside the source. Commands of all kinds can be run
on it one after the other, any number of them, and none fails. Every span of every selection on the way
is ordered and inside the source, and is one of the first selection or that of a node. -/
theorem chain_stays_valid {grammar : String} {source : Text} {events : List Event} {t : Tree}
    (hbuild : Tree.build grammar source events = .ok t) (hnested : t.Nested)
    (commands : List Command) (selection : List Span)
    (hsel : ∀ s ∈ selection, s.start ≤ s.stop ∧ s.stop ≤ t.sourceLength) :
    ∃ outputs, runAll t commands selection = .ok outputs ∧ outputs.length = commands.length ∧
      ∀ output ∈ outputs, ∀ r ∈ output,
        (r.start ≤ r.stop ∧ r.stop ≤ t.sourceLength) ∧
        (r ∈ selection ∨ ∃ i < t.size, t.span i = r) := by
  have hlinked := Tree.linked_of_build hbuild
  obtain ⟨-, hsource, hroot⟩ := Tree.build_spec hbuild
  rw [← hsource] at hroot
  have hspans : ∀ i < t.size, t.inBounds (t.span i) = true :=
    fun i hi => hnested.inBounds_span hlinked hroot hi
  have hvalid : ∀ s ∈ selection, t.inBounds s = true := fun s hs => inBounds_iff.mpr (hsel s hs)
  obtain ⟨outputs, hrun, hlength, hlands⟩ :=
    exists_runAll hlinked (Tree.size_pos_of_build hbuild) hspans commands hvalid
  refine ⟨outputs, hrun, hlength, fun output houtput r hr => ?_⟩
  have hlanded := hlands output houtput r hr
  exact ⟨inBounds_iff.mp (hlanded.inBounds hvalid hspans), hlanded⟩

/-- Two assignments, with the number of the first one and a caret before the second one selected. Six
commands lead up, sideways, across the tree and down again. -/
theorem chain_stays_valid_two_statements :
    let spec (kind : String) (start stop : Nat) : NodeSpec :=
      ⟨kind, ⟨start, stop⟩, true, false, none, none⟩
    let statement (start : Nat) : List Event :=
      [.enter (spec "statement" start (start + 4)), .enter (spec "assignment" start (start + 3)),
        .leaf (spec "name" start (start + 1)), .leaf (spec "number" (start + 2) (start + 3)), .leave,
        .leave]
    let events := .enter (spec "program" 0 0) :: (statement 0 ++ statement 4 ++ [.leave])
    let source := ['x', '=', '1', ';', 'y', '=', '2', ';']
    let selection : List Span := [⟨2, 3⟩, .caret 4]
    let commands : List Command :=
      [.ancestor, .sibling true true, .cousins ⟨true, false, true, none, .all⟩ false, .descendant,
        .sibling false false, .node]
    ∃ t, Tree.build "g" source events = .ok t ∧ t.Nested ∧
      (∀ s ∈ selection, s.start ≤ s.stop ∧ s.stop ≤ t.sourceLength) ∧
      ∃ outputs, runAll t commands selection = .ok outputs ∧ outputs.length = 6 ∧
        ∀ output ∈ outputs, ∀ r ∈ output, r.start ≤ r.stop ∧ r.stop ≤ 8 := by
  intro spec statement events source selection commands
  have hread : (Tree.build "g" source events).toOption.any
      (fun t => decide (t.Nested ∧ t.sourceLength = 8)) = true := by
    decide +kernel
  cases hbuild : Tree.build "g" source events with
  | error e =>
    rw [hbuild] at hread
    cases hread
  | ok t =>
    rw [hbuild] at hread
    obtain ⟨hnested, hlength⟩ := of_decide_eq_true hread
    have hsel : ∀ s ∈ selection, s.start ≤ s.stop ∧ s.stop ≤ t.sourceLength := by
      simp [selection, hlength, Span.caret]
    obtain ⟨outputs, hrun, hcount, hvalid⟩ := chain_stays_valid hbuild hnested commands selection hsel
    refine ⟨t, rfl, hnested, hsel, outputs, hrun, hcount, fun output houtput r hr => ?_⟩
    rw [← hlength]
    exact (hvalid output houtput r hr).1

end Command

end LiveSyntax
