import LiveSyntax.Proofs.CoveringNodes
import Mathlib.Data.List.Induction
import Mathlib.Data.List.Perm.Subperm

/-!
# Selections of several spans

A command meets a selection of several spans in one of two ways. Most commands take each span on its own,
put out what they find in order, and drop what was put out before. An extending command looks at one span
only, at an end of the selection, keeps all of them and adds what it finds. Both refuse a span that is
inverted or reaches past the source, and only one that they look at.

None of this needs nested spans: a tree that any events build has it.

## Main definitions

- `Command.extending`: the commands of the second kind.
- `Command.Answers`: a look-up that refuses spans out of bounds and answers any other one.
- `Command.ExtendsBy`: an extending command, by the look-up whose nodes it adds.
- `Command.OnlyAdds`: what such a command does to a selection, once and again and again.

## Main results

- `Command.run_append_splits`: a command of the first kind on two lists of spans, from its outcomes on each.
- `Command.extending_only_adds`: an extending command keeps what is selected and adds to it.
-/

namespace LiveSyntax

/-! ### First occurrences -/

theorem eraseDups_concat (spans : List Span) (s : Span) :
    (spans ++ [s]).eraseDups = if s ∈ spans then spans.eraseDups else spans.eraseDups ++ [s] := by
  rw [List.eraseDups_append, List.removeAll]
  by_cases hs : s ∈ spans
  · simp [hs]
  · simp [hs, List.eraseDups_cons]

theorem nodup_eraseDups (spans : List Span) : spans.eraseDups.Nodup := by
  induction spans using List.reverseRecOn with
  | nil => simp
  | append_singleton spans s ih =>
    rw [eraseDups_concat]
    split
    · exact ih
    · next hs =>
      have hapart : ∀ r ∈ spans, r ≠ s := fun r hr => ne_of_mem_of_not_mem hr hs
      exact List.nodup_append.mpr ⟨ih, by simp, by simpa using hapart⟩

theorem eraseDups_of_nodup {spans : List Span} (h : spans.Nodup) : spans.eraseDups = spans := by
  induction spans using List.reverseRecOn with
  | nil => rfl
  | append_singleton spans s ih =>
    obtain ⟨hspans, -, hapart⟩ := List.nodup_append.mp h
    have hs : s ∉ spans := fun hmem => hapart s hmem s (by simp) rfl
    rw [eraseDups_concat, if_neg hs, ih hspans]

/-- Repeats may be dropped from the parts of a list first. -/
theorem eraseDups_append_eraseDups (xs ys : List Span) :
    (xs.eraseDups ++ ys.eraseDups).eraseDups = (xs ++ ys).eraseDups := by
  -- Along the end of the list, where a span is kept or dropped by what comes before it.
  induction ys using List.reverseRecOn with
  | nil => simp [eraseDups_of_nodup (nodup_eraseDups xs)]
  | append_singleton ys s ih =>
    rw [← List.append_assoc, eraseDups_concat, eraseDups_concat, ← ih]
    by_cases hs : s ∈ ys
    · simp [hs]
    · rw [if_neg hs, ← List.append_assoc, eraseDups_concat]
      simp only [List.mem_append, List.mem_eraseDups]

namespace Command

open LiveSyntax.Tree

variable {α β : Type} {t : Tree} {s : Span} {e : OutOfBounds} {selection : List Span}
  {find : Span → Except OutOfBounds α} {P : Span → α → Prop}
  {move : Span → Except OutOfBounds (List Span)}

/-! ### Look-ups that refuse spans out of bounds -/

theorem map_eq_ok_iff {outcome : Except OutOfBounds α} {f : α → β} {b : β} :
    outcome.map f = .ok b ↔ ∃ a, outcome = .ok a ∧ b = f a := by
  cases outcome <;> simp [Except.map, eq_comm]

theorem map_eq_error_iff {outcome : Except OutOfBounds α} {f : α → β} :
    outcome.map f = .error e ↔ outcome = .error e := by
  cases outcome <;> simp [Except.map]

/-- A look-up that refuses a span out of bounds, by name, and answers any other one as promised. -/
structure Answers (t : Tree) (find : Span → Except OutOfBounds α) (P : Span → α → Prop) : Prop where
  refuses : ∀ s, t.inBounds s = false → find s = .error ⟨s, t.sourceLength⟩
  finds : ∀ s, t.inBounds s = true → ∃ found, find s = .ok found ∧ P s found

theorem inBounds_eq_false_iff :
    t.inBounds s = false ↔ s.stop < s.start ∨ t.sourceLength < s.stop := by
  rw [← Bool.not_eq_true, inBounds_iff]
  omega

theorem covering_eq_error (hs : t.inBounds s = false) : t.covering s = .error ⟨s, t.sourceLength⟩ := by
  rw [covering, hs]
  rfl

theorem Answers.eq_error_iff (h : Answers t find P) :
    find s = .error e ↔ t.inBounds s = false ∧ e = ⟨s, t.sourceLength⟩ := by
  cases hs : t.inBounds s with
  | false => simp [h.refuses s hs, eq_comm]
  | true =>
    obtain ⟨found, hfound, -⟩ := h.finds s hs
    simp [hfound]

theorem Answers.of_ok {found : α} (h : Answers t find P) (hfound : find s = .ok found) : P s found := by
  cases hs : t.inBounds s with
  | false => simp [h.refuses s hs] at hfound
  | true =>
    obtain ⟨other, hother, hp⟩ := h.finds s hs
    obtain rfl : other = found := by simpa [hother] using hfound
    exact hp

theorem Answers.map {Q : Span → β → Prop} {f : Span → α → β} (h : Answers t find P)
    (hf : ∀ s found, P s found → Q s (f s found)) :
    Answers t (fun s => (find s).map (f s)) Q where
  refuses s hs := by simp [h.refuses s hs, Except.map]
  finds s hs := by
    obtain ⟨found, hfound, hp⟩ := h.finds s hs
    exact ⟨f s found, by simp [hfound, Except.map], hf s found hp⟩

section

variable (h : t.Linked) (hsize : 0 < t.size)

include h hsize

theorem answers_covering : Answers t t.covering fun _ i => i < t.size :=
  ⟨fun _ hs => covering_eq_error hs, fun _ hs => exists_covering h hsize hs⟩

theorem answers_ancestor : Answers t t.ancestorForSelection fun _ target => t.Targets target where
  refuses s hs := by simp [ancestorForSelection, covering_eq_error hs, bind, Except.bind]
  finds _ hs := exists_ancestorForSelection h hsize hs

theorem answers_descendant : Answers t t.descendantForSelection fun _ target => t.Targets target where
  refuses s hs := by simp [descendantForSelection, covering_eq_error hs, bind, Except.bind]
  finds _ hs := exists_descendantForSelection h hsize hs

theorem answers_sibling (forward : Bool) :
    Answers t (t.siblingForSelection · forward) fun _ target => t.Targets target where
  refuses s hs := by simp [siblingForSelection, covering_eq_error hs, bind, Except.bind]
  finds _ hs := exists_siblingForSelection h hsize hs forward

end

/-! ### Commands that take each span on its own -/

/-- Whether a command keeps the selection and adds to it. -/
def extending : Command → Bool
  | .sibling _ extend => extend
  | .cousins _ extend => extend
  | _ => false

/-- What a move gives for one span: something, each at the span or at a node. -/
def Lasting (t : Tree) (s : Span) (out : List Span) : Prop :=
  out ≠ [] ∧ ∀ r ∈ out, t.Lands [s] r

/-- Cousins are spread in one of three ways, which depend on the cousins alone. -/
theorem spreadOne_eq (filter : CousinFilter) :
    spreadOne t filter = fun s => (cousinSpans t filter s).map fun found =>
      if found.isEmpty then [s] else if filter.which = .all then s :: found else found := by
  funext s
  rw [spreadOne]
  cases cousinSpans t filter s with
  | error e => rfl
  | ok found =>
    simp only [bind, Except.bind, pure, Except.pure, Except.map]
    split
    · rfl
    · split <;> rfl

theorem lasting_spanOr {target : Option Nat} (h : t.Targets target) : Lasting t s [spanOr t s target] :=
  ⟨by simp, by simpa using lands_spanOr h⟩

section

variable (h : t.Linked) (hsize : 0 < t.size)

include h hsize

theorem answers_growOne : Answers t (growOne t) (Lasting t) :=
  (answers_ancestor h hsize).map fun _ _ htarget =>
    lasting_spanOr fun i hi => htarget i (Option.mem_filter_iff.mp hi).1

theorem answers_shrinkOne : Answers t (shrinkOne t) (Lasting t) :=
  (answers_descendant h hsize).map fun _ _ => lasting_spanOr

theorem answers_moveOne (forward : Bool) : Answers t (moveOne t forward) (Lasting t) :=
  (answers_sibling h hsize forward).map fun _ _ => lasting_spanOr

theorem answers_cousinSpans (filter : CousinFilter) :
    Answers t (cousinSpans t filter) fun s found => ∀ r ∈ found, t.Lands [s] r where
  refuses s hs := by simp [cousinSpans, covering_eq_error hs, bind, Except.bind]
  finds := moves_cousinSpans h hsize filter

theorem answers_spreadOne (filter : CousinFilter) : Answers t (spreadOne t filter) (Lasting t) := by
  rw [spreadOne_eq]
  refine (answers_cousinSpans h hsize filter).map fun s found hlands => ?_
  have hself : t.Lands [s] s := .inl (List.mem_singleton_self s)
  split
  · exact ⟨by simp, by simpa using hself⟩
  · next hsome =>
    split
    · exact ⟨by simp, List.forall_mem_cons.mpr ⟨hself, hlands⟩⟩
    · exact ⟨by simpa using hsome, hlands⟩

/-- A command that does not extend runs a move on each span and drops repeats. -/
theorem exists_run_eq_each {command : Command} (hextend : command.extending = false)
    (hnode : command ≠ .node) :
    ∃ move, Answers t move (Lasting t) ∧
      ∀ selection, command.run t selection = (each move selection).map List.eraseDups := by
  cases command with
  | ancestor => exact ⟨_, answers_growOne h hsize, fun _ => rfl⟩
  | descendant => exact ⟨_, answers_shrinkOne h hsize, fun _ => rfl⟩
  | sibling forward extend =>
    obtain rfl : extend = false := hextend
    exact ⟨_, answers_moveOne h hsize forward, fun _ => rfl⟩
  | cousins filter extend =>
    obtain rfl : extend = false := hextend
    exact ⟨_, answers_spreadOne h hsize filter, fun _ => rfl⟩
  | node => exact absurd rfl hnode

end

theorem each_append (xs ys : List Span) :
    each move (xs ++ ys) = do return (← each move xs) ++ (← each move ys) := by
  induction xs with
  | nil => cases hys : each move ys <;> simp [each, hys, bind, Except.bind, pure, Except.pure]
  | cons s rest ih =>
    simp only [List.cons_append, each, ih]
    cases move s with
    | error e => rfl
    | ok here =>
      cases each move rest with
      | error e => rfl
      | ok others =>
        cases each move ys with
        | error e => rfl
        | ok last => simp [bind, Except.bind, pure, Except.pure]

theorem each_append_eq_ok_iff {xs ys out : List Span} :
    each move (xs ++ ys) = .ok out ↔
      ∃ left right, each move xs = .ok left ∧ each move ys = .ok right ∧ out = left ++ right := by
  rw [each_append]
  cases each move xs <;> cases each move ys <;> simp [bind, Except.bind, pure, Except.pure, eq_comm]

theorem each_singleton (s : Span) : each move [s] = move s := by
  cases hmove : move s <;> simp [each, hmove]

/-- The first span out of bounds ends the run, and is named. -/
theorem Answers.each_eq_error_iff {P : Span → List Span → Prop} (h : Answers t move P) :
    each move selection = .error e ↔
      selection.find? (fun s => !t.inBounds s) = some e.span ∧ e.sourceLength = t.sourceLength := by
  induction selection with
  | nil => simp [each]
  | cons s rest ih =>
    cases hs : t.inBounds s with
    | false =>
      obtain ⟨span, sourceLength⟩ := e
      simp [each, h.refuses s hs, hs, eq_comm]
    | true =>
      obtain ⟨here, hhere, -⟩ := h.finds s hs
      rw [List.find?_cons_of_neg (by simp [hs]), ← ih]
      cases hrest : each move rest <;> simp [each, hhere, hrest]

/-- **Commands act on each span on its own.** A command that neither extends nor selects nodes can be run
on two lists of spans in one go exactly if it can be run on each. It then puts out what it puts out for
the first list and what it puts out for the second, each span at its first occurrence only. Otherwise the
first span out of bounds in the two lists is refused by name. A single span in bounds is answered: by
itself, by spans of nodes, but never by nothing. -/
theorem run_append_splits {grammar : String} {source : Text} {events : List Event} {t : Tree}
    (hbuild : Tree.build grammar source events = .ok t) (command : Command)
    (hextend : command.extending = false) (hnode : command ≠ .node) (xs ys : List Span) :
    (∀ out, command.run t (xs ++ ys) = .ok out ↔
      ∃ left right, command.run t xs = .ok left ∧ command.run t ys = .ok right ∧
        out = (left ++ right).eraseDups) ∧
    (∀ e, command.run t (xs ++ ys) = .error e ↔
      (xs ++ ys).find? (fun s => s.stop < s.start ∨ t.sourceLength < s.stop) = some e.span ∧
        e.sourceLength = t.sourceLength) ∧
    ∀ s : Span, s.start ≤ s.stop → s.stop ≤ t.sourceLength →
      ∃ out, command.run t [s] = .ok out ∧ out ≠ [] ∧ ∀ r ∈ out, r = s ∨ ∃ i < t.size, t.span i = r := by
  obtain ⟨move, hmove, hrun⟩ :=
    exists_run_eq_each (Tree.linked_of_build hbuild) (Tree.size_pos_of_build hbuild) hextend hnode
  refine ⟨fun out => ?_, fun e => ?_, fun s hordered hinside => ?_⟩
  · simp only [hrun, map_eq_ok_iff, each_append_eq_ok_iff]
    constructor
    · rintro ⟨-, ⟨left, right, hleft, hright, rfl⟩, rfl⟩
      exact ⟨_, _, ⟨left, hleft, rfl⟩, ⟨right, hright, rfl⟩, (eraseDups_append_eraseDups left right).symm⟩
    · rintro ⟨-, -, ⟨left, hleft, rfl⟩, ⟨right, hright, rfl⟩, rfl⟩
      exact ⟨_, ⟨left, right, hleft, hright, rfl⟩, eraseDups_append_eraseDups left right⟩
  · have hout : (fun s : Span => decide (s.stop < s.start ∨ t.sourceLength < s.stop)) =
        fun s => !t.inBounds s := by
      funext s
      rw [Bool.eq_iff_iff, decide_eq_true_eq, Bool.not_eq_true', inBounds_eq_false_iff]
    rw [hrun, map_eq_error_iff, hmove.each_eq_error_iff, hout]
  · obtain ⟨out, hout, hne, hlands⟩ := hmove.finds s (inBounds_iff.mpr ⟨hordered, hinside⟩)
    refine ⟨out.eraseDups, by rw [hrun, each_singleton, hout]; rfl, ?_, fun r hr => ?_⟩
    · obtain ⟨r, hr⟩ := List.exists_mem_of_ne_nil out hne
      exact List.ne_nil_of_mem (List.mem_eraseDups.mpr hr)
    · simpa [Lands] using hlands r (List.mem_eraseDups.mp hr)

/-- Two names and a number. The cousins of the names meet in the two lists, and the number is its own only
cousin. Of two spans out of bounds the first one is named. -/
theorem run_append_splits_shared_cousins :
    let spec (kind : String) (start stop : Nat) : NodeSpec :=
      ⟨kind, ⟨start, stop⟩, true, false, none, none⟩
    let events : List Event :=
      [.enter (spec "list" 0 6), .leaf (spec "name" 0 2), .leaf (spec "name" 2 4),
        .leaf (spec "number" 4 6), .leave]
    let command : Command := .cousins ⟨true, false, true, none, .all⟩ false
    ∃ t, Tree.build "g" ['a', 'b', 'c', 'd', 'e', 'f'] events = .ok t ∧
      command.extending = false ∧ command ≠ .node ∧
      command.run t [⟨0, 1⟩] = .ok [⟨0, 1⟩, ⟨0, 2⟩, ⟨2, 4⟩] ∧
      command.run t [⟨2, 4⟩, ⟨4, 6⟩] = .ok [⟨2, 4⟩, ⟨0, 2⟩, ⟨4, 6⟩] ∧
      command.run t [⟨0, 1⟩, ⟨2, 4⟩, ⟨4, 6⟩] = .ok [⟨0, 1⟩, ⟨0, 2⟩, ⟨2, 4⟩, ⟨4, 6⟩] ∧
      command.run t [⟨0, 1⟩, ⟨5, 3⟩, ⟨0, 9⟩] = .error ⟨⟨5, 3⟩, 6⟩ := by
  intro spec events command
  obtain ⟨t, hbuild, hlength, hleft, hright⟩ :
      ∃ t, Tree.build "g" ['a', 'b', 'c', 'd', 'e', 'f'] events = .ok t ∧ t.sourceLength = 6 ∧
        command.run t [⟨0, 1⟩] = .ok [⟨0, 1⟩, ⟨0, 2⟩, ⟨2, 4⟩] ∧
        command.run t [⟨2, 4⟩, ⟨4, 6⟩] = .ok [⟨2, 4⟩, ⟨0, 2⟩, ⟨4, 6⟩] :=
    exists_build_of_any (by decide +kernel)
  have hnode : command ≠ .node := by decide
  refine ⟨t, hbuild, rfl, hnode, hleft, hright, ?_, ?_⟩
  · have hjoined := (run_append_splits hbuild command rfl hnode [⟨0, 1⟩] [⟨2, 4⟩, ⟨4, 6⟩]).1
    exact (hjoined _).mpr ⟨_, _, hleft, hright, by decide⟩
  · have hrefused := (run_append_splits hbuild command rfl hnode [⟨0, 1⟩] [⟨5, 3⟩, ⟨0, 9⟩]).2.1
    refine (hrefused _).mpr ⟨?_, hlength.symm⟩
    rw [hlength]
    decide

/-! ### Commands that extend the selection -/

theorem origin?_eq_none_iff (fromLast : Bool) : origin? selection fromLast = none ↔ selection = [] := by
  cases fromLast <;> simp [origin?]

theorem extendFrom_eq_ok_iff {fromLast : Bool} {out : List Span} :
    extendFrom move selection fromLast = .ok out ↔
      selection = [] ∧ out = [] ∨
      ∃ s added, origin? selection fromLast = some s ∧ move s = .ok added ∧ out = selection ++ added := by
  rw [extendFrom, ← origin?_eq_none_iff fromLast]
  cases horigin : origin? selection fromLast with
  | none =>
    obtain rfl := (origin?_eq_none_iff fromLast).mp horigin
    simp [eq_comm]
  | some s => cases hmove : move s <;> simp [hmove, eq_comm]

theorem extendFrom_eq_error_iff {fromLast : Bool} :
    extendFrom move selection fromLast = .error e ↔
      ∃ s, origin? selection fromLast = some s ∧ move s = .error e := by
  rw [extendFrom]
  cases origin? selection fromLast with
  | none => simp
  | some s => cases hmove : move s <;> simp [hmove]

/-- What is selected comes first, and what is added follows where it is not selected yet. -/
theorem eraseDups_append_added (added : List Span) :
    (selection ++ added).eraseDups =
      selection.eraseDups ++ (added.filter (· ∉ selection)).eraseDups := by
  have hfilter : added.removeAll selection = added.filter (· ∉ selection) :=
    List.filter_congr fun r _ => by simp
  rw [List.eraseDups_append, hfilter]

/-- What an extending command does: `find` gives the nodes to add for the last span, or for the first one. -/
structure OnlyAdds (t : Tree) (command : Command) (fromLast : Bool)
    (find : Span → Except OutOfBounds (List Nat)) : Prop where
  /-- It fails exactly if there is a span to look at and that span is out of bounds. -/
  fails : ∀ selection e, command.run t selection = .error e ↔
    (if fromLast then selection.getLast? else selection.head?) = some e.span ∧
      (e.span.stop < e.span.start ∨ t.sourceLength < e.span.stop) ∧ e.sourceLength = t.sourceLength
  /-- Otherwise it keeps each span of the selection and adds the new spans of the nodes, in pre-order. -/
  adds : ∀ selection out, command.run t selection = .ok out ↔
    selection = [] ∧ out = [] ∨
    ∃ s nodes, (if fromLast then selection.getLast? else selection.head?) = some s ∧
      find s = .ok nodes ∧ nodes.Pairwise (· < ·) ∧
      out = selection.eraseDups ++ ((nodes.map t.span).filter (· ∉ selection)).eraseDups
  /-- Run again and again it only enlarges the selection, as far as there are spans. -/
  grows : ∀ n selection outputs, runAll t (List.replicate n command) selection = .ok outputs →
    (selection.eraseDups :: outputs).IsChain (· <+: ·) ∧
    ∀ out ∈ outputs,
      out.length ≤ (t.indices.map t.span).eraseDups.length + selection.eraseDups.length

theorem runAll_cons_eq_ok {command : Command} {rest : List Command} {outputs : List (List Span)}
    (h : runAll t (command :: rest) selection = .ok outputs) :
    ∃ out later, outputs = out :: later ∧ command.run t selection = .ok out ∧
      runAll t rest out = .ok later := by
  rw [runAll] at h
  split at h
  · cases h
  · next out hout =>
    split at h
    · cases h
    · next later hlater =>
      cases h
      exact ⟨out, later, rfl, hout, hlater⟩

/-- There are no more spans than the nodes and the selection have. -/
theorem length_le_of_lands {out : List Span} (hnodup : out.Nodup) (hlands : ∀ r ∈ out, t.Lands selection r) :
    out.length ≤ (t.indices.map t.span).eraseDups.length + selection.eraseDups.length := by
  have hsub : out ⊆ (t.indices.map t.span).eraseDups ++ selection.eraseDups := by
    intro r hr
    simp only [List.mem_append, List.mem_eraseDups, List.mem_map]
    rcases hlands r hr with hselected | ⟨i, hi, hspan⟩
    · exact .inr hselected
    · exact .inl ⟨i, List.mem_range.mpr hi, hspan⟩
  rw [← List.length_append]
  exact (hnodup.subperm hsub).length_le

/-- A command that extends the selection by the spans of nodes, which a look-up finds in pre-order. -/
structure ExtendsBy (t : Tree) (command : Command) (fromLast : Bool)
    (find : Span → Except OutOfBounds (List Nat)) : Prop where
  answers : Answers t find fun _ nodes => nodes.Pairwise (· < ·) ∧ ∀ i ∈ nodes, i < t.size
  run_eq : ∀ selection, command.run t selection =
    (extendFrom (fun s => (find s).map fun nodes => nodes.map t.span) selection fromLast).map List.eraseDups

namespace ExtendsBy

variable {command : Command} {fromLast : Bool} {find : Span → Except OutOfBounds (List Nat)}
  (h : ExtendsBy t command fromLast find)

include h

theorem run_eq_error_iff :
    command.run t selection = .error e ↔
      origin? selection fromLast = some e.span ∧
        (e.span.stop < e.span.start ∨ t.sourceLength < e.span.stop) ∧ e.sourceLength = t.sourceLength := by
  rw [h.run_eq, map_eq_error_iff, extendFrom_eq_error_iff]
  simp only [map_eq_error_iff, h.answers.eq_error_iff, inBounds_eq_false_iff]
  constructor
  · rintro ⟨s, horigin, hout, rfl⟩
    exact ⟨horigin, hout, rfl⟩
  · rintro ⟨horigin, hout, hlength⟩
    exact ⟨e.span, horigin, hout, by rw [← hlength]⟩

theorem run_eq_ok_iff {out : List Span} :
    command.run t selection = .ok out ↔
      selection = [] ∧ out = [] ∨
      ∃ s nodes, origin? selection fromLast = some s ∧ find s = .ok nodes ∧ nodes.Pairwise (· < ·) ∧
        out = selection.eraseDups ++ ((nodes.map t.span).filter (· ∉ selection)).eraseDups := by
  simp only [h.run_eq, map_eq_ok_iff, extendFrom_eq_ok_iff]
  constructor
  · rintro ⟨-, ⟨rfl, rfl⟩ | ⟨s, -, horigin, ⟨nodes, hnodes, rfl⟩, rfl⟩, rfl⟩
    · exact .inl ⟨rfl, rfl⟩
    · exact .inr ⟨s, nodes, horigin, hnodes, (h.answers.of_ok hnodes).1, eraseDups_append_added _⟩
  · rintro (⟨rfl, rfl⟩ | ⟨s, nodes, horigin, hnodes, -, rfl⟩)
    · exact ⟨[], .inl ⟨rfl, rfl⟩, rfl⟩
    · exact ⟨_, .inr ⟨s, _, horigin, ⟨nodes, hnodes, rfl⟩, rfl⟩, (eraseDups_append_added _).symm⟩

theorem nodup_run {out : List Span} (hrun : command.run t selection = .ok out) : out.Nodup := by
  rw [h.run_eq, map_eq_ok_iff] at hrun
  obtain ⟨spans, -, rfl⟩ := hrun
  exact nodup_eraseDups spans

/-- One run keeps the selection as the beginning of its output, and lands at nodes with the rest. -/
theorem keeps {out : List Span} (hrun : command.run t selection = .ok out) :
    selection.eraseDups <+: out ∧ ∀ r ∈ out, t.Lands selection r := by
  rcases h.run_eq_ok_iff.mp hrun with ⟨rfl, rfl⟩ | ⟨s, nodes, -, hnodes, -, rfl⟩
  · exact ⟨List.prefix_rfl, by simp⟩
  · refine ⟨List.prefix_append _ _, fun r hr => ?_⟩
    simp only [List.mem_append, List.mem_eraseDups, List.mem_filter, List.mem_map] at hr
    rcases hr with hold | ⟨⟨i, hi, hspan⟩, -⟩
    · exact .inl hold
    · exact .inr ⟨i, (h.answers.of_ok hnodes).2 i hi, hspan⟩

/-- So do any number of runs. -/
theorem keeps_all (n : Nat) {outputs : List (List Span)}
    (hall : runAll t (List.replicate n command) selection = .ok outputs) :
    (selection.eraseDups :: outputs).IsChain (· <+: ·) ∧
      ∀ out ∈ outputs, out.Nodup ∧ ∀ r ∈ out, t.Lands selection r := by
  induction n generalizing selection outputs with
  | zero =>
    cases hall
    exact ⟨.singleton _, by simp⟩
  | succ n ih =>
    obtain ⟨out, later, rfl, hrun, hlater⟩ := runAll_cons_eq_ok hall
    obtain ⟨hkept, hlands⟩ := h.keeps hrun
    have hnodup := h.nodup_run hrun
    obtain ⟨hchain, hfar⟩ := ih hlater
    rw [eraseDups_of_nodup hnodup] at hchain
    refine ⟨hchain.cons_cons hkept, List.forall_mem_cons.mpr ⟨⟨hnodup, hlands⟩, ?_⟩⟩
    intro other hother
    obtain ⟨hother, hlater⟩ := hfar other hother
    refine ⟨hother, fun r hr => ?_⟩
    -- What a later run finds selected was selected at first, or has been added from a node.
    rcases hlater r hr with hseen | hnode
    · exact hlands r hseen
    · exact .inr hnode

theorem onlyAdds : OnlyAdds t command fromLast find where
  fails _ _ := h.run_eq_error_iff
  adds _ _ := h.run_eq_ok_iff
  grows n selection outputs hall := by
    obtain ⟨hchain, hfar⟩ := h.keeps_all n hall
    exact ⟨hchain, fun out hout => length_le_of_lands (hfar out hout).1 (hfar out hout).2⟩

end ExtendsBy

theorem pairwise_cousinsMatching (i : Nat) (filter : CousinFilter) :
    (t.cousinsMatching i filter).Pairwise (· < ·) := by
  rw [cousinsMatching]
  split
  · exact .nil
  · cases filter.which with
    | all => exact List.pairwise_lt_range.filter _
    | next | previous => exact Option.pairwise_toList

theorem extendsBy_sibling (h : t.Linked) (hsize : 0 < t.size) (forward : Bool) :
    ExtendsBy t (.sibling forward true) forward fun s =>
      (t.siblingForSelection s forward).map Option.toList where
  answers := (answers_sibling h hsize forward).map fun _ _ htarget =>
    ⟨Option.pairwise_toList, fun i hi => htarget i (Option.mem_toList.mp hi)⟩
  run_eq selection := by
    have hspans : siblingSpans t forward = fun s =>
        ((t.siblingForSelection s forward).map Option.toList).map fun nodes => nodes.map t.span := by
      funext s
      rw [siblingSpans]
      cases t.siblingForSelection s forward with
      | error e => rfl
      | ok target => cases target <;> rfl
    rw [run, hspans]

theorem extendsBy_cousins (h : t.Linked) (hsize : 0 < t.size) (filter : CousinFilter) :
    ExtendsBy t (.cousins filter true) (filter.which = .next) fun s =>
      (t.covering s).map fun i => t.cousinsMatching i filter where
  answers := (answers_covering h hsize).map fun _ i _ =>
    ⟨pairwise_cousinsMatching i filter, fun _ hc => cousinsMatching_lt filter hc⟩
  run_eq selection := by
    have hspans : cousinSpans t filter = fun s =>
        ((t.covering s).map fun i => t.cousinsMatching i filter).map fun nodes => nodes.map t.span := by
      funext s
      rw [cousinSpans]
      cases t.covering s <;> rfl
    rw [run, hspans]

/-- **Extending commands only add.** Extending to siblings looks at the last span when it goes forward and at
the first one otherwise. Extending to cousins looks at the last span for the next cousin and at the first
one otherwise. The command fails exactly if that span is out of bounds. Else it puts out the selection,
each span at its first occurrence, and then the spans that the sibling or the cousins of the one span add
to it. Repeated, it goes on from what it put out and never takes back, up to as many spans as the nodes and
the selection have. -/
theorem extending_only_adds {grammar : String} {source : Text} {events : List Event} {t : Tree}
    (hbuild : Tree.build grammar source events = .ok t) :
    (∀ forward, OnlyAdds t (.sibling forward true) forward fun s =>
      (t.siblingForSelection s forward).map Option.toList) ∧
    ∀ filter : CousinFilter, OnlyAdds t (.cousins filter true) (filter.which = .next) fun s =>
      (t.covering s).map fun i => t.cousinsMatching i filter := by
  have hlinked := Tree.linked_of_build hbuild
  have hsize := Tree.size_pos_of_build hbuild
  exact ⟨fun forward => (extendsBy_sibling hlinked hsize forward).onlyAdds,
    fun filter => (extendsBy_cousins hlinked hsize filter).onlyAdds⟩

/-- Three siblings, of which the first and the last one are selected. Going forward, the middle one is added
for the span selected last. The last two have a child each, and going back from the one child adds the other.
A span out of bounds does no harm where it is not looked at. -/
theorem extending_only_adds_last_of_three :
    let spec (start stop : Nat) : NodeSpec := ⟨"node", ⟨start, stop⟩, true, false, none, none⟩
    let events : List Event :=
      [.enter (spec 0 6), .leaf (spec 0 2), .enter (spec 2 4), .leaf (spec 2 3), .leave, .enter (spec 4 6),
        .leaf (spec 4 5), .leave, .leave]
    let forward : Command := .sibling true true
    let previous : Command := .cousins ⟨true, false, true, none, .previous⟩ true
    ∃ t, Tree.build "g" ['a', 'b', 'c', 'd', 'e', 'f'] events = .ok t ∧
      forward.run t [⟨0, 2⟩, ⟨4, 6⟩, ⟨0, 2⟩] = .ok [⟨0, 2⟩, ⟨4, 6⟩, ⟨2, 4⟩] ∧
      forward.run t [⟨9, 9⟩, ⟨0, 2⟩] = .ok [⟨9, 9⟩, ⟨0, 2⟩, ⟨2, 4⟩] ∧
      previous.run t [⟨4, 5⟩, ⟨9, 9⟩] = .ok [⟨4, 5⟩, ⟨9, 9⟩, ⟨2, 3⟩] ∧
      previous.run t [⟨9, 9⟩, ⟨0, 2⟩] = .error ⟨⟨9, 9⟩, 6⟩ ∧
      ∀ n outputs,
        runAll t (List.replicate n forward) [⟨0, 2⟩, ⟨4, 6⟩, ⟨0, 2⟩] = .ok outputs →
        ([⟨0, 2⟩, ⟨4, 6⟩] :: outputs).IsChain (· <+: ·) ∧ ∀ out ∈ outputs, out.length ≤ 8 := by
  intro spec events forward previous
  obtain ⟨t, hbuild, hlength, hsibling, hspan, hcousin, hcousinSpan, hspans⟩ :
      ∃ t, Tree.build "g" ['a', 'b', 'c', 'd', 'e', 'f'] events = .ok t ∧ t.sourceLength = 6 ∧
        t.siblingForSelection ⟨0, 2⟩ true = .ok (some 2) ∧ t.span 2 = ⟨2, 4⟩ ∧
        ((t.covering ⟨4, 5⟩).map fun i => t.cousinsMatching i ⟨true, false, true, none, .previous⟩) = .ok [3] ∧
        t.span 3 = ⟨2, 3⟩ ∧ (t.indices.map t.span).eraseDups.length = 6 :=
    exists_build_of_any (by decide +kernel)
  obtain ⟨hforward, hprevious⟩ := extending_only_adds hbuild
  have hadd : ∀ selection, selection.getLast? = some ⟨0, 2⟩ → forward.run t selection =
      .ok (selection.eraseDups ++ ([⟨2, 4⟩].filter (· ∉ selection)).eraseDups) := by
    intro selection hlast
    refine ((hforward true).adds _ _).mpr (.inr ⟨⟨0, 2⟩, [2], hlast, ?_, by simp, ?_⟩)
    · rw [hsibling]
      rfl
    · rw [List.map_singleton, hspan]
  refine ⟨t, hbuild, (hadd _ rfl).trans (by decide), (hadd _ rfl).trans (by decide), ?_, ?_,
    fun n outputs hall => ?_⟩
  · refine ((hprevious _).adds _ _).mpr (.inr ⟨⟨4, 5⟩, [3], rfl, hcousin, by simp, ?_⟩)
    rw [List.map_singleton, hcousinSpan]
    decide
  · refine ((hprevious _).fails _ _).mpr ⟨rfl, .inr ?_, hlength.symm⟩
    rw [hlength]
    decide
  · obtain ⟨hchain, hbound⟩ := (hforward true).grows n _ _ hall
    rw [hspans] at hbound
    exact ⟨hchain, hbound⟩

end Command

end LiveSyntax
