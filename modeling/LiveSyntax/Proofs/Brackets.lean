import LiveSyntax.Proofs.Builder
import Mathlib.Combinatorics.Enumerative.DyckWord

/-!
# Which words of events are trees

An event opens a bracket, closes one, or does both. So a word of events is a word of brackets, and it
describes one tree exactly if it is balanced and its first bracket is closed by its last one. A builder
reads the word letter by letter, goes on after a fault, and remembers the first one. Here the two ways
in which a word can go wrong are said of the word alone: a close that finds nothing open, and an open
that comes after the first node of all has closed.

## Main definitions

- `Event.brackets`: the brackets of an event.
- `Brackets.openAfter`: how many brackets are open after a word.
- `Brackets.StrayClose`, `Brackets.LateOpen`: the two ways to go wrong, at a place of the word.
- `Brackets.Verdict`: which of the two comes first, if any.
- `Builder.Reads`: a builder has read a word.

## Main results

- `Brackets.exists_nested_iff`: without faults and with nothing left open, a word is one nested pair.
- `Builder.Reads.foldl_step`: a builder keeps count of what it reads, and keeps the first fault.
- `Tree.build_decides_brackets`: which words give a tree, and which fault the others give.
-/

namespace LiveSyntax

open DyckStep

/-- The brackets of an event: a leaf opens and closes. -/
def Event.brackets : Event → List DyckStep
  | .enter _ => [U]
  | .leaf _ => [U, D]
  | .leave => [D]

namespace Brackets

variable {w v : List DyckStep} {s : DyckStep} {i : Nat}

/-- How many brackets are open after a word. A close that finds none open changes nothing. -/
def openAfter (w : List DyckStep) : Nat :=
  w.foldl (fun count s => match s with | U => count + 1 | D => count - 1) 0

theorem openAfter_append_U (w : List DyckStep) : openAfter (w ++ [U]) = openAfter w + 1 := by
  simp [openAfter]

theorem openAfter_append_D (w : List DyckStep) : openAfter (w ++ [D]) = openAfter w - 1 := by
  simp [openAfter]

theorem counts_append_U (w : List DyckStep) :
    (w ++ [U]).count U = w.count U + 1 ∧ (w ++ [U]).count D = w.count D := by
  simp

theorem counts_append_D (w : List DyckStep) :
    (w ++ [D]).count U = w.count U ∧ (w ++ [D]).count D = w.count D + 1 := by
  simp

/-- The word has the letter `s` at place `i`, and what comes before it satisfies `P`. -/
def Meets (w : List DyckStep) (i : Nat) (s : DyckStep) (P : List DyckStep → Prop) : Prop :=
  w[i]? = some s ∧ P (w.take i)

/-- The letter at a place is a close that finds nothing open. -/
def StrayClose (w : List DyckStep) (i : Nat) : Prop :=
  Meets w i D (openAfter · = 0)

/-- The first bracket of all has been closed: at some place of the word, one had been opened and none was
open any more. -/
def RootClosed (w : List DyckStep) : Prop :=
  ∃ v, v <+: w ∧ U ∈ v ∧ openAfter v = 0

/-- The letter at a place is an open, and comes after the first bracket of all has been closed. -/
def LateOpen (w : List DyckStep) (i : Nat) : Prop :=
  Meets w i U RootClosed

/-- Which fault comes first in a word. -/
def Verdict (w : List DyckStep) : Option BuildError → Prop
  | none => ∀ i, ¬StrayClose w i ∧ ¬LateOpen w i
  | some .unbalancedClose => ∃ i, StrayClose w i ∧ ∀ j < i, ¬LateOpen w j
  | some .multipleRoots => ∃ i, LateOpen w i ∧ ∀ j < i, ¬StrayClose w j
  | some _ => False

/-! ### Reading one more letter -/

section Meets

variable {P : List DyckStep → Prop}

theorem Meets.lt_length (h : Meets w i s P) : i < w.length :=
  (List.getElem?_eq_some_iff.mp h.1).1

theorem meets_append_left (hi : i < w.length) (v : List DyckStep) :
    Meets (w ++ v) i s P ↔ Meets w i s P := by
  rw [Meets, Meets, List.getElem?_append_left hi, List.take_append_of_le_length (Nat.le_of_lt hi)]

theorem Meets.append (h : Meets w i s P) (v : List DyckStep) : Meets (w ++ v) i s P :=
  (meets_append_left h.lt_length v).mpr h

theorem Meets.of_prefix (h : Meets v i s P) (hv : v <+: w) : Meets w i s P := by
  obtain ⟨rest, rfl⟩ := hv
  exact h.append rest

theorem meets_length_cons (w rest : List DyckStep) (s : DyckStep) (hP : P w) :
    Meets (w ++ s :: rest) w.length s P := by
  refine ⟨?_, ?_⟩
  · rw [List.getElem?_append_right (Nat.le_refl _), Nat.sub_self, List.getElem?_cons_zero]
  · rwa [List.take_left]

/-- What a longer word meets, it met before or meets with its last letter. -/
theorem meets_append_singleton {x : DyckStep} :
    Meets (w ++ [x]) i s P ↔ Meets w i s P ∨ (i = w.length ∧ x = s ∧ P w) := by
  constructor
  · intro h
    have hi := h.lt_length
    rw [List.length_append, List.length_singleton] at hi
    rcases Nat.lt_succ_iff_lt_or_eq.mp hi with hlt | rfl
    · exact .inl ((meets_append_left hlt [x]).mp h)
    · obtain ⟨hletter, hP⟩ := h
      rw [List.getElem?_append_right (Nat.le_refl _), Nat.sub_self, List.getElem?_cons_zero] at hletter
      rw [List.take_left] at hP
      exact .inr ⟨rfl, Option.some.inj hletter, hP⟩
  · rintro (h | ⟨rfl, rfl, hP⟩)
    · exact h.append [x]
    · exact meets_length_cons w [] x hP

end Meets

theorem strayClose_append_U : StrayClose (w ++ [U]) i ↔ StrayClose w i := by
  simp [StrayClose, meets_append_singleton]

theorem strayClose_append_D :
    StrayClose (w ++ [D]) i ↔ StrayClose w i ∨ (i = w.length ∧ openAfter w = 0) := by
  simp [StrayClose, meets_append_singleton]

theorem lateOpen_append_U :
    LateOpen (w ++ [U]) i ↔ LateOpen w i ∨ (i = w.length ∧ RootClosed w) := by
  simp [LateOpen, meets_append_singleton]

theorem lateOpen_append_D : LateOpen (w ++ [D]) i ↔ LateOpen w i := by
  simp [LateOpen, meets_append_singleton]

/-- As long as there is no fault, nothing follows the close of the first bracket. -/
theorem rootClosed_iff (h : Verdict w none) : RootClosed w ↔ U ∈ w ∧ openAfter w = 0 := by
  constructor
  · rintro ⟨v, ⟨rest, rfl⟩, hopened, hclosed⟩
    cases rest with
    | nil =>
      rw [List.append_nil]
      exact ⟨hopened, hclosed⟩
    | cons s rest =>
      cases s with
      | U => exact absurd (meets_length_cons v rest U ⟨v, List.prefix_rfl, hopened, hclosed⟩) (h _).2
      | D => exact absurd (meets_length_cons v rest D hclosed) (h _).1
  · exact fun hclosed => ⟨w, List.prefix_rfl, hclosed⟩

/-- A fault stays the first one. -/
theorem Verdict.sticks {fault : BuildError} (h : Verdict w (some fault)) (s : DyckStep) :
    Verdict (w ++ [s]) (some fault) := by
  match fault, h with
  | .unbalancedClose, ⟨i, hstray, hfirst⟩ =>
    refine ⟨i, hstray.append [s], fun j hj hlate => hfirst j hj ?_⟩
    exact (meets_append_left (Nat.lt_trans hj hstray.lt_length) [s]).mp hlate
  | .multipleRoots, ⟨i, hlate, hfirst⟩ =>
    refine ⟨i, hlate.append [s], fun j hj hstray => hfirst j hj ?_⟩
    exact (meets_append_left (Nat.lt_trans hj hlate.lt_length) [s]).mp hstray

/-- **An open** is the first fault if there was none and the first bracket of all has been closed. -/
theorem Verdict.enter {fault : Option BuildError} (h : Verdict w fault) :
    Verdict (w ++ [U])
      (fault.or (if U ∈ w ∧ openAfter w = 0 then some .multipleRoots else none)) := by
  cases fault with
  | some fault => exact h.sticks U
  | none =>
    rw [Option.none_or]
    split
    · next hclosed =>
      refine ⟨w.length, lateOpen_append_U.mpr (.inr ⟨rfl, (rootClosed_iff h).mpr hclosed⟩), ?_⟩
      exact fun j _ hstray => (h j).1 (strayClose_append_U.mp hstray)
    · next hopen =>
      refine fun i => ⟨fun hstray => (h i).1 (strayClose_append_U.mp hstray), fun hlate => ?_⟩
      rcases lateOpen_append_U.mp hlate with hold | ⟨-, hclosed⟩
      · exact (h i).2 hold
      · exact hopen ((rootClosed_iff h).mp hclosed)

/-- **A close** is the first fault if there was none and nothing is open. -/
theorem Verdict.leave {fault : Option BuildError} (h : Verdict w fault) :
    Verdict (w ++ [D]) (fault.or (if openAfter w = 0 then some .unbalancedClose else none)) := by
  cases fault with
  | some fault => exact h.sticks D
  | none =>
    rw [Option.none_or]
    split
    · next hnone =>
      refine ⟨w.length, strayClose_append_D.mpr (.inr ⟨rfl, hnone⟩), ?_⟩
      exact fun j _ hlate => (h j).2 (lateOpen_append_D.mp hlate)
    · next hsome =>
      refine fun i => ⟨fun hstray => ?_, fun hlate => (h i).2 (lateOpen_append_D.mp hlate)⟩
      rcases strayClose_append_D.mp hstray with hold | ⟨-, hnone⟩
      · exact (h i).1 hold
      · exact hsome hnone

/-- A word has only one verdict. -/
theorem Verdict.unique {fault other : Option BuildError} (h : Verdict w fault)
    (hother : Verdict w other) : fault = other := by
  -- Of the two kinds of faults only one can come first, since one letter is not both an open and a close.
  have hone : Verdict w (some .unbalancedClose) → ¬Verdict w (some .multipleRoots) := by
    rintro ⟨i, hstray, hnolate⟩ ⟨j, hlate, hnostray⟩
    rcases Nat.lt_trichotomy i j with hlt | rfl | hlt
    · exact hnostray i hlt hstray
    · cases hstray.1.symm.trans hlate.1
    · exact hnolate j hlt hlate
  match fault, other, h, hother with
  | none, none, _, _ => rfl
  | none, some .unbalancedClose, h, ⟨i, hstray, _⟩ => exact absurd hstray (h i).1
  | none, some .multipleRoots, h, ⟨i, hlate, _⟩ => exact absurd hlate (h i).2
  | some .unbalancedClose, none, ⟨i, hstray, _⟩, h => exact absurd hstray (h i).1
  | some .multipleRoots, none, ⟨i, hlate, _⟩, h => exact absurd hlate (h i).2
  | some .unbalancedClose, some .unbalancedClose, _, _ => rfl
  | some .multipleRoots, some .multipleRoots, _, _ => rfl
  | some .unbalancedClose, some .multipleRoots, h, hother => exact absurd hother (hone h)
  | some .multipleRoots, some .unbalancedClose, h, hother => exact absurd h (hone hother)

/-! ### Balanced words -/

/-- Without a stray close, the brackets that are open are those that were not closed. -/
theorem openAfter_add_count (h : ∀ i, ¬StrayClose w i) : openAfter w + w.count D = w.count U := by
  induction w using List.reverseRecOn with
  | nil => rfl
  | append_singleton w s ih =>
    have hbefore := ih fun i hstray => h i (hstray.append [s])
    cases s with
    | U =>
      have hcounts := counts_append_U w
      rw [openAfter_append_U]
      omega
    | D =>
      have hcounts := counts_append_D w
      have hopen : openAfter w ≠ 0 :=
        fun hnone => h w.length (strayClose_append_D.mpr (.inr ⟨rfl, hnone⟩))
      rw [openAfter_append_D]
      omega

theorem openAfter_take_add_count (h : ∀ i, ¬StrayClose w i) (i : Nat) :
    openAfter (w.take i) + (w.take i).count D = (w.take i).count U :=
  openAfter_add_count fun j hstray => h j (hstray.of_prefix (List.take_prefix i w))

/-- Without a stray close, a word that opens nothing is empty. -/
theorem eq_nil_of_count (h : ∀ i, ¬StrayClose w i) (hcount : w.count U = 0) : w = [] := by
  have hcloses := openAfter_add_count h
  refine List.eq_nil_iff_forall_not_mem.mpr fun s hs => ?_
  have hpos := List.count_pos_iff.mpr hs
  rcases s.dichotomy with rfl | rfl <;> omega

/-- However many closes are stray, at least the opens beyond the closes are still open. -/
theorem count_le_openAfter_add (w : List DyckStep) : w.count U ≤ openAfter w + w.count D := by
  induction w using List.reverseRecOn with
  | nil => exact Nat.le_refl 0
  | append_singleton w s ih =>
    cases s with
    | U =>
      have hcounts := counts_append_U w
      rw [openAfter_append_U]
      omega
    | D =>
      have hcounts := counts_append_D w
      rw [openAfter_append_D]
      omega

/-- The first bracket of a word without a stray close is an open one. -/
theorem mem_take_of_pos (h : ∀ i, ¬StrayClose w i) (hi : 0 < i) (hlt : i < w.length) : U ∈ w.take i := by
  cases w with
  | nil => exact absurd hlt (Nat.not_lt_zero i)
  | cons s rest =>
    cases s with
    | U =>
      rw [List.take_cons hi]
      exact List.mem_cons_self
    | D =>
      have hstray : StrayClose ([] ++ D :: rest) 0 := meets_length_cons [] rest D rfl
      exact absurd hstray (h 0)

/-- A nested word is one whose first bracket is closed by its last one. -/
theorem isNested_iff (p : DyckWord) :
    p.IsNested ↔ p ≠ 0 ∧ p.firstReturn + 1 = p.toList.length := by
  constructor
  · intro hnested
    refine ⟨hnested.1, ?_⟩
    rw [← p.nest_denest hnested, DyckWord.firstReturn_nest]
    simp [DyckWord.nest]
  · rintro ⟨hne, hlast⟩
    refine ⟨hne, fun i hpos hlt => ?_⟩
    have hinside := DyckWord.count_D_lt_count_U_of_lt_firstReturn (p := p) (i := i - 1) (by omega)
    rwa [Nat.sub_add_cancel hpos] at hinside

theorem not_strayClose (p : DyckWord) (i : Nat) : ¬StrayClose p.toList i := by
  rintro ⟨hletter, hnone⟩
  have hbefore := count_le_openAfter_add (p.toList.take i)
  have hcounts := counts_append_D (p.toList.take i)
  have hafter := p.count_D_le_count_U (i + 1)
  rw [List.take_add_one, hletter, Option.toList_some] at hafter
  omega

theorem not_lateOpen {p : DyckWord} (hnested : p.IsNested) (i : Nat) : ¬LateOpen p.toList i := by
  rintro ⟨hletter, v, hv, hopened, hclosed⟩
  have hi : i < p.toList.length := (List.getElem?_eq_some_iff.mp hletter).1
  have hle : v.length ≤ i := hv.length_le.trans (List.length_take_le i _)
  -- In a nested word only the whole of it closes what it opened.
  have hinside := hnested.2 (List.length_pos_of_mem hopened) (Nat.lt_of_le_of_lt hle hi)
  rw [← List.prefix_iff_eq_take.mp (hv.trans (List.take_prefix i _))] at hinside
  have hbound := count_le_openAfter_add v
  omega

/-- **A word is one nested pair** exactly if it has no fault, leaves nothing open and is not empty. -/
theorem exists_nested_iff :
    (∃ p : DyckWord, p.toList = w ∧ p ≠ 0 ∧ p.firstReturn + 1 = w.length) ↔
      Verdict w none ∧ openAfter w = 0 ∧ w ≠ [] := by
  constructor
  · rintro ⟨p, rfl, hne, hlast⟩
    have hnested := (isNested_iff p).mpr ⟨hne, hlast⟩
    have hcount := openAfter_add_count (not_strayClose p)
    have hequal := p.count_U_eq_count_D
    exact ⟨fun i => ⟨not_strayClose p i, not_lateOpen hnested i⟩, by omega,
      DyckWord.toList_ne_nil.mpr hne⟩
  · rintro ⟨hverdict, hclosed, hne⟩
    have hstray : ∀ i, ¬StrayClose w i := fun i => (hverdict i).1
    have hcount := openAfter_add_count hstray
    have hcounts := openAfter_take_add_count hstray
    let p : DyckWord := ⟨w, by omega, fun i => by have := hcounts i; omega⟩
    have hnested : p.IsNested := by
      refine ⟨DyckWord.toList_ne_nil.mp hne, fun i hpos hlt => ?_⟩
      by_contra hle
      -- Everything is closed after `i` letters, so the next letter, open or close, is a fault.
      have hnone : openAfter (w.take i) = 0 := by
        have hcount : ¬(w.take i).count D < (w.take i).count U := hle
        have := hcounts i
        omega
      have hroot : RootClosed (w.take i) := ⟨_, List.prefix_rfl, mem_take_of_pos hstray hpos hlt, hnone⟩
      have hletter : w[i]? = some w[i] := List.getElem?_eq_getElem hlt
      rcases DyckStep.dichotomy w[i] with hU | hD
      · exact (hverdict i).2 ⟨hU ▸ hletter, hroot⟩
      · exact (hverdict i).1 ⟨hD ▸ hletter, hnone⟩
    exact ⟨p, rfl, (isNested_iff p).mp hnested⟩

end Brackets

namespace Builder

open Brackets

variable {b : Builder} {w : List DyckStep}

/-- A builder has read a word of brackets: it has the nodes that are open, one node for each open, and
the fault that came first. -/
structure Reads (b : Builder) (w : List DyckStep) : Prop where
  opened : b.opened.length = openAfter w
  size : b.cells.size = w.count U
  fault : Verdict w b.fault

theorem Reads.opened_eq_nil_iff (h : b.Reads w) : b.opened = [] ↔ openAfter w = 0 := by
  rw [← h.opened, List.length_eq_zero_iff]

theorem reads_start (source : Text) : (start source).Reads [] where
  opened := rfl
  size := rfl
  fault i := ⟨fun h => absurd h.lt_length (Nat.not_lt_zero i),
    fun h => absurd h.lt_length (Nat.not_lt_zero i)⟩

theorem Reads.enter (h : b.Reads w) (spec : NodeSpec) (hroom : w.count U < maxNodes) :
    (b.enter spec).Reads (w ++ [U]) where
  opened := by
    rw [opened_enter, List.length_cons, h.opened, openAfter_append_U]
  size := by
    have hsize : (b.enter spec).cells.size = b.cells.size + 1 := Array.size_push _
    rw [hsize, h.size, (counts_append_U w).1]
  fault := by
    have hnodes : b.cells.isEmpty = false ↔ U ∈ w := by
      rw [← List.count_pos_iff, ← h.size, Array.isEmpty_eq_false_iff, ← Array.size_pos_iff]
    have hclosed : (b.opened.isEmpty && !b.cells.isEmpty) = true ↔ U ∈ w ∧ openAfter w = 0 := by
      rw [Bool.and_eq_true, Bool.not_eq_true', List.isEmpty_iff, h.opened_eq_nil_iff, hnodes, and_comm]
    have hfault : (b.enter spec).fault =
        b.fault.or (if U ∈ w ∧ openAfter w = 0 then some .multipleRoots else none) := by
      change b.faultOnEnter = _
      rw [faultOnEnter, if_neg (by rw [h.size]; omega)]
      by_cases hlate : U ∈ w ∧ openAfter w = 0
      · rw [if_pos (hclosed.mpr hlate), if_pos hlate]
      · rw [if_neg (mt hclosed.mp hlate), if_neg hlate, Option.or_none]
    rw [hfault]
    exact h.fault.enter

theorem Reads.leave (h : b.Reads w) : b.leave.Reads (w ++ [D]) := by
  have hopened := h.opened
  cases hcase : b.opened with
  | nil =>
    have hnone : openAfter w = 0 := by rw [← hopened, hcase]; rfl
    have hleave : b.leave = b.blame .unbalancedClose := by rw [Builder.leave, hcase]
    have hfault := h.fault.leave
    rw [if_pos hnone] at hfault
    rw [hleave]
    refine ⟨?_, ?_, hfault⟩
    · rw [openAfter_append_D, hnone]
      exact hopened.trans hnone
    · exact h.size.trans (counts_append_D w).1.symm
  | cons index outer =>
    have hsome : ¬openAfter w = 0 := by rw [← hopened, hcase]; simp
    have hfault := h.fault.leave
    rw [if_neg hsome, Option.or_none] at hfault
    rw [leave_eq hcase]
    refine ⟨?_, ?_, hfault⟩
    · rw [openAfter_append_D, ← hopened, hcase]
      rfl
    · rw [Array.size_modify, h.size, (counts_append_D w).1]

/-- **An event** is read as its brackets. -/
theorem Reads.step (h : b.Reads w) (event : Event)
    (hroom : (w ++ event.brackets).count U ≤ maxNodes) : (b.step event).Reads (w ++ event.brackets) := by
  rw [List.count_append] at hroom
  cases event with
  | enter spec => exact h.enter spec hroom
  | leaf spec =>
    have hleft := (h.enter spec hroom).leave
    rwa [List.append_assoc] at hleft
  | leave => exact h.leave

/-- **A run of events** is read as their brackets. -/
theorem Reads.foldl_step (h : b.Reads w) (events : List Event)
    (hroom : (w ++ events.flatMap Event.brackets).count U ≤ maxNodes) :
    (events.foldl Builder.step b).Reads (w ++ events.flatMap Event.brackets) := by
  induction events generalizing b w with
  | nil => simpa using h
  | cons event events ih =>
    rw [List.flatMap_cons, ← List.append_assoc] at hroom ⊢
    refine ih (h.step event ?_) hroom
    rw [List.count_append] at hroom
    omega

theorem Reads.fault_eq_iff (h : b.Reads w) {fault : Option BuildError} :
    b.fault = fault ↔ Verdict w fault :=
  ⟨fun heq => heq ▸ h.fault, h.fault.unique⟩

theorem Reads.nodes_eq_nil_iff (h : b.Reads w) (hclean : Verdict w none) : b.nodes = [] ↔ w = [] := by
  rw [← List.length_eq_zero_iff, length_nodes, h.size]
  constructor
  · exact eq_nil_of_count fun i => (hclean i).1
  · rintro rfl
    rfl

/-- **What comes out** of a builder that has read a word: a tree, the first fault, the number of nodes left
open, or that there is no node. -/
theorem Reads.finish (h : b.Reads w) (grammar : String) :
    ((∃ t, b.finish grammar = .ok t) ↔ Verdict w none ∧ openAfter w = 0 ∧ w ≠ []) ∧
    ∀ fault, b.finish grammar = .error fault ↔ Verdict w (some fault) ∨ Verdict w none ∧
      (openAfter w ≠ 0 ∧ .unclosed (openAfter w) = fault ∨ w = [] ∧ .empty = fault) := by
  simp only [finish_eq_ok_iff, finish_eq_error_iff, h.fault_eq_iff, h.opened_eq_nil_iff, h.opened, ne_eq,
    exists_and_left, exists_eq, and_true]
  refine ⟨and_congr_right fun hclean => ?_, fun fault => or_congr_right (and_congr_right fun hclean => ?_)⟩
  · rw [h.nodes_eq_nil_iff hclean]
  · rw [h.nodes_eq_nil_iff hclean]
    refine or_congr_right ⟨And.right, ?_⟩
    rintro ⟨rfl, hfault⟩
    exact ⟨rfl, rfl, hfault⟩

end Builder

namespace Tree

open Brackets

/-- **One balanced tree, or the first fault.** A word of fewer than `2 ^ 32 - 1` opens gives a tree exactly if
it is balanced, not empty, and its first bracket is closed by its last one. If a close finds nothing open,
or an open comes after the first node of all has closed, then the one that comes first in the word is
the fault. Without such a fault, nodes that are left open are counted, and what remains is that there is no
node at all. -/
theorem build_decides_brackets (grammar : String) (source : Text) (events : List Event)
    (hroom : (events.flatMap Event.brackets).count U < 2 ^ 32 - 1) :
    let w := events.flatMap Event.brackets
    let result := Tree.build grammar source events
    ((∃ t, result = .ok t) ↔
      ∃ p : DyckWord, p.toList = w ∧ p ≠ 0 ∧ p.firstReturn + 1 = w.length) ∧
    (result = .error .unbalancedClose ↔ ∃ i, StrayClose w i ∧ ∀ j < i, ¬LateOpen w j) ∧
    (result = .error .multipleRoots ↔ ∃ i, LateOpen w i ∧ ∀ j < i, ¬StrayClose w j) ∧
    (∀ k, result = .error (.unclosed k) ↔
      (∀ i, ¬StrayClose w i ∧ ¬LateOpen w i) ∧ 0 < k ∧ w.count U = w.count D + k) ∧
    (result = .error .empty ↔ w = []) ∧
    result ≠ .error .tooLarge := by
  intro w result
  have hreads : (events.foldl Builder.step (Builder.start source)).Reads w := by
    refine (Builder.reads_start source).foldl_step events ?_
    rw [List.nil_append, Builder.maxNodes]
    omega
  obtain ⟨hok, herror⟩ := hreads.finish grammar
  refine ⟨hok.trans exists_nested_iff.symm, (herror _).trans (by simp [Verdict]),
    (herror _).trans (by simp [Verdict]), fun k => (herror _).trans ?_, (herror _).trans ?_,
    fun htoo => ?_⟩
  · have hopen : Verdict w none → openAfter w + w.count D = w.count U :=
      fun hclean => openAfter_add_count fun i => (hclean i).1
    constructor
    · rintro (hnever | ⟨hclean, ⟨hsome, hk⟩ | ⟨-, hne⟩⟩)
      · exact hnever.elim
      · cases hk
        have := hopen hclean
        exact ⟨hclean, by omega, by omega⟩
      · cases hne
    · rintro ⟨hclean, hpos, hcount⟩
      have := hopen hclean
      obtain rfl : openAfter w = k := by omega
      exact .inr ⟨hclean, .inl ⟨by omega, rfl⟩⟩
  · constructor
    · rintro (hnever | ⟨-, ⟨-, hne⟩ | ⟨hnil, -⟩⟩)
      · exact hnever.elim
      · cases hne
      · exact hnil
    · intro hnil
      rw [hnil]
      exact .inr ⟨(Builder.reads_start source).fault, .inr ⟨rfl, rfl⟩⟩
  · simpa [Verdict] using (herror _).mp htoo

/-- A leaf, a close too many, and a second tree that is not closed: there are as many opens as closes, and
both faults are there. The close came first. -/
theorem build_decides_brackets_close_before_second_root :
    let node : NodeSpec := ⟨"a", ⟨0, 1⟩, true, false, none, none⟩
    let events : List Event := [.leaf node, .leave, .enter node, .leaf node]
    (events.flatMap Event.brackets).count U < 2 ^ 32 - 1 ∧
      LateOpen (events.flatMap Event.brackets) 3 ∧
      Tree.build "text" ['a'] events = .error .unbalancedClose := by
  intro node events
  have hroom : (events.flatMap Event.brackets).count U < 2 ^ 32 - 1 := by decide
  obtain ⟨-, hclose, -⟩ := build_decides_brackets "text" ['a'] events hroom
  refine ⟨hroom, ⟨rfl, [U, D], ⟨[D], rfl⟩, List.mem_cons_self, rfl⟩, hclose.mpr ⟨2, ⟨rfl, rfl⟩, ?_⟩⟩
  rintro j hj ⟨hletter, v, hv, hopened, -⟩
  match j, hj with
  | 0, _ =>
    rw [List.take_zero, List.prefix_nil] at hv
    exact absurd (hv ▸ hopened) List.not_mem_nil
  | 1, _ => cases hletter

end Tree

end LiveSyntax
