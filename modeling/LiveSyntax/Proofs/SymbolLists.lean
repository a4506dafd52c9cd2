import LiveSyntax.Proofs.Containers
import Mathlib.Data.List.Destutter
import Mathlib.Data.List.Nodup

/-!
# Ordering symbols and dropping repeats

`Symbol.finish` orders symbols by their starts, drops each one that equals the one before it, and assigns
containers. The order is stable, and this fixes it: there is only one list in the order of the starts in which
the symbols of each start stand as they stood before.

Only neighbours are compared when repeats are dropped. Two equal symbols end up as neighbours unless some
other symbol with the same start stands between them, so whether repeats are left over can be told from the
symbols as they were given.

## Main definitions

- `Symbol.StablySorts`: a list has the symbols of another one in the order of their starts, stably.
- `Symbol.EqualTogether`: no other symbol of the same start stands between two equal ones.

## Main results

- `Symbol.stablySorts_iff`: there is only one such list.
- `Symbol.nodup_destutter_iff`: when no repeats are left over.
- `Symbol.finish_eq`: the three steps of `Symbol.finish`, said without its definition.
-/

namespace LiveSyntax.Symbol

variable {symbols ordered other part : List Symbol} {a b : Symbol} {start : Nat}

/-! ### Stable order -/

/-- The symbols that start at a byte. -/
def startingAt (start : Nat) (symbols : List Symbol) : List Symbol :=
  symbols.filter fun symbol => symbol.span.start = start

theorem mem_startingAt : a ∈ startingAt start symbols ↔ a ∈ symbols ∧ a.span.start = start := by
  rw [startingAt, List.mem_filter, decide_eq_true_eq]

theorem startingAt_cons (start : Nat) (a : Symbol) (symbols : List Symbol) :
    startingAt start (a :: symbols) =
      if a.span.start = start then a :: startingAt start symbols else startingAt start symbols := by
  simp only [startingAt, List.filter_cons, decide_eq_true_eq]

theorem mem_of_startingAt (hsame : ∀ start, startingAt start ordered = startingAt start other)
    (ha : a ∈ ordered) : a ∈ other := by
  have hmem : a ∈ startingAt a.span.start ordered := mem_startingAt.mpr ⟨ha, rfl⟩
  rw [hsame] at hmem
  exact (mem_startingAt.mp hmem).1

theorem InOrder.head_le (h : InOrder (a :: symbols)) (hb : b ∈ a :: symbols) : a.span.start ≤ b.span.start := by
  rcases List.mem_cons.mp hb with rfl | hb
  · exact Nat.le_refl _
  · exact List.rel_of_pairwise_cons h hb

/-- Lists in the order of the starts are equal if they have the same symbols at each start, in the same order. -/
theorem InOrder.ext (h : InOrder ordered) (h' : InOrder other)
    (hsame : ∀ start, startingAt start ordered = startingAt start other) : ordered = other := by
  induction ordered generalizing other with
  | nil =>
    symm
    rw [List.eq_nil_iff_forall_not_mem]
    intro b hb
    cases mem_of_startingAt (fun start => (hsame start).symm) hb
  | cons a ordered ih =>
    have ha : a ∈ other := mem_of_startingAt hsame List.mem_cons_self
    cases other with
    | nil => cases ha
    | cons b other =>
      -- Either head is the first one of the least start, so the two heads are equal.
      have hb : b ∈ a :: ordered := mem_of_startingAt (fun start => (hsame start).symm) List.mem_cons_self
      have hstart : b.span.start = a.span.start := Nat.le_antisymm (h'.head_le ha) (h.head_le hb)
      have hheads := hsame a.span.start
      rw [startingAt_cons, startingAt_cons, if_pos rfl, if_pos hstart] at hheads
      obtain rfl : a = b := (List.cons.inj hheads).1
      congr 1
      refine ih h.of_cons h'.of_cons fun start => ?_
      have htails := hsame start
      rw [startingAt_cons, startingAt_cons] at htails
      split at htails
      · exact (List.cons.inj htails).2
      · exact htails

/-- A list has the symbols of another one in the order of their starts, and those that start at the same byte as
they stood before. -/
structure StablySorts (symbols ordered : List Symbol) : Prop where
  inOrder : InOrder ordered
  stable : ∀ start, startingAt start ordered = startingAt start symbols

theorem stablySorts_of_inOrder (h : InOrder symbols) : StablySorts symbols symbols :=
  ⟨h, fun _ => rfl⟩

theorem StablySorts.mem_iff (h : StablySorts symbols ordered) : a ∈ ordered ↔ a ∈ symbols :=
  ⟨mem_of_startingAt h.stable, mem_of_startingAt fun start => (h.stable start).symm⟩

/-- Symbols that start together are a part of the one list if they are a part of the other. -/
theorem StablySorts.sublist_iff (h : StablySorts symbols ordered) (hpart : ∀ a ∈ part, a.span.start = start) :
    part.Sublist ordered ↔ part.Sublist symbols := by
  have hall : startingAt start part = part :=
    List.filter_eq_self.mpr fun a ha => decide_eq_true (hpart a ha)
  have hkeep : ∀ l : List Symbol, part.Sublist l ↔ part.Sublist (startingAt start l) := by
    intro l
    constructor
    · intro hsub
      have hfiltered := hsub.filter fun symbol => decide (symbol.span.start = start)
      rwa [← startingAt, hall] at hfiltered
    · exact fun hsub => hsub.trans List.filter_sublist
  rw [hkeep ordered, hkeep symbols, h.stable]

theorem stablySorts_sorted (symbols : List Symbol) : StablySorts symbols (sorted symbols) := by
  have htrans : ∀ a b c : Symbol, decide (a.span.start ≤ b.span.start) = true →
      decide (b.span.start ≤ c.span.start) = true → decide (a.span.start ≤ c.span.start) = true := by
    simp only [decide_eq_true_eq]
    omega
  have htotal : ∀ a b : Symbol,
      (decide (a.span.start ≤ b.span.start) || decide (b.span.start ≤ a.span.start)) = true := by
    simp only [Bool.or_eq_true, decide_eq_true_eq]
    omega
  have hperm : (sorted symbols).Perm symbols := List.mergeSort_perm symbols _
  constructor
  · exact (List.pairwise_mergeSort htrans htotal symbols).imp of_decide_eq_true
  · intro start
    -- The symbols of one start are in order already, so sorting keeps them as a part of the list.
    have hpart : (startingAt start symbols).Pairwise fun a b => decide (a.span.start ≤ b.span.start) = true := by
      refine List.pairwise_of_forall_mem_list fun a ha b hb => ?_
      rw [decide_eq_true_eq, (mem_startingAt.mp ha).2, (mem_startingAt.mp hb).2]
    have hkept := (List.sublist_mergeSort htrans htotal hpart List.filter_sublist).filter
      fun symbol => symbol.span.start = start
    rw [startingAt, List.filter_filter] at hkept
    simp only [Bool.and_self] at hkept
    exact (hkept.eq_of_length (hperm.filter _).length_eq.symm).symm

/-- **There is only one stable order**, and sorting finds it. -/
theorem stablySorts_iff : StablySorts symbols ordered ↔ ordered = sorted symbols := by
  have hsorted := stablySorts_sorted symbols
  constructor
  · exact fun h => h.inOrder.ext hsorted.inOrder fun start => (h.stable start).trans (hsorted.stable start).symm
  · rintro rfl
    exact hsorted

/-! ### Repeats -/

section Repeats

variable {α : Type} [DecidableEq α] {l : List α} {x y : α}

theorem eraseReps_eq_destutter (l : List α) : l.eraseReps = l.destutter (· ≠ ·) := by
  have hloop : ∀ (x : α) (l kept : List α),
      List.eraseRepsBy.loop (· == ·) x l kept = kept.reverse ++ l.destutter' (· ≠ ·) x := by
    intro x l
    induction l generalizing x with
    | nil => simp [List.eraseRepsBy.loop]
    | cons y l ih =>
      intro kept
      rw [List.eraseRepsBy.loop]
      by_cases heq : x = y
      · simp [heq, ih]
      · rw [beq_eq_false_iff_ne.mpr heq, List.destutter'_cons_pos _ heq]
        exact (ih y (x :: kept)).trans (by simp)
  cases l with
  | nil => rfl
  | cons x l => exact hloop x l []

theorem mem_destutter'_ne : y ∈ l.destutter' (· ≠ ·) x ↔ y ∈ x :: l := by
  induction l generalizing x with
  | nil => simp
  | cons z l ih =>
    by_cases heq : x = z
    · rw [List.destutter'_cons_neg _ (not_not.mpr heq), ih, heq]
      simp
    · rw [List.destutter'_cons_pos _ heq, List.mem_cons, ih, List.mem_cons (b := x)]

theorem mem_destutter_ne : y ∈ l.destutter (· ≠ ·) ↔ y ∈ l := by
  cases l with
  | nil => rfl
  | cons x l => exact mem_destutter'_ne

theorem nodup_destutter'_iff :
    (l.destutter' (· ≠ ·) x).Nodup ↔ ∀ a b, [a, b, a].Sublist (x :: l) → b = a := by
  induction l generalizing x with
  | nil =>
    refine iff_of_true (by simp) fun a b hsub => ?_
    exact absurd hsub.length_le (by simp)
  | cons y l ih =>
    by_cases heq : x = y
    · subst heq
      rw [List.destutter'_cons_neg _ (not_not.mpr rfl), ih]
      refine ⟨fun h a b hsub => ?_, fun h a b hsub => h a b (hsub.cons x)⟩
      -- Of two equal symbols in front, the second one is as good a first of three as the other.
      rcases List.sublist_cons_iff.mp hsub with hrest | ⟨_, ⟨⟩, hrest⟩
      · exact h a b hrest
      · rcases List.sublist_cons_iff.mp hrest with hbehind | ⟨_, ⟨⟩, -⟩
        · exact h x b (hbehind.cons_cons x)
        · rfl
    · rw [List.destutter'_cons_pos _ heq, List.nodup_cons, ih, mem_destutter'_ne]
      constructor
      · rintro ⟨hx, h⟩ a b hsub
        rcases List.sublist_cons_iff.mp hsub with hrest | ⟨_, ⟨⟩, hrest⟩
        · exact h a b hrest
        · exact absurd (hrest.subset (by simp)) hx
      · intro h
        refine ⟨fun hx => ?_, fun a b hsub => h a b (hsub.cons x)⟩
        have hmem : x ∈ l := (List.mem_cons.mp hx).resolve_left heq
        exact heq (h x y (((List.singleton_sublist.mpr hmem).cons_cons y).cons_cons x)).symm

/-- Dropping repeats leaves none over exactly if nothing else stands between two equal elements. -/
theorem nodup_destutter_iff :
    (l.destutter (· ≠ ·)).Nodup ↔ ∀ a b, [a, b, a].Sublist l → b = a := by
  cases l with
  | nil => simp
  | cons x l => exact nodup_destutter'_iff

end Repeats

/-! ### Finished lists -/

/-- The symbol without its container. -/
def bare (symbol : Symbol) : Symbol :=
  { symbol with container := none }

theorem map_bare_assignContainers (hbare : ∀ a ∈ symbols, a.container = none) :
    (assignContainers symbols).map bare = symbols := by
  rw [assignContainers, map_assignFrom (f := bare) fun _ _ => rfl]
  refine (List.map_congr_left fun a ha => ?_).trans (List.map_id symbols)
  rw [bare, ← hbare a ha]
  rfl

/-- The order of the starts does not depend on the containers. -/
theorem inOrder_assignContainers (h : InOrder symbols) : InOrder (assignContainers symbols) := by
  have hspans := map_assignFrom (f := Symbol.span) (fun _ _ => rfl) [] symbols
  rw [InOrder, ← List.pairwise_map (f := Symbol.span) (R := fun s u => s.start ≤ u.start)] at h ⊢
  rwa [assignContainers, hspans]

theorem finish_eq (h : StablySorts symbols ordered) :
    finish symbols = assignContainers (ordered.destutter (· ≠ ·)) := by
  rw [finish, ← stablySorts_iff.mp h, eraseReps_eq_destutter]

theorem finish_of_inOrder (h : InOrder symbols) :
    finish symbols = assignContainers (symbols.destutter (· ≠ ·)) :=
  finish_eq (stablySorts_of_inOrder h)

theorem map_bare_finish (h : StablySorts symbols ordered) (hbare : ∀ a ∈ symbols, a.container = none) :
    (finish symbols).map bare = ordered.destutter (· ≠ ·) := by
  rw [finish_eq h, map_bare_assignContainers]
  intro a ha
  exact hbare a (h.mem_iff.mp (mem_destutter_ne.mp ha))

/-- Among symbols that start at the same byte, no other one stands between two that are equal. -/
def EqualTogether (symbols : List Symbol) : Prop :=
  ∀ a b : Symbol, [a, b, a].Sublist symbols → b.span.start = a.span.start → b = a

instance (symbols : List Symbol) : Decidable (EqualTogether symbols) :=
  decidable_of_iff (∀ a ∈ symbols, ∀ b ∈ symbols, [a, b, a].Sublist symbols →
      b.span.start = a.span.start → b = a)
    ⟨fun h a b hsub => h a (hsub.subset (by simp)) b (hsub.subset (by simp)) hsub, fun h a _ b _ => h a b⟩

theorem StablySorts.nodup_destutter_iff (h : StablySorts symbols ordered) :
    (ordered.destutter (· ≠ ·)).Nodup ↔ EqualTogether symbols := by
  rw [Symbol.nodup_destutter_iff]
  refine forall₂_congr fun a b => ?_
  constructor
  · intro hfree hsub hstart
    have hpart : ∀ c ∈ [a, b, a], c.span.start = a.span.start := by simp [hstart]
    exact hfree ((h.sublist_iff hpart).mpr hsub)
  · intro htogether hsub
    have hstarts : InOrder [a, b, a] := h.inOrder.sublist hsub
    have hstart : b.span.start = a.span.start := by
      simp only [InOrder, List.pairwise_cons, List.mem_cons] at hstarts
      have hab := hstarts.1 b (by simp)
      have hba := hstarts.2.1 a (by simp)
      omega
    have hpart : ∀ c ∈ [a, b, a], c.span.start = a.span.start := by simp [hstart]
    exact htogether ((h.sublist_iff hpart).mp hsub) hstart

end LiveSyntax.Symbol
