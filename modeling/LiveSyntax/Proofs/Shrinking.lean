import LiveSyntax.Proofs.CoveringNodes
import Mathlib.Data.Prod.Lex
import Mathlib.Order.WellFounded

/-!
# Shrinking a selection

`Command.descendant` takes a span to the first node, below the one that covers it, that is shorter than that
one. Step after step the selection does not simply get shorter. The node may be empty, and then the caret at
its offset is covered by an earlier node that ends there; from that node the next step goes down, so the
selection jumps to another branch on the left and may get longer.

What gets smaller is the end of the selection, or its length where the end stays. After the first step the
selection is the span of a node. If its covering node is that node or lies below it, then it has the same span,
and the step goes on down from there. Otherwise the covering node comes earlier and ends where the selected
node stands, which is empty; and what lies below the covering node cannot end there too, since then it would
cover the caret itself.

## Main definitions

- `Span.rank`: the end of a span and then its length, ordered one after the other.
- `Command.Trail`: the spans that one command leads through.

## Main results

- `Tree.Innermost.rank_lt`: a step from the span of a node leads to a smaller rank.
- `Command.descendant_settles`: shrinking comes to an end, and never in a circle.
-/

namespace LiveSyntax

/-- Where a span ends and then how long it is. -/
def Span.rank (s : Span) : Nat ×ₗ Nat :=
  toLex (s.stop, s.length)

theorem Span.rank_lt_iff {r s : Span} :
    r.rank < s.rank ↔ r.stop < s.stop ∨ r.stop = s.stop ∧ r.length < s.length :=
  Prod.Lex.toLex_lt_toLex

namespace Tree

variable {t : Tree} {s : Span} {d e n : Nat}

theorem below_of_smallerDescendant? (hfound : t.smallerDescendant? n = some e) :
    (n < e ∧ e < t.subtreeEnd n) ∧ t.length e < t.length n := by
  have hshorter : t.length e < t.length n := by simpa using List.find?_some hfound
  obtain ⟨hle, hend⟩ := Arena.mem_subtree_iff.mp (List.mem_of_find?_eq_some hfound)
  refine ⟨⟨Nat.lt_of_le_of_ne hle ?_, hend⟩, hshorter⟩
  rintro rfl
  exact Nat.lt_irrefl _ hshorter

/-- **A step from the span of a node leads to a smaller rank**, wherever that span is covered. -/
theorem Innermost.rank_lt (hn : t.Innermost (t.span d) n) (h : t.WellNested) (hapart : t.SiblingsApart)
    (hd : d < t.size) (hfound : t.smallerDescendant? n = some e) :
    (t.span e).rank < (t.span d).rank := by
  obtain ⟨hbelow, hshorter⟩ := below_of_smallerDescendant? hfound
  have he : e < t.size := Nat.lt_of_lt_of_le hbelow.2 (h.linked.bounds hn.lt_size).2
  have hinside := h.covers_of_below hn.lt_size he ⟨Nat.le_of_lt hbelow.1, hbelow.2⟩
  have hdown : (t.span e).rank < (t.span n).rank := by
    rw [Span.rank_lt_iff]
    exact (Nat.lt_or_eq_of_le hinside.2).imp_right fun hstop => ⟨hstop, hshorter⟩
  rcases hn.cases h hd (t.covers_span d) with rfl | habove | hafter
  · exact hdown
  · have hcovers := h.covers_of_mem_ancestors hn.lt_size habove
    rwa [hcovers.span_eq (h.start_le_stop hn.lt_size) hn.covers.length_le]
  · -- The node `n` ends where `d` starts and covers it, so `d` is empty and stands at the end of `n`.
    have hend := hapart.stop_le_start_of_after h hn.lt_size hd hafter
    have hordered := h.start_le_stop hd
    have hordered' := h.start_le_stop he
    have hcovered := hn.covers.2
    have hstop := hinside.2
    rw [Span.rank_lt_iff]
    left
    by_contra hlate
    -- If `e` ended there too, it would cover `d`, and the descent would have gone on to it.
    exact hn.below e hbelow.1 hbelow.2 ⟨by omega, by omega⟩

end Tree

namespace Command

open LiveSyntax.Tree

variable {t : Tree} {s : Span} {spans : Nat → Span} {j k : Nat}

/-! ### One step -/

/-- The span of the first shorter node below the covering one, or else the span itself. -/
def shrunk (t : Tree) (s : Span) : Span :=
  spanOr t s (t.smallerDescendant? (t.descend s t.size Arena.root))

theorem run_descendant_singleton (hs : t.inBounds s = true) :
    descendant.run t [s] = .ok [shrunk t s] := by
  have hcovering : t.covering s = .ok (t.descend s t.size Arena.root) := if_pos hs
  simp only [run, each, shrinkOne, descendantForSelection, hcovering]
  rfl

theorem shrunk_cases (h : t.WellNested) (hs : t.inBounds s = true) :
    shrunk t s = s ∨ ∃ n e, t.Innermost s n ∧ t.smallerDescendant? n = some e ∧ e < t.size ∧
      shrunk t s = t.span e := by
  obtain ⟨-, hn⟩ := h.covering_eq_ok_iff.mp (if_pos hs : t.covering s = .ok _)
  rw [shrunk]
  cases hfound : t.smallerDescendant? (t.descend s t.size Arena.root) with
  | none => exact .inl rfl
  | some e => exact .inr ⟨_, e, hn, hfound, smallerDescendant?_targets h.linked hn.lt_size e hfound, rfl⟩

theorem inBounds_shrunk (h : t.WellNested) (hs : t.inBounds s = true) :
    t.inBounds (shrunk t s) = true := by
  rcases shrunk_cases h hs with heq | ⟨n, e, -, -, he, heq⟩
  · rwa [heq]
  · rw [heq]
    exact h.inBounds_span he

/-- **After one step**, a further one that changes the selection makes its rank smaller. -/
theorem rank_shrunk_lt (h : t.WellNested) (hapart : t.SiblingsApart) (hs : t.inBounds s = true)
    (hchanged : shrunk t (shrunk t s) ≠ shrunk t s) :
    (shrunk t (shrunk t s)).rank < (shrunk t s).rank := by
  rcases shrunk_cases h hs with hsame | ⟨-, d, -, -, hd, hnode⟩
  · rw [hsame] at hchanged
    exact absurd hsame hchanged
  · rw [hnode] at hchanged ⊢
    rcases shrunk_cases h (h.inBounds_span hd) with hsame | ⟨n, e, hn, hfound, -, hstep⟩
    · exact absurd hsame hchanged
    · rw [hstep]
      exact hn.rank_lt h hapart hd hfound

/-! ### Step after step -/

/-- Each of the spans is where the command takes the one before it. -/
def Trail (command : Command) (t : Tree) (spans : Nat → Span) : Prop :=
  ∀ k, command.run t [spans k] = .ok [spans (k + 1)]

theorem trail_iterate_shrunk (h : t.WellNested) (hs : t.inBounds s = true) :
    descendant.Trail t (fun k => (shrunk t)^[k] s) ∧ ∀ k, t.inBounds ((shrunk t)^[k] s) = true := by
  have hbounds : ∀ k, t.inBounds ((shrunk t)^[k] s) = true := by
    intro k
    induction k with
    | zero => exact hs
    | succ k ih =>
      rw [Function.iterate_succ_apply']
      exact inBounds_shrunk h ih
  refine ⟨fun k => ?_, hbounds⟩
  simp only [Function.iterate_succ_apply']
  exact run_descendant_singleton (hbounds k)

section Trail

variable {command : Command}

/-- Where a trail comes back to a span, it goes on as before. -/
theorem Trail.add_eq_add (htrail : command.Trail t spans) (heq : spans j = spans k) (m : Nat) :
    spans (j + m) = spans (k + m) := by
  induction m with
  | zero => exact heq
  | succ m ih =>
    have hstep := htrail (j + m)
    rw [ih, htrail (k + m)] at hstep
    exact (List.cons.inj (Except.ok.inj hstep)).1.symm

theorem Trail.settled_of_step (htrail : command.Trail t spans) (heq : spans (k + 1) = spans k) :
    ∀ m ≥ k, spans m = spans k := by
  intro m hm
  obtain ⟨m, rfl⟩ := Nat.exists_eq_add_of_le hm
  induction m with
  | zero => rfl
  | succ m ih =>
    rw [← Nat.add_assoc, Nat.add_right_comm, htrail.add_eq_add heq m]
    exact ih (Nat.le_add_right k m)

/-- **A trail comes to an end** if its ranks get smaller from some place on, as long as it moves. -/
theorem Trail.settles (htrail : command.Trail t spans) {first : Nat}
    (hsmaller : ∀ k ≥ first, spans (k + 1) ≠ spans k → (spans (k + 1)).rank < (spans k).rank) :
    ∃ n, ∀ k ≥ n, spans k = spans n := by
  -- At the least rank there is no smaller one to go to.
  obtain ⟨-, ⟨n, hn, rfl⟩, hleast⟩ := (wellFounded_lt (α := Nat ×ₗ Nat)).has_min
    {rank | ∃ n ≥ first, (spans n).rank = rank} ⟨_, first, Nat.le_refl first, rfl⟩
  refine ⟨n, htrail.settled_of_step ?_⟩
  by_contra hmoved
  exact hleast _ ⟨n + 1, Nat.le_succ_of_le hn, rfl⟩ (hsmaller n hn hmoved)

/-- **A trail that comes to an end has no circle**: it comes back to a span only by staying there. -/
theorem Trail.settled_of_eq (htrail : command.Trail t spans) {n : Nat}
    (hsettled : ∀ k ≥ n, spans k = spans n) (hlt : j < k) (heq : spans j = spans k) :
    ∀ m ≥ j, spans m = spans j := by
  have hround : ∀ rounds, spans (j + rounds * (k - j)) = spans j := by
    intro rounds
    induction rounds with
    | zero => rw [Nat.zero_mul, Nat.add_zero]
    | succ rounds ih =>
      have hshift : j + (rounds + 1) * (k - j) = k + rounds * (k - j) := by
        rw [Nat.succ_mul]
        omega
      rw [hshift, ← htrail.add_eq_add heq, ih]
  have hlate : n ≤ j + n * (k - j) :=
    Nat.le_trans (Nat.le_mul_of_pos_right n (Nat.sub_pos_of_lt hlt)) (Nat.le_add_left _ j)
  refine htrail.settled_of_step ?_
  rw [htrail.add_eq_add (hround n).symm 1, hsettled _ (Nat.le_succ_of_le hlate), ← hsettled _ hlate,
    hround n]

end Trail

/-- **Shrinking comes to an end, and never in a circle.** Take any tree that some events build, whose spans
are nested and whose siblings are apart, and an ordered span inside the source. Shrinking can be repeated for
ever, and puts out one span each time. After finitely many steps it changes nothing any more. From the second
step on, every step that changes the selection moves its end to an earlier byte, or keeps the end and makes it
shorter. So a span that comes up again has stayed all the while, and stays. -/
theorem descendant_settles {grammar : String} {source : Text} {events : List Event} {t : Tree}
    (hbuild : Tree.build grammar source events = .ok t) (hnested : t.Nested)
    (hapart : t.SiblingsApart) {s : Span} (hs : s.start ≤ s.stop ∧ s.stop ≤ t.sourceLength) :
    ∃ spans : Nat → Span, spans 0 = s ∧ descendant.Trail t spans ∧
      (∃ n, descendant.run t [spans n] = .ok [spans n] ∧ ∀ k ≥ n, spans k = spans n) ∧
      (∀ k ≥ 1, spans (k + 1) ≠ spans k → (spans (k + 1)).rank < (spans k).rank) ∧
      ∀ j k, j < k → spans j = spans k → ∀ m ≥ j, spans m = spans j := by
  have h := wellNested_of_build hbuild hnested
  obtain ⟨htrail, hbounds⟩ := trail_iterate_shrunk h (inBounds_iff.mpr hs)
  have hsmaller : ∀ k ≥ 1, (shrunk t)^[k + 1] s ≠ (shrunk t)^[k] s →
      ((shrunk t)^[k + 1] s).rank < ((shrunk t)^[k] s).rank := by
    rintro (_ | k) hk hchanged
    · exact absurd hk (Nat.not_succ_le_zero 0)
    · simp only [Function.iterate_succ_apply'] at hchanged ⊢
      exact rank_shrunk_lt h hapart (hbounds k) hchanged
  obtain ⟨n, hsettled⟩ := htrail.settles hsmaller
  have hfixed : descendant.run t [(shrunk t)^[n] s] = .ok [(shrunk t)^[n + 1] s] := htrail n
  rw [hsettled (n + 1) (Nat.le_succ n)] at hfixed
  exact ⟨_, rfl, htrail, ⟨n, hfixed, hsettled⟩, hsmaller, fun j k => htrail.settled_of_eq hsettled⟩

/-- The node on the right starts with an empty one, so it shrinks to a caret. The caret is covered by the node
on the left, which ends there, and the next step goes to the first leaf of that: it ends earlier and is longer
than the caret. -/
theorem descendant_settles_jump_left :
    let spec (start stop : Nat) : NodeSpec := ⟨"node", ⟨start, stop⟩, true, false, none, none⟩
    let events : List Event :=
      [.enter (spec 0 4), .enter (spec 0 2), .leaf (spec 0 1), .leave, .enter (spec 2 4), .leaf (spec 2 2),
        .leaf (spec 2 3), .leave, .leave]
    ∃ t, Tree.build "g" ['a', 'b', 'c', 'd'] events = .ok t ∧ t.Nested ∧ t.SiblingsApart ∧
      t.sourceLength = 4 ∧
      ∃ spans : Nat → Span, spans 0 = ⟨2, 4⟩ ∧ spans 1 = .caret 2 ∧ spans 2 = ⟨0, 1⟩ ∧
        descendant.Trail t spans ∧ (spans 2).rank < (spans 1).rank ∧ ∀ m ≥ 2, spans m = ⟨0, 1⟩ := by
  intro spec events
  obtain ⟨t, hbuild, hnested, hapart, hlength, hrun, hrun', hrun''⟩ :
      ∃ t, Tree.build "g" ['a', 'b', 'c', 'd'] events = .ok t ∧ t.Nested ∧ t.SiblingsApart ∧
        t.sourceLength = 4 ∧ descendant.run t [⟨2, 4⟩] = .ok [.caret 2] ∧
        descendant.run t [.caret 2] = .ok [⟨0, 1⟩] ∧ descendant.run t [⟨0, 1⟩] = .ok [⟨0, 1⟩] :=
    exists_build_of_any (by decide +kernel)
  obtain ⟨spans, hstart, htrail, -, hsmaller, hcircle⟩ :=
    descendant_settles hbuild hnested hapart (s := ⟨2, 4⟩) ⟨by decide, Nat.le_of_eq hlength.symm⟩
  have hnext : ∀ {k r r'}, spans k = r → descendant.run t [r] = .ok [r'] → spans (k + 1) = r' := by
    rintro k r r' rfl hstep
    exact (List.cons.inj (Except.ok.inj ((htrail k).symm.trans hstep))).1
  have hfirst : spans 1 = .caret 2 := hnext hstart hrun
  have hsecond : spans 2 = ⟨0, 1⟩ := hnext hfirst hrun'
  have hthird : spans 3 = ⟨0, 1⟩ := hnext hsecond hrun''
  refine ⟨t, hbuild, hnested, hapart, hlength, spans, hstart, hfirst, hsecond, htrail, ?_, ?_⟩
  · exact hsmaller 1 (Nat.le_refl 1) (by rw [hfirst, hsecond]; decide)
  · intro m hm
    rw [hcircle 2 3 (by decide) (hsecond.trans hthird.symm) m hm, hsecond]

end Command

end LiveSyntax
