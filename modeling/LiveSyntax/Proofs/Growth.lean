import LiveSyntax.Proofs.CoveringNodes

/-!
# Growing a selection

`Command.ancestor` has three answers for a span: the covering node if that is longer, else the nearest
longer ancestor of it, else its parent; and it takes none of them if it is the root. In a tree whose spans
are nested this is one rule: of the covering node and its ancestors, without the root, take the first one
that is longer than the span.

If siblings are apart too, the rule can be said without the covering node, as the shortest node that
strictly contains the span. Growing again starts from another covering node, since below a node there may
be others with the same span. But a node that is longer still lies above the node selected before, so each
step ends higher up in the tree than the one before it.

## Main definitions

- `Tree.LongerAbove`: the nodes that a span may grow to.
- `Command.GrowsFor`: a span grows for some steps, and then not any more.

## Main results

- `Command.growOne_spec`: where one step leads.
- `Command.ancestor_grows_to_smallest`: one step leads to the smallest larger node, and steps come to an end.
-/

namespace LiveSyntax

namespace Tree

variable {t : Tree} {s : Span} {i a b : Nat}

/-- The covering node of a span or an ancestor of it, but not the root, that is longer than the span. -/
def LongerAbove (t : Tree) (i : Nat) (s : Span) (a : Nat) : Prop :=
  a ∈ i :: t.ancestors i ∧ a ≠ Arena.root ∧ s.length < t.length a

theorem WellNested.lt_size_of_mem (h : t.WellNested) (hi : i < t.size) (ha : a ∈ i :: t.ancestors i) :
    a < t.size := by
  rcases List.mem_cons.mp ha with rfl | habove
  · exact hi
  · exact h.linked.lt_of_mem_ancestors hi habove

theorem WellNested.below_of_mem (h : t.WellNested) (hi : i < t.size) (ha : a ∈ i :: t.ancestors i) :
    a ≤ i ∧ i < t.subtreeEnd a :=
  (h.linked.below_iff_mem_ancestors (h.lt_size_of_mem hi ha) hi).mpr (List.mem_cons.mp ha)

theorem Innermost.covers_of_mem (hi : t.Innermost s i) (h : t.WellNested)
    (ha : a ∈ i :: t.ancestors i) : t.Covers a s :=
  (h.covers_of_below (h.lt_size_of_mem hi.lt_size ha) hi.lt_size (h.below_of_mem hi.lt_size ha)).trans
    hi.covers

/-- Of two nodes on the way up from a node, one is the other or lies above it. -/
theorem WellNested.eq_or_above (h : t.WellNested) (hi : i < t.size) (ha : a ∈ i :: t.ancestors i)
    (hb : b ∈ i :: t.ancestors i) : a = b ∨ a ∈ t.ancestors b ∨ b ∈ t.ancestors a := by
  have halt := h.lt_size_of_mem hi ha
  have hblt := h.lt_size_of_mem hi hb
  have hai := h.below_of_mem hi ha
  have hbi := h.below_of_mem hi hb
  rcases Nat.le_total a b with hle | hle
  · have hbelow := (h.linked.below_iff_mem_ancestors halt hblt).mp ⟨hle, by omega⟩
    exact hbelow.imp_right .inl
  · have hbelow := (h.linked.below_iff_mem_ancestors hblt halt).mp ⟨hle, by omega⟩
    exact hbelow.imp Eq.symm .inr

/-- The nearest of the nodes above with some property is the deepest of them. -/
theorem WellNested.deepest_of_find? (h : t.WellNested) (hi : i < t.size) {wanted : Nat → Bool}
    (hfound : (i :: t.ancestors i).find? wanted = some a) (hb : b ∈ i :: t.ancestors i)
    (hwanted : wanted b = true) : b = a ∨ t.depth b < t.depth a := by
  have hdepths : (i :: t.ancestors i).Pairwise fun x y => t.depth y < t.depth x := by
    refine h.linked.climb (P := fun i => (i :: t.ancestors i).Pairwise fun x y => t.depth y < t.depth x)
      ?_ ?_ hi
    · simp [h.linked.ancestors_root h.size_pos]
    · intro i p hi hp hparent _ ih
      refine List.pairwise_cons.mpr ⟨fun j hj => h.linked.depth_lt_of_mem_ancestors hi hj, ?_⟩
      rw [h.linked.ancestors_eq_cons hi hparent]
      exact ih
  obtain ⟨-, before, after, hsplit, hbefore⟩ := List.find?_eq_some_iff_append.mp hfound
  rw [hsplit] at hb hdepths
  rcases List.mem_append.mp hb with hearly | hlate
  · simpa [hwanted] using hbefore b hearly
  · refine (List.mem_cons.mp hlate).imp_right fun hafter => ?_
    exact List.rel_of_pairwise_cons (List.pairwise_append.mp hdepths).2.1 hafter

end Tree

namespace Command

open LiveSyntax.Tree

variable {t : Tree} {s r : Span} {i a b : Nat}

/-! ### One step -/

theorem spanOr_filter_some :
    spanOr t s ((some a).filter (· != Arena.root)) = if a = Arena.root then s else t.span a := by
  rw [Option.filter_some]
  by_cases hroot : a = Arena.root <;> simp [hroot, spanOr]

theorem growOne_of_covering (hcovering : t.covering s = .ok i) :
    growOne t s = .ok [spanOr t s (((t.parent? i).map fun p =>
      if s.length < t.length i then i else (t.largerAncestor? i).getD p).filter (· != Arena.root))] := by
  simp only [growOne, ancestorForSelection, hcovering, bind, Except.bind]
  cases t.parent? i with
  | none => rfl
  | some p =>
    rw [Option.map_some]
    by_cases hlonger : s.length < t.length i
    · simp only [if_pos hlonger]
      rfl
    · simp only [if_neg hlonger]
      rfl

/-- **The three answers are one**, the nearest longer node. The parent is asked for only if no node is
longer, and then its span is the one that there was. -/
theorem growOne_eq (h : t.WellNested) (hs : s.start ≤ s.stop) (hcovering : t.covering s = .ok i) :
    growOne t s = .ok [spanOr t s
      (((i :: t.ancestors i).find? fun a => s.length < t.length a).filter (· != Arena.root))] := by
  have hi := (h.covering_eq_ok_iff.mp hcovering).2
  rw [growOne_of_covering hcovering]
  cases hparent : t.parent? i with
  | none =>
    rw [h.linked.eq_root_of_parent? hi.lt_size hparent, h.linked.ancestors_root h.size_pos,
      Option.map_none, List.find?_singleton]
    by_cases hlonger : s.length < t.length Arena.root
    · rw [if_pos (by simpa using hlonger), spanOr_filter_some, if_pos rfl]
      rfl
    · rw [if_neg (by simpa using hlonger)]
  | some p =>
    rw [Option.map_some]
    by_cases hlonger : s.length < t.length i
    · rw [if_pos hlonger, List.find?_cons_of_pos (by simpa using hlonger)]
    · -- The covering node has the span itself, so being longer than the one or the other is the same.
      have hspan : t.span i = s := hi.covers.span_eq hs (Nat.le_of_not_lt hlonger)
      have hlength : t.length i = s.length := congrArg Span.length hspan
      rw [if_neg hlonger, List.find?_cons_of_neg (by simpa using hlonger), largerAncestor?, hlength]
      cases hfound : (t.ancestors i).find? fun a => s.length < t.length a with
      | some a => rfl
      | none =>
        have hmem : p ∈ t.ancestors i := by
          rw [h.linked.ancestors_eq_cons hi.lt_size hparent]
          exact List.mem_cons_self
        have hshort : ¬s.length < t.length p := by simpa using List.find?_eq_none.mp hfound p hmem
        have hsame : t.span p = s :=
          (hi.covers_of_mem h (List.mem_cons_of_mem i hmem)).span_eq hs (Nat.le_of_not_lt hshort)
        rw [Option.getD_none, spanOr_filter_some, hsame, ite_self]
        rfl

/-- Where a span grows to: the deepest longer node above it, if there is one. -/
def GrowsTo (t : Tree) (i : Nat) (s r : Span) : Prop :=
  (∃ a, t.LongerAbove i s a ∧ t.span a = r ∧
    ∀ b, t.LongerAbove i s b → b = a ∨ t.depth b < t.depth a) ∨
  r = s ∧ ∀ a, ¬t.LongerAbove i s a

theorem growOne_spec (h : t.WellNested) (hs : s.start ≤ s.stop) (hcovering : t.covering s = .ok i) :
    ∃ r, growOne t s = .ok [r] ∧ GrowsTo t i s r := by
  have hi := (h.covering_eq_ok_iff.mp hcovering).2.lt_size
  refine ⟨_, growOne_eq h hs hcovering, ?_⟩
  cases hfound : (i :: t.ancestors i).find? fun a => s.length < t.length a with
  | none =>
    refine .inr ⟨rfl, fun a ha => ?_⟩
    simpa [ha.2.2] using List.find?_eq_none.mp hfound a ha.1
  | some a =>
    have hlonger : s.length < t.length a := by simpa using List.find?_some hfound
    have hdeepest : ∀ b, t.LongerAbove i s b → b = a ∨ t.depth b < t.depth a :=
      fun b hb => h.deepest_of_find? hi hfound hb.1 (by simpa using hb.2.2)
    rw [spanOr_filter_some]
    by_cases hroot : a = Arena.root
    · -- Nothing lies above the root, so no other node is longer.
      refine .inr ⟨if_pos hroot, fun b hb => ?_⟩
      rcases hdeepest b hb with heq | hdepth
      · exact hb.2.1 (heq.trans hroot)
      · rw [hroot, (h.linked.root h.size_pos).2] at hdepth
        exact Nat.not_lt_zero _ hdepth
    · exact .inl ⟨a, ⟨List.mem_of_find?_eq_some hfound, hroot, hlonger⟩, (if_neg hroot).symm, hdeepest⟩

theorem GrowsTo.contains (hgrows : GrowsTo t i s r) (h : t.WellNested) (hi : t.Innermost s i) :
    r.contains s = true := by
  rw [Span.contains_iff]
  rcases hgrows with ⟨a, ha, rfl, -⟩ | ⟨rfl, -⟩
  · exact hi.covers_of_mem h ha.1
  · exact ⟨Nat.le_refl _, Nat.le_refl _⟩

/-! ### The shortest node around a span -/

theorem longerAbove_of_strictlyContains {m : Nat} (h : t.WellNested) (hapart : t.SiblingsApart)
    (hi : t.Innermost s i) (hbyte : s.start < s.stop) (hm : m < t.size) (hroot : m ≠ Arena.root)
    (hcontains : (t.span m).strictlyContains s = true) : t.LongerAbove i s m := by
  obtain ⟨hcovers, hlonger⟩ := Span.strictlyContains_iff.mp hcontains
  exact ⟨List.mem_cons.mpr (hi.eq_or_mem_ancestors h hapart hbyte hm hcovers), hroot, hlonger⟩

/-- On the way up nodes get longer, or keep the span. -/
theorem span_eq_or_length_lt (h : t.WellNested) (hi : i < t.size) (ha : a ∈ i :: t.ancestors i)
    (hb : b ∈ i :: t.ancestors i) (hdepth : b = a ∨ t.depth b < t.depth a) :
    t.span b = t.span a ∨ t.length a < t.length b := by
  have halt := h.lt_size_of_mem hi ha
  rcases h.eq_or_above hi ha hb with rfl | hbelow | habove
  · exact .inl rfl
  · have hless := h.linked.depth_lt_of_mem_ancestors (h.lt_size_of_mem hi hb) hbelow
    rcases hdepth with rfl | hmore <;> omega
  · have hcovers := h.covers_of_mem_ancestors halt habove
    rcases Nat.lt_or_ge (t.length a) (t.length b) with hlonger | hle
    · exact .inr hlonger
    · exact .inl (hcovers.span_eq (h.start_le_stop halt) hle)

/-- **The shortest node around a span** is where it grows to, if there is a node around it. -/
theorem GrowsTo.shortest {m : Nat} (hgrows : GrowsTo t i s r) (h : t.WellNested)
    (hapart : t.SiblingsApart) (hi : t.Innermost s i) (hbyte : s.start < s.stop) (hm : m < t.size)
    (hroot : m ≠ Arena.root) (hcontains : (t.span m).strictlyContains s = true) :
    (∃ a < t.size, a ≠ Arena.root ∧ t.span a = r) ∧ r.strictlyContains s = true ∧
      (t.span m = r ∨ r.length < t.length m) := by
  have habove := longerAbove_of_strictlyContains h hapart hi hbyte hm hroot hcontains
  rcases hgrows with ⟨a, ha, rfl, hdeepest⟩ | ⟨-, hnone⟩
  · exact ⟨⟨a, h.lt_size_of_mem hi.lt_size ha.1, ha.2.1, rfl⟩,
      Span.strictlyContains_iff.mpr ⟨hi.covers_of_mem h ha.1, ha.2.2⟩,
      span_eq_or_length_lt h hi.lt_size ha.1 habove.1 (hdeepest m habove)⟩
  · exact absurd habove (hnone m)

/-! ### Step after step -/

theorem run_ancestor_singleton (hgrow : growOne t s = .ok [r]) : ancestor.run t [s] = .ok [r] := by
  simp only [run, each, hgrow]
  rfl

/-- A span grows for `n` steps, through the given spans, and then not any more. -/
structure GrowsFor (t : Tree) (s : Span) (n : Nat) (spans : Nat → Span) : Prop where
  start : spans 0 = s
  step : ∀ k, ancestor.run t [spans k] = .ok [spans (k + 1)]
  longer : ∀ k < n, (spans k).length < (spans (k + 1)).length
  settled : ∀ k ≥ n, spans k = spans n

theorem growsFor_zero (hrun : ancestor.run t [s] = .ok [s]) : GrowsFor t s 0 fun _ => s :=
  ⟨rfl, fun _ => hrun, fun k hk => absurd hk (Nat.not_lt_zero k), fun _ _ => rfl⟩

theorem GrowsFor.succ {n : Nat} {spans : Nat → Span} (hgrows : GrowsFor t r n spans)
    (hrun : ancestor.run t [s] = .ok [r]) (hlonger : s.length < r.length) :
    GrowsFor t s (n + 1) fun
      | 0 => s
      | k + 1 => spans k := by
  obtain rfl := hgrows.start
  constructor
  · rfl
  · rintro (_ | k)
    · exact hrun
    · exact hgrows.step k
  · rintro (_ | k) hk
    · exact hlonger
    · exact hgrows.longer k (Nat.lt_of_succ_lt_succ hk)
  · rintro (_ | k) hk
    · exact absurd hk (Nat.not_succ_le_zero n)
    · exact hgrows.settled k (Nat.le_of_succ_le_succ hk)

/-- A node that is longer than the node selected last lies above that node, although the way up may start
elsewhere below it. -/
theorem depth_lt_of_longerAbove (h : t.WellNested) (hapart : t.SiblingsApart) (ha : a < t.size)
    (hbyte : (t.span a).start < (t.span a).stop) (hi : t.Innermost (t.span a) i)
    (hb : t.LongerAbove i (t.span a) b) : t.depth b < t.depth a := by
  have hmem : a ∈ i :: t.ancestors i :=
    List.mem_cons.mpr (hi.eq_or_mem_ancestors h hapart hbyte ha (t.covers_span a))
  have hlonger : t.length a < t.length b := hb.2.2
  rcases h.eq_or_above hi.lt_size hmem hb.1 with rfl | hbelow | habove
  · exact absurd hlonger (Nat.lt_irrefl _)
  · have hcovers := h.covers_of_mem_ancestors (h.lt_size_of_mem hi.lt_size hb.1) hbelow
    exact absurd hlonger (Nat.not_lt_of_le hcovers.length_le)
  · exact h.linked.depth_lt_of_mem_ancestors ha habove

/-- **Growing comes to an end**, after as many steps as the deepest node to grow to is deep. -/
theorem exists_growsFor (h : t.WellNested) (hapart : t.SiblingsApart) (depth : Nat)
    (hcovering : t.covering s = .ok i) (hdepth : ∀ a, t.LongerAbove i s a → t.depth a ≤ depth) :
    ∃ n ≤ depth, ∃ spans, GrowsFor t s n spans := by
  induction depth using Nat.strongRecOn generalizing s i with
  | ind depth ih =>
    obtain ⟨hs, hi⟩ := h.covering_eq_ok_iff.mp hcovering
    obtain ⟨r, hgrow, hto⟩ := growOne_spec h (inBounds_iff.mp hs).1 hcovering
    have hrun := run_ancestor_singleton hgrow
    rcases hto with ⟨a, ha, rfl, -⟩ | ⟨rfl, -⟩
    · have halt := h.lt_size_of_mem hi.lt_size ha.1
      have hpos := h.linked.depth_pos halt ha.2.1
      have hle := hdepth a ha
      have hlonger : s.length < (t.span a).length := ha.2.2
      have hbyte : (t.span a).start < (t.span a).stop := Nat.lt_of_sub_pos (Nat.zero_lt_of_lt hlonger)
      obtain ⟨j, hcovering', hj⟩ := h.exists_innermost (h.inBounds_span halt)
      -- Whatever comes next lies above `a`, so it is less deep.
      have hnext : ∀ b, t.LongerAbove j (t.span a) b → t.depth b ≤ t.depth a - 1 :=
        fun b hb => Nat.le_sub_one_of_lt (depth_lt_of_longerAbove h hapart halt hbyte hj hb)
      obtain ⟨n, hn, spans, hgrows⟩ := ih (t.depth a - 1) (by omega) hcovering' hnext
      exact ⟨n + 1, by omega, _, hgrows.succ hrun hlonger⟩
    · exact ⟨0, Nat.zero_le depth, _, growsFor_zero hrun⟩

/-- **A selection grows to the smallest larger node, and stops.** Take any tree that some events build, whose
spans are nested and whose siblings are apart, and an ordered span inside the source. One step puts out one
span, which contains the first one: that of the deepest node, among the covering node and its ancestors
without the root, that is longer than the span, or else the span itself. If the span holds a byte and some
node other than the root strictly contains it, then the step leads to the shortest of these nodes. Step
after step the span gets longer, at most as often as its covering node is deep, and then stays as it is. -/
theorem ancestor_grows_to_smallest {grammar : String} {source : Text} {events : List Event} {t : Tree}
    (hbuild : Tree.build grammar source events = .ok t) (hnested : t.Nested)
    (hapart : t.SiblingsApart) {s : Span} (hs : s.start ≤ s.stop ∧ s.stop ≤ t.sourceLength) :
    ∃ i r, t.covering s = .ok i ∧ ancestor.run t [s] = .ok [r] ∧ r.contains s = true ∧
      ((∃ a, t.LongerAbove i s a ∧ t.span a = r ∧
          ∀ b, t.LongerAbove i s b → b = a ∨ t.depth b < t.depth a) ∨
        r = s ∧ ∀ a, ¬t.LongerAbove i s a) ∧
      (s.start < s.stop → ∀ m < t.size, m ≠ Arena.root → (t.span m).strictlyContains s = true →
        (∃ a < t.size, a ≠ Arena.root ∧ t.span a = r) ∧ r.strictlyContains s = true ∧
          (t.span m = r ∨ r.length < t.length m)) ∧
      ∃ n ≤ t.depth i, ∃ spans, GrowsFor t s n spans := by
  have h := wellNested_of_build hbuild hnested
  obtain ⟨i, hcovering, hi⟩ := h.exists_innermost (inBounds_iff.mpr hs)
  obtain ⟨r, hgrow, hto⟩ := growOne_spec h hs.1 hcovering
  refine ⟨i, r, hcovering, run_ancestor_singleton hgrow, hto.contains h hi, hto, ?_, ?_⟩
  · exact fun hbyte m hm hroot hcontains => hto.shortest h hapart hi hbyte hm hroot hcontains
  · refine exists_growsFor h hapart (t.depth i) hcovering fun a ha => ?_
    rcases List.mem_cons.mp ha.1 with rfl | habove
    · exact Nat.le_refl _
    · exact Nat.le_of_lt (h.linked.depth_lt_of_mem_ancestors hi.lt_size habove)

/-- The caret at the start lies in an empty node before its sibling, which is as long as their parent. The
first step leads to the parent, whose span is covered by that sibling, and the second one goes on from
there. Two bytes inside the sibling grow to the same span. -/
theorem ancestor_grows_to_smallest_beside_empty_node :
    let spec (start stop : Nat) : NodeSpec := ⟨"node", ⟨start, stop⟩, true, false, none, none⟩
    let events : List Event :=
      [.enter (spec 0 8), .enter (spec 0 6), .enter (spec 0 5), .leaf (spec 0 0), .leaf (spec 0 5), .leave,
        .leaf (spec 5 6), .leave, .leaf (spec 6 8), .leave]
    ∃ t, Tree.build "g" ['a', 'b', 'c', 'd', 'e', 'f', 'g', 'h'] events = .ok t ∧ t.Nested ∧
      t.SiblingsApart ∧ t.sourceLength = 8 ∧
      (t.covering (.caret 0) = .ok 3 ∧ ancestor.run t [.caret 0] = .ok [⟨0, 5⟩] ∧
        t.covering ⟨0, 5⟩ = .ok 4 ∧ ancestor.run t [⟨0, 5⟩] = .ok [⟨0, 6⟩] ∧
        ∃ n ≤ 3, ∃ spans, GrowsFor t (.caret 0) n spans) ∧
      (ancestor.run t [⟨1, 3⟩] = .ok [⟨0, 5⟩] ∧
        ∀ m < t.size, m ≠ Arena.root → (t.span m).strictlyContains ⟨1, 3⟩ = true →
          t.span m = ⟨0, 5⟩ ∨ 5 < t.length m) := by
  intro spec events
  obtain ⟨t, hbuild, hnested, hapart, hlength, hdepth, hfirst, hsecond, hrun, hrun', hrun''⟩ :
      ∃ t, Tree.build "g" ['a', 'b', 'c', 'd', 'e', 'f', 'g', 'h'] events = .ok t ∧ t.Nested ∧
        t.SiblingsApart ∧ t.sourceLength = 8 ∧ t.depth 3 = 3 ∧ t.covering (.caret 0) = .ok 3 ∧
        t.covering ⟨0, 5⟩ = .ok 4 ∧ ancestor.run t [.caret 0] = .ok [⟨0, 5⟩] ∧
        ancestor.run t [⟨0, 5⟩] = .ok [⟨0, 6⟩] ∧ ancestor.run t [⟨1, 3⟩] = .ok [⟨0, 5⟩] :=
    exists_build_of_any (by decide +kernel)
  have hbytes : 3 ≤ t.sourceLength := by omega
  obtain ⟨i, r, hcovering, -, -, -, -, hgrows⟩ :=
    ancestor_grows_to_smallest hbuild hnested hapart (s := .caret 0) ⟨by decide, Nat.zero_le _⟩
  obtain ⟨j, r', -, hgrow, -, -, hshortest, -⟩ :=
    ancestor_grows_to_smallest hbuild hnested hapart (s := ⟨1, 3⟩) ⟨by decide, hbytes⟩
  obtain rfl : i = 3 := Except.ok.inj (hcovering.symm.trans hfirst)
  obtain ⟨rfl, -⟩ := List.cons.inj (Except.ok.inj (hgrow.symm.trans hrun''))
  rw [hdepth] at hgrows
  exact ⟨t, hbuild, hnested, hapart, hlength, ⟨hfirst, hrun, hsecond, hrun', hgrows⟩, hrun'',
    fun m hm hroot hcontains => (hshortest (by decide) m hm hroot hcontains).2.2⟩

end Command

end LiveSyntax
