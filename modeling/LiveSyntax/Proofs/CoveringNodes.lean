import LiveSyntax.Proofs.Selections
import Mathlib.Data.List.Destutter

/-!
# Which node covers a span

`Tree.covering` goes down from the root, each time to the first child that covers the span, and never
looks back. Here its answer is described over all nodes of the tree at once: it is the covering node that
has no other one below it, and every covering node that comes before it in pre-order lies above it. There
is only one such node, so nothing else about the way down has to be known. In particular the span of the
node that was found leads to the same node again, and `Command.node` settles after one step.

At an offset where two siblings meet, both of them cover the caret, and the descent takes the first one.
Of a span that holds a byte this cannot happen, if siblings are apart: then all nodes that cover it lie one
below the other.

## Main definitions

- `Tree.Covers`: a span lies between the ends of a node.
- `Tree.WellNested`: a linked tree whose spans are nested, down from a root that spans the source.
- `Tree.SiblingsApart`: siblings follow each other without overlap.
- `Tree.Innermost`: the node that the descent ends at.

## Main results

- `Tree.WellNested.covering_eq_ok_iff`: the descent finds the innermost node.
- `Tree.covering_first_innermost`: the same said of all covering nodes.
- `Command.node_settles`: covering nodes cover themselves, and selecting nodes settles.
-/

namespace LiveSyntax

namespace Arena

variable {t : Arena} {i j c d : Nat}

/-- What lies below a node lies below, or is, one of its children. -/
theorem Linked.exists_child_above (h : t.Linked) (hi : i < t.size) (hlt : i < j)
    (hend : j < t.subtreeEnd i) :
    ∃ c < t.size, t.parent? c = some i ∧ c ≤ j ∧ j < t.subtreeEnd c := by
  have hj : j < t.size := Nat.lt_of_lt_of_le hend (h.bounds hi).2
  refine h.climb (P := fun j => i < j → j < t.subtreeEnd i →
    ∃ c < t.size, t.parent? c = some i ∧ c ≤ j ∧ j < t.subtreeEnd c) ?_ ?_ hj hlt hend
  · exact fun hlt => absurd hlt (Nat.not_lt_zero i)
  · intro j p hj hp hparent _ ih hlt hend
    rcases (h.below_iff hi hj).mp ⟨Nat.le_of_lt hlt, hend⟩ with rfl | ⟨q, hq, hle, hqend⟩
    · exact absurd hlt (Nat.lt_irrefl i)
    · obtain rfl : p = q := Option.some.inj (hparent.symm.trans hq)
      rcases Nat.eq_or_lt_of_le hle with rfl | hbelow
      · exact ⟨j, hj, hparent, Nat.le_refl j, (h.bounds hj).1⟩
      · obtain ⟨c, hc, hchild, habove⟩ := ih hbelow hqend
        exact ⟨c, hc, hchild, (h.below_iff hc hj).mpr (.inr ⟨p, hparent, habove⟩)⟩

theorem Linked.below_of_parent? (h : t.Linked) (hi : i < t.size) (hj : j < t.size)
    (hparent : t.parent? j = some i) : i < j ∧ j < t.subtreeEnd i :=
  ⟨h.parent_lt hj hparent,
    ((h.below_iff hi hj).mpr (.inr ⟨i, hparent, Nat.le_refl i, (h.bounds hi).1⟩)).2⟩

theorem Linked.lt_subtreeEnd_root (h : t.Linked) (hi : i < t.size) : i < t.subtreeEnd root := by
  have hsize : 0 < t.size := Nat.zero_lt_of_lt hi
  refine h.climb (P := fun i => i < t.subtreeEnd root) (h.bounds hsize).1 ?_ hi
  intro i p hi _ hparent _ ih
  exact ((h.below_iff hsize hi).mpr (.inr ⟨p, hparent, Nat.zero_le p, ih⟩)).2

theorem Linked.eq_root_of_parent? (h : t.Linked) (hi : i < t.size) (hnone : t.parent? i = none) :
    i = root := by
  by_contra hne
  obtain ⟨p, hp, -⟩ := h.parent (Nat.pos_of_ne_zero hne) hi
  rw [hnone] at hp
  cases hp

theorem Linked.depth_pos (h : t.Linked) (hi : i < t.size) (hne : i ≠ root) : 0 < t.depth i := by
  obtain ⟨p, -, -, hdepth⟩ := h.parent (Nat.pos_of_ne_zero hne) hi
  omega

/-- The first child with some property comes before all others that have it. -/
theorem Linked.le_of_find?_children (h : t.Linked) (hi : i < t.size) {wanted : Nat → Bool}
    (hfound : (t.children i).find? wanted = some c) (hd : d < t.size) (hparent : t.parent? d = some i)
    (hwanted : wanted d = true) : c ≤ d := by
  obtain ⟨-, before, after, hsplit, hbefore⟩ := List.find?_eq_some_iff_append.mp hfound
  have hsorted : (before ++ c :: after).Pairwise (· < ·) := by
    rw [← hsplit, h.children_eq_filter hi]
    exact List.pairwise_lt_range.filter _
  have hmem : d ∈ before ++ c :: after := hsplit ▸ (h.mem_children_iff hi).mpr ⟨hd, hparent⟩
  rcases List.mem_append.mp hmem with hearly | hlate
  · simpa [hwanted] using hbefore d hearly
  · rcases List.mem_cons.mp hlate with rfl | hafter
    · exact Nat.le_refl d
    · exact Nat.le_of_lt (List.rel_of_pairwise_cons (List.pairwise_append.mp hsorted).2.1 hafter)

theorem Linked.depth_lt_of_mem_ancestors (h : t.Linked) (hi : i < t.size) (hj : j ∈ t.ancestors i) :
    t.depth j < t.depth i := by
  refine h.climb (P := fun i => j ∈ t.ancestors i → t.depth j < t.depth i) ?_ ?_ hi hj
  · intro hmem
    rw [h.ancestors_root (Nat.zero_lt_of_lt hi)] at hmem
    cases hmem
  · intro i p hi _ hparent hdepth ih hmem
    rw [h.ancestors_eq_cons hi hparent] at hmem
    rcases List.mem_cons.mp hmem with rfl | habove
    · omega
    · have := ih habove
      omega

end Arena

namespace Tree

variable {t : Tree} {s : Span} {i j m n : Nat}

/-! ### Covering -/

/-- A node covers what lies between its ends. An empty span is covered if its offset lies in the node or
at one of the ends. -/
def Covers (t : Tree) (i : Nat) (s : Span) : Prop :=
  (t.span i).start ≤ s.start ∧ s.stop ≤ (t.span i).stop

instance : Decidable (t.Covers i s) :=
  inferInstanceAs (Decidable (_ ∧ _))

theorem covers_iff (hs : s.start ≤ s.stop) : t.covers i s = true ↔ t.Covers i s := by
  rw [covers, Covers]
  split
  · next hempty =>
    rw [Span.isEmpty_iff] at hempty
    rw [Span.touches_iff, Nat.le_antisymm hs hempty]
  · rw [Span.contains_iff]

theorem covers_span (t : Tree) (i : Nat) : t.Covers i (t.span i) :=
  ⟨Nat.le_refl _, Nat.le_refl _⟩

theorem Covers.trans (hij : t.Covers i (t.span j)) (hj : t.Covers j s) : t.Covers i s :=
  ⟨Nat.le_trans hij.1 hj.1, Nat.le_trans hj.2 hij.2⟩

theorem Covers.length_le (h : t.Covers i s) : s.length ≤ t.length i :=
  Nat.le_trans (Nat.sub_le_sub_left h.1 _) (Nat.sub_le_sub_right h.2 _)

theorem Covers.span_eq (hcovers : t.Covers i s) (hs : s.start ≤ s.stop) (hle : t.length i ≤ s.length) :
    t.span i = s := by
  obtain ⟨hstart, hstop⟩ := hcovers
  rw [Arena.length, Span.length, Span.length] at hle
  obtain ⟨start, stop⟩ := s
  cases hspan : t.span i with
  | mk start' stop' =>
    simp only [hspan] at hstart hstop hle hs
    rw [Span.mk.injEq]
    omega

/-- A tree whose links agree and whose spans are nested, down from a root that spans the source. -/
structure WellNested (t : Tree) : Prop where
  linked : t.Linked
  size_pos : 0 < t.size
  span_root : t.span Arena.root = ⟨0, t.sourceLength⟩
  nested : t.Nested

theorem wellNested_of_build {grammar : String} {source : Text} {events : List Event}
    (hbuild : Tree.build grammar source events = .ok t) (hnested : t.Nested) : t.WellNested := by
  obtain ⟨-, hsource, hroot⟩ := Tree.build_spec hbuild
  rw [← hsource] at hroot
  exact ⟨Tree.linked_of_build hbuild, Tree.size_pos_of_build hbuild, hroot, hnested⟩

/-- A tree can be read off its events. -/
theorem exists_build_of_any {grammar : String} {source : Text} {events : List Event} {P : Tree → Prop}
    [DecidablePred P]
    (h : (Tree.build grammar source events).toOption.any (fun t => decide (P t)) = true) :
    ∃ t, Tree.build grammar source events = .ok t ∧ P t := by
  cases hbuild : Tree.build grammar source events with
  | error e =>
    rw [hbuild] at h
    cases h
  | ok t =>
    rw [hbuild] at h
    exact ⟨t, rfl, of_decide_eq_true h⟩

theorem WellNested.inBounds_span (h : t.WellNested) (hi : i < t.size) :
    t.inBounds (t.span i) = true :=
  h.nested.inBounds_span h.linked h.span_root hi

theorem WellNested.start_le_stop (h : t.WellNested) (hi : i < t.size) :
    (t.span i).start ≤ (t.span i).stop :=
  (inBounds_iff.mp (h.inBounds_span hi)).1

theorem WellNested.covers_of_parent? (h : t.WellNested) (hj : j < t.size)
    (hparent : t.parent? j = some i) : t.Covers i (t.span j) :=
  Span.contains_iff.mp (h.nested j hj i hparent).2

/-- A node covers the spans of all nodes below it. -/
theorem WellNested.covers_of_below (h : t.WellNested) (hi : i < t.size) (hj : j < t.size)
    (hbelow : i ≤ j ∧ j < t.subtreeEnd i) : t.Covers i (t.span j) := by
  refine h.linked.climb (P := fun j => i ≤ j ∧ j < t.subtreeEnd i → t.Covers i (t.span j)) ?_ ?_
    hj hbelow
  · rintro ⟨hle, -⟩
    obtain rfl : i = Arena.root := Nat.le_zero.mp hle
    exact t.covers_span Arena.root
  · intro j p hj hp hparent _ ih hbelow
    rcases (h.linked.below_iff hi hj).mp hbelow with rfl | ⟨q, hq, habove⟩
    · exact t.covers_span i
    · obtain rfl : p = q := Option.some.inj (hparent.symm.trans hq)
      exact (ih habove).trans (h.covers_of_parent? hj hparent)

/-! ### The way down -/

/-- The descent may come through a node: the node covers the span, and whatever covers it and comes
earlier lies above the node. -/
structure Entered (t : Tree) (s : Span) (i : Nat) : Prop where
  lt_size : i < t.size
  covers : t.Covers i s
  before : ∀ m < i, t.Covers m s → i < t.subtreeEnd m

/-- The descent may end at a node: nothing below the node covers the span either. -/
structure Innermost (t : Tree) (s : Span) (n : Nat) : Prop extends t.Entered s n where
  below : ∀ m, n < m → m < t.subtreeEnd n → ¬t.Covers m s

theorem Innermost.unique (hn : t.Innermost s n) (hm : t.Innermost s m) : n = m := by
  rcases Nat.lt_trichotomy n m with hlt | heq | hlt
  · exact absurd hm.covers (hn.below m hlt (hm.before n hlt hn.covers))
  · exact heq
  · exact absurd hn.covers (hm.below n hlt (hn.before m hlt hm.covers))

theorem WellNested.entered_root (h : t.WellNested) (hs : t.inBounds s = true) :
    t.Entered s Arena.root where
  lt_size := h.size_pos
  covers := by
    rw [Covers, h.span_root]
    exact ⟨Nat.zero_le _, (inBounds_iff.mp hs).2⟩
  before m hm := absurd hm (Nat.not_lt_zero m)

/-- **One step down**, to the first child that covers the span. -/
theorem Entered.child {c : Nat} (hin : t.Entered s i) (h : t.WellNested) (hs : s.start ≤ s.stop)
    (hfound : ((t.children i).find? fun c => t.covers c s) = some c) : t.Entered s c := by
  obtain ⟨hc, hparent⟩ :=
    (h.linked.mem_children_iff hin.lt_size).mp (List.mem_of_find?_eq_some hfound)
  obtain ⟨hic, hend⟩ := h.linked.below_of_parent? hin.lt_size hc hparent
  have hcovered : t.covers c s = true := List.find?_some (p := fun c => t.covers c s) hfound
  refine ⟨hc, (covers_iff hs).mp hcovered, fun m hmc hm => ?_⟩
  rcases Nat.lt_trichotomy m i with habove | rfl | hbelow
  · have hmi := hin.before m habove hm
    have hmsize : m < t.size := Nat.lt_trans habove hin.lt_size
    exact Nat.lt_of_lt_of_le hend (h.linked.subtreeEnd_le hmsize (Nat.le_of_lt habove) hmi)
  · exact hend
  · -- A covering node between the parent and the child would lie in an earlier child, which covers the
    -- span as well and would have been found first.
    have hmend : m < t.subtreeEnd i := Nat.lt_trans hmc hend
    obtain ⟨d, hd, hdparent, hdm, hmd⟩ := h.linked.exists_child_above hin.lt_size hbelow hmend
    have hcovers := (h.covers_of_below hd (Nat.lt_trans hmc hc) ⟨hdm, hmd⟩).trans hm
    have hfirst := h.linked.le_of_find?_children hin.lt_size hfound hd hdparent
      ((covers_iff hs).mpr hcovers)
    omega

/-- **The last step**, where no child covers the span. -/
theorem Entered.innermost (hin : t.Entered s i) (h : t.WellNested) (hs : s.start ≤ s.stop)
    (hnone : ((t.children i).find? fun c => t.covers c s) = none) : t.Innermost s i := by
  refine ⟨hin, fun m hlt hend hm => ?_⟩
  obtain ⟨d, hd, hparent, hdm, hmd⟩ := h.linked.exists_child_above hin.lt_size hlt hend
  have hm' : m < t.size := Nat.lt_of_lt_of_le hmd (h.linked.bounds hd).2
  have hcovers := (h.covers_of_below hd hm' ⟨hdm, hmd⟩).trans hm
  exact List.find?_eq_none.mp hnone d ((h.linked.mem_children_iff hin.lt_size).mpr ⟨hd, hparent⟩)
    ((covers_iff hs).mpr hcovers)

/-- Children come after their parents, so the steps left over are always enough. -/
theorem Entered.descend (hin : t.Entered s i) (h : t.WellNested) (hs : s.start ≤ s.stop) {fuel : Nat}
    (hfuel : t.size - i ≤ fuel) : t.Innermost s (t.descend s fuel i) := by
  induction fuel generalizing i with
  | zero =>
    have := hin.lt_size
    omega
  | succ fuel ih =>
    rw [Tree.descend]
    split
    · next hnone => exact hin.innermost h hs hnone
    · next c hfound =>
      have hchild := hin.child h hs hfound
      have hparent := (h.linked.mem_children_iff hin.lt_size).mp (List.mem_of_find?_eq_some hfound)
      have hlt := h.linked.parent_lt hparent.1 hparent.2
      exact ih hchild (by omega)

/-- **The descent finds the innermost node** of a span in bounds. -/
theorem WellNested.covering_eq_ok_iff (h : t.WellNested) :
    t.covering s = .ok n ↔ t.inBounds s = true ∧ t.Innermost s n := by
  rw [covering]
  by_cases hs : t.inBounds s = true
  · have hfound := (h.entered_root hs).descend h (inBounds_iff.mp hs).1 (Nat.sub_le t.size _)
    rw [if_pos hs]
    constructor
    · rintro ⟨⟩
      exact ⟨hs, hfound⟩
    · rintro ⟨-, hn⟩
      rw [hfound.unique hn]
  · simp [hs]

theorem WellNested.exists_innermost (h : t.WellNested) (hs : t.inBounds s = true) :
    ∃ n, t.covering s = .ok n ∧ t.Innermost s n :=
  have hfound : t.covering s = .ok (t.descend s t.size Arena.root) := if_pos hs
  ⟨_, hfound, (h.covering_eq_ok_iff.mp hfound).2⟩

/-! ### Siblings that are apart -/

/-- Every node ends at or before the start of its next sibling. -/
def SiblingsApart (t : Tree) : Prop :=
  ∀ i < t.size, ∀ j ∈ t.nextSibling? i, (t.span i).stop ≤ (t.span j).start

instance (t : Tree) : Decidable t.SiblingsApart :=
  inferInstanceAs (Decidable (∀ i < t.size, ∀ j ∈ t.nextSibling? i, _))

/-- Siblings that are apart from the next one are apart from all later ones. -/
theorem SiblingsApart.stop_le_start (hapart : t.SiblingsApart) (h : t.WellNested) {p : Nat}
    (hi : i < t.size) (hj : j < t.size) (hip : t.parent? i = some p) (hjp : t.parent? j = some p)
    (hlt : i < j) : (t.span i).stop ≤ (t.span j).start := by
  have hp : p < t.size := h.linked.parent_lt_size hi hip
  have hjend := (h.linked.below_of_parent? hp hj hjp).2
  induction hgap : j - i using Nat.strongRecOn generalizing i with
  | ind gap ih =>
    -- The sibling `j` does not lie below `i`, so it is the next sibling or comes after it.
    have hafter : t.subtreeEnd i ≤ j := by
      by_contra hbelow
      exact h.linked.parent?_ne_of_below hi hip hlt (by omega) hjp
    have hnext : t.nextSibling? i = some (t.subtreeEnd i) := by
      simp only [Arena.nextSibling?, hip]
      exact if_pos (by omega)
    have hstep := hapart i hi _ hnext
    rcases Nat.eq_or_lt_of_le hafter with heq | hmore
    · rwa [heq] at hstep
    · have hilt := (h.linked.bounds hi).1
      have hnextlt : t.subtreeEnd i < t.size := Nat.lt_trans hmore hj
      have hlater := ih (j - t.subtreeEnd i) (by omega) hnextlt
        (h.linked.parent?_subtreeEnd hi hip (by omega)) hmore rfl
      have := h.start_le_stop hnextlt
      omega

/-- **A node ends before everything after its subtree starts**, siblings or not. -/
theorem SiblingsApart.stop_le_start_of_after (hapart : t.SiblingsApart) (h : t.WellNested)
    (hi : i < t.size) (hj : j < t.size) (hafter : t.subtreeEnd i ≤ j) :
    (t.span i).stop ≤ (t.span j).start := by
  -- Going up from `i`, the node `j` stays after the subtree, until it lies below the next parent.
  refine h.linked.climb (P := fun i => t.subtreeEnd i ≤ j → (t.span i).stop ≤ (t.span j).start) ?_ ?_
    hi hafter
  · exact fun hend => absurd (h.linked.lt_subtreeEnd_root hj) (Nat.not_lt_of_le hend)
  · intro i p hi hp hparent _ ih hafter
    have hinside := h.covers_of_parent? hi hparent
    rcases Nat.lt_or_ge j (t.subtreeEnd p) with hbelow | hpast
    · have hij : i < j := Nat.lt_of_lt_of_le (h.linked.bounds hi).1 hafter
      have hpj : p < j := Nat.lt_trans (h.linked.parent_lt hi hparent) hij
      obtain ⟨d, hd, hdparent, hdj, hjd⟩ := h.linked.exists_child_above hp hpj hbelow
      have hid : i < d := by
        by_contra hle
        rcases Nat.eq_or_lt_of_le (Nat.le_of_not_lt hle) with rfl | hlt
        · exact absurd hjd (Nat.not_lt_of_le hafter)
        · exact h.linked.parent?_ne_of_below hd hdparent hlt (Nat.lt_trans hij hjd) hparent
      exact Nat.le_trans (hapart.stop_le_start h hi hd hparent hdparent hid)
        (h.covers_of_below hd hj ⟨hdj, hjd⟩).1
    · exact Nat.le_trans hinside.2 (ih hpast)

/-- **Nodes that cover a byte in common lie one below the other.** -/
theorem SiblingsApart.below_or_below (hapart : t.SiblingsApart) (h : t.WellNested)
    (hs : s.start < s.stop) (hn : n < t.size) (hm : m < t.size) (hcn : t.Covers n s)
    (hcm : t.Covers m s) : (n ≤ m ∧ m < t.subtreeEnd n) ∨ (m ≤ n ∧ n < t.subtreeEnd m) := by
  obtain ⟨hnstart, hnstop⟩ := hcn
  obtain ⟨hmstart, hmstop⟩ := hcm
  rcases Nat.le_total n m with hle | hle
  · refine .inl ⟨hle, Nat.lt_of_not_le fun hafter => ?_⟩
    have := hapart.stop_le_start_of_after h hn hm hafter
    omega
  · refine .inr ⟨hle, Nat.lt_of_not_le fun hafter => ?_⟩
    have := hapart.stop_le_start_of_after h hm hn hafter
    omega

/-! ### All covering nodes -/

theorem Innermost.cases (hn : t.Innermost s n) (h : t.WellNested) (hm : m < t.size)
    (hcovers : t.Covers m s) : m = n ∨ m ∈ t.ancestors n ∨ t.subtreeEnd n ≤ m := by
  rcases Nat.lt_trichotomy m n with hlt | heq | hlt
  · have habove := (h.linked.below_iff_mem_ancestors hm hn.lt_size).mp
      ⟨Nat.le_of_lt hlt, hn.before m hlt hcovers⟩
    exact .inr (.inl (habove.resolve_left (Nat.ne_of_lt hlt)))
  · exact .inl heq
  · refine .inr (.inr (Nat.le_of_not_lt fun hend => ?_))
    exact hn.below m hlt hend hcovers

theorem Innermost.eq_or_mem_ancestors (hn : t.Innermost s n) (h : t.WellNested)
    (hapart : t.SiblingsApart) (hs : s.start < s.stop) (hm : m < t.size) (hcovers : t.Covers m s) :
    m = n ∨ m ∈ t.ancestors n := by
  rcases hapart.below_or_below h hs hn.lt_size hm hn.covers hcovers with hbelow | habove
  · rcases Nat.eq_or_lt_of_le hbelow.1 with heq | hlt
    · exact .inl heq.symm
    · exact absurd hcovers (hn.below m hlt hbelow.2)
  · exact (h.linked.below_iff_mem_ancestors hm hn.lt_size).mp habove

theorem WellNested.covers_of_mem_ancestors (h : t.WellNested) (hi : i < t.size)
    (hj : j ∈ t.ancestors i) : t.Covers j (t.span i) := by
  have hjlt := h.linked.lt_of_mem_ancestors hi hj
  exact h.covers_of_below hjlt hi ((h.linked.below_iff_mem_ancestors hjlt hi).mpr (.inr hj))

/-- **What the descent finds.** Take any tree that some events build and whose spans are nested. For an
ordered span inside the source, the descent finds a node that covers the span, and no other node of its
subtree does. Every other covering node is an ancestor or comes after the whole subtree, so that the
earliest branch wins. If siblings are apart and the span holds a byte, then every other covering node is
an ancestor: the node is the only deepest one, and none is shorter. Any other span is out of bounds. -/
theorem covering_first_innermost {grammar : String} {source : Text} {events : List Event} {t : Tree}
    (hbuild : Tree.build grammar source events = .ok t) (hnested : t.Nested) (s : Span) :
    (s.start ≤ s.stop ∧ s.stop ≤ t.sourceLength →
      ∃ n < t.size, t.covering s = .ok n ∧ t.Covers n s ∧
        (∀ m ∈ t.subtree n, t.Covers m s → m = n) ∧
        (∀ m < t.size, t.Covers m s → m = n ∨ m ∈ t.ancestors n ∨ ∀ k ∈ t.subtree n, k < m) ∧
        (t.SiblingsApart → s.start < s.stop → ∀ m < t.size, t.Covers m s →
          (m = n ∨ m ∈ t.ancestors n ∧ t.depth m < t.depth n) ∧ t.length n ≤ t.length m)) ∧
    (¬(s.start ≤ s.stop ∧ s.stop ≤ t.sourceLength) → t.covering s = .error ⟨s, t.sourceLength⟩) := by
  have h := wellNested_of_build hbuild hnested
  constructor
  · intro hs
    obtain ⟨n, hcovering, hn⟩ := h.exists_innermost (inBounds_iff.mpr hs)
    refine ⟨n, hn.lt_size, hcovering, hn.covers, ?_, ?_, ?_⟩
    · intro m hmem hm
      rw [Arena.mem_subtree_iff] at hmem
      rcases Nat.eq_or_lt_of_le hmem.1 with heq | hlt
      · exact heq.symm
      · exact absurd hm (hn.below m hlt hmem.2)
    · intro m hmlt hm
      refine (hn.cases h hmlt hm).imp_right (Or.imp_right fun hafter k hk => ?_)
      exact Nat.lt_of_lt_of_le (Arena.mem_subtree_iff.mp hk).2 hafter
    · intro hapart hbyte m hmlt hm
      rcases hn.eq_or_mem_ancestors h hapart hbyte hmlt hm with rfl | habove
      · exact ⟨.inl rfl, Nat.le_refl _⟩
      · exact ⟨.inr ⟨habove, h.linked.depth_lt_of_mem_ancestors hn.lt_size habove⟩,
          (h.covers_of_mem_ancestors hn.lt_size habove).length_le⟩
  · intro hs
    exact if_neg (inBounds_iff.not.mpr hs)

/-- At offset 2 a branch and its only leaf end, an empty node stands, and another node starts. All of them
cover the caret, and the leaf is found. The byte after it is covered by the last node alone. -/
theorem covering_first_innermost_meeting_point :
    let spec (start stop : Nat) : NodeSpec := ⟨"node", ⟨start, stop⟩, true, false, none, none⟩
    let events : List Event :=
      [.enter (spec 0 4), .enter (spec 0 2), .leaf (spec 0 2), .leave, .leaf (spec 2 2), .leaf (spec 2 4),
        .leave]
    ∃ t, Tree.build "g" ['a', 'b', 'c', 'd'] events = .ok t ∧ t.Nested ∧ t.SiblingsApart ∧
      (t.covering (.caret 2) = .ok 2 ∧ t.Covers 3 (.caret 2) ∧ t.Covers 4 (.caret 2) ∧
        ∀ k ∈ t.subtree 2, k < 3) ∧
      (t.covering ⟨2, 3⟩ = .ok 4 ∧ ∀ m < t.size, t.Covers m ⟨2, 3⟩ → t.length 4 ≤ t.length m) ∧
      t.covering ⟨3, 7⟩ = .error ⟨⟨3, 7⟩, 4⟩ := by
  intro spec events
  obtain ⟨t, hbuild, hnested, hapart, hlength, hsize, hcaret, hthird, hfourth, habove, hbyte⟩ :
      ∃ t, Tree.build "g" ['a', 'b', 'c', 'd'] events = .ok t ∧ t.Nested ∧ t.SiblingsApart ∧
        t.sourceLength = 4 ∧ t.size = 5 ∧ t.covering (.caret 2) = .ok 2 ∧ t.Covers 3 (.caret 2) ∧
        t.Covers 4 (.caret 2) ∧ t.ancestors 2 = [1, 0] ∧ t.covering ⟨2, 3⟩ = .ok 4 :=
    exists_build_of_any (by decide +kernel)
  have hmeeting := covering_first_innermost hbuild hnested (.caret 2)
  have hafter := covering_first_innermost hbuild hnested ⟨2, 3⟩
  have houtside := covering_first_innermost hbuild hnested ⟨3, 7⟩
  rw [hlength] at hmeeting hafter houtside
  obtain ⟨n, -, hcovering, -, -, hothers, -⟩ := hmeeting.1 (by decide)
  obtain ⟨m, -, hcovering', -, -, -, hdeepest⟩ := hafter.1 (by decide)
  obtain rfl : n = 2 := Except.ok.inj (hcovering.symm.trans hcaret)
  obtain rfl : m = 4 := Except.ok.inj (hcovering'.symm.trans hbyte)
  refine ⟨t, hbuild, hnested, hapart, ⟨hcaret, hthird, hfourth, ?_⟩, ⟨hbyte, ?_⟩,
    houtside.2 (by decide)⟩
  · have hcases := hothers 3 (by omega) hthird
    rw [habove] at hcases
    simpa using hcases
  · exact fun k hk hcovers => (hdeepest hapart (by decide) k hk hcovers).2

/-! ### Covering again -/

/-- **The span of the node found leads back to it.** What covers the node covers what the node covers. -/
theorem Innermost.span (hn : t.Innermost s n) : t.Innermost (t.span n) n where
  lt_size := hn.lt_size
  covers := t.covers_span n
  before m hlt hm := hn.before m hlt (hm.trans hn.covers)
  below m hlt hend hm := hn.below m hlt hend (hm.trans hn.covers)

theorem WellNested.covering_span (h : t.WellNested) (hn : t.covering s = .ok n) :
    t.covering (t.span n) = .ok n := by
  have hinner := (h.covering_eq_ok_iff.mp hn).2
  exact h.covering_eq_ok_iff.mpr ⟨h.inBounds_span hinner.lt_size, hinner.span⟩

/-- A span that is its covering node's own. -/
def Snapped (t : Tree) (r : Span) : Prop :=
  ∃ i, t.covering r = .ok i ∧ t.span i = r

theorem mem_of_coveringEach {previous : Option Span} {selection : List Span} {nodes : List Nat}
    (h : t.coveringEach previous selection = .ok nodes) (hi : i ∈ nodes) :
    ∃ s ∈ selection, t.covering s = .ok i := by
  induction selection generalizing previous nodes with
  | nil =>
    cases h
    cases hi
  | cons s rest ih =>
    rw [coveringEach] at h
    split at h
    · obtain ⟨s', hmem, hcovering⟩ := ih h hi
      exact ⟨s', List.mem_cons_of_mem s hmem, hcovering⟩
    · split at h
      · cases h
      · next j hj =>
        split at h
        · cases h
        · next others hothers =>
          cases h
          rcases List.mem_cons.mp hi with rfl | hlater
          · exact ⟨s, List.mem_cons_self, hj⟩
          · obtain ⟨s', hmem, hcovering⟩ := ih hothers hlater
            exact ⟨s', List.mem_cons_of_mem s hmem, hcovering⟩

/-- Snapped spans stay, except those that repeat the one before. -/
theorem coveringEach_of_snapped {selection : List Span} (h : ∀ r ∈ selection, t.Snapped r)
    (previous : Span) :
    ∃ nodes, t.coveringEach (some previous) selection = .ok nodes ∧
      previous :: nodes.map t.span = selection.destutter' (· ≠ ·) previous := by
  induction selection generalizing previous with
  | nil => exact ⟨[], rfl, rfl⟩
  | cons r rest ih =>
    obtain ⟨⟨i, hcovering, hspan⟩, hrest⟩ := List.forall_mem_cons.mp h
    rw [coveringEach]
    by_cases heq : previous = r
    · rw [if_pos (congrArg some heq), List.destutter'_cons_neg _ (not_not.mpr heq)]
      exact ih hrest previous
    · obtain ⟨nodes, hnodes, hout⟩ := ih hrest r
      rw [if_neg fun hsame => heq (Option.some.inj hsame), hcovering, hnodes,
        List.destutter'_cons_pos _ heq, ← hout]
      exact ⟨i :: nodes, rfl, by simp [hspan]⟩

end Tree

namespace Command

open LiveSyntax.Tree

variable {t : Tree} {selection : List Span}

theorem run_node_of_snapped (h : ∀ r ∈ selection, t.Snapped r) :
    node.run t selection = .ok (selection.destutter (· ≠ ·)) := by
  cases selection with
  | nil => rfl
  | cons r rest =>
    obtain ⟨⟨i, hcovering, hspan⟩, hrest⟩ := List.forall_mem_cons.mp h
    obtain ⟨nodes, hnodes, hout⟩ := coveringEach_of_snapped hrest r
    rw [List.destutter_cons', ← hout]
    simp [run, nodesForSelection, coveringEach, hcovering, hnodes, hspan, Except.map]

theorem exists_run_node (h : t.WellNested) (hsel : ∀ s ∈ selection, t.inBounds s = true) :
    ∃ out, node.run t selection = .ok out ∧ ∀ r ∈ out, t.Snapped r := by
  obtain ⟨nodes, hnodes, -⟩ := exists_nodesForSelection h.linked h.size_pos hsel
  refine ⟨nodes.map t.span, by simp [run, hnodes, Except.map], fun r hr => ?_⟩
  obtain ⟨i, hi, rfl⟩ := List.mem_map.mp hr
  obtain ⟨s, -, hcovering⟩ := mem_of_coveringEach hnodes hi
  exact ⟨i, h.covering_span hcovering, rfl⟩

theorem runAll_replicate {command : Command} (h : command.run t selection = .ok selection) (k : Nat) :
    runAll t (List.replicate k command) selection = .ok (List.replicate k selection) := by
  induction k with
  | zero => rfl
  | succ k ih => simp [List.replicate_succ, runAll, h, ih]

/-- **Covering nodes cover themselves, and selecting nodes settles.** Take any tree that some events build
and whose spans are nested. The span of the node that covers an ordered span inside the source is covered
by the same node. So if each span of a selection is replaced by its node, and then again, the second time
only leaves out spans that repeat the one before, and after that nothing changes any more. -/
theorem node_settles {grammar : String} {source : Text} {events : List Event} {t : Tree}
    (hbuild : Tree.build grammar source events = .ok t) (hnested : t.Nested) :
    (∀ s : Span, s.start ≤ s.stop ∧ s.stop ≤ t.sourceLength →
      ∃ n < t.size, t.covering s = .ok n ∧ t.covering (t.span n) = .ok n) ∧
    ∀ selection : List Span, (∀ s ∈ selection, s.start ≤ s.stop ∧ s.stop ≤ t.sourceLength) →
      ∃ out, node.run t selection = .ok out ∧
        node.run t out = .ok (out.destutter (· ≠ ·)) ∧
        ∀ k, runAll t (List.replicate k node) (out.destutter (· ≠ ·)) =
          .ok (List.replicate k (out.destutter (· ≠ ·))) := by
  have h := wellNested_of_build hbuild hnested
  constructor
  · intro s hs
    obtain ⟨n, hcovering, hn⟩ := h.exists_innermost (inBounds_iff.mpr hs)
    exact ⟨n, hn.lt_size, hcovering, h.covering_span hcovering⟩
  · intro selection hsel
    have hvalid : ∀ s ∈ selection, t.inBounds s = true := fun s hs => inBounds_iff.mpr (hsel s hs)
    obtain ⟨out, hrun, hsnapped⟩ := exists_run_node h hvalid
    have hkept : ∀ r ∈ out.destutter (· ≠ ·), t.Snapped r :=
      fun r hr => hsnapped r ((List.destutter_sublist _ out).subset hr)
    have hagain := run_node_of_snapped hkept
    rw [List.destutter_idem] at hagain
    exact ⟨out, hrun, run_node_of_snapped hsnapped, runAll_replicate hagain⟩

/-- The caret where two nodes meet and the byte at the start lead to the same leaf, so the second step
leaves one of the two spans out. -/
theorem node_settles_two_ways :
    let spec (start stop : Nat) : NodeSpec := ⟨"node", ⟨start, stop⟩, true, false, none, none⟩
    let events : List Event :=
      [.enter (spec 0 4), .enter (spec 0 2), .leaf (spec 0 2), .leave, .leaf (spec 2 2), .leaf (spec 2 4),
        .leave]
    let selection : List Span := [.caret 2, ⟨0, 1⟩, ⟨2, 3⟩]
    ∃ t, Tree.build "g" ['a', 'b', 'c', 'd'] events = .ok t ∧ t.Nested ∧
      (∀ s ∈ selection, s.start ≤ s.stop ∧ s.stop ≤ t.sourceLength) ∧
      node.run t selection = .ok [⟨0, 2⟩, ⟨0, 2⟩, ⟨2, 4⟩] ∧
      node.run t [⟨0, 2⟩, ⟨0, 2⟩, ⟨2, 4⟩] = .ok [⟨0, 2⟩, ⟨2, 4⟩] ∧
      ∀ k, runAll t (List.replicate k node) [⟨0, 2⟩, ⟨2, 4⟩] =
        .ok (List.replicate k [⟨0, 2⟩, ⟨2, 4⟩]) := by
  intro spec events selection
  obtain ⟨t, hbuild, hnested, hsel, hfirst⟩ :
      ∃ t, Tree.build "g" ['a', 'b', 'c', 'd'] events = .ok t ∧ t.Nested ∧
        (∀ s ∈ selection, s.start ≤ s.stop ∧ s.stop ≤ t.sourceLength) ∧
        node.run t selection = .ok [⟨0, 2⟩, ⟨0, 2⟩, ⟨2, 4⟩] :=
    exists_build_of_any (by decide +kernel)
  obtain ⟨out, hrun, hagain, hsettled⟩ := (node_settles hbuild hnested).2 selection hsel
  obtain rfl : out = [⟨0, 2⟩, ⟨0, 2⟩, ⟨2, 4⟩] := Except.ok.inj (hrun.symm.trans hfirst)
  exact ⟨t, hbuild, hnested, hsel, hrun, hagain, hsettled⟩

end Command

end LiveSyntax
