import LiveSyntax.Proofs.SiblingMoves

/-!
# Cousins

There are two ways to the nodes as deep as a given one. `Tree.cousins` climbs to a common ancestor and comes
down again level by level, from the children of one level to the next. `Tree.cousinsMatching` runs through the
whole table and looks at each node alone. A subtree is its top followed by the subtrees of the children, one
after the other, so a level read off from left to right is the subtree in pre-order with all other depths left
out, and the two ways agree.

Nodes of the same depth are never one below the other. If no node is empty and siblings are apart, they start
at different bytes, in the order of the table. So the next match by start byte is the next one in the list of
all matches, and since to look alike is to have the same depth, text and kinds, every match has the same list.

## Main definitions

- `Tree.alike`: all nodes that look like a node.

## Main results

- `Tree.levelBelow_singleton`: a level below a node, as a part of its subtree.
- `Tree.cousins_eq_depth_scan`: the two ways agree.
- `Tree.pick_eq_step`: the next and the previous match are steps round all matches.
- `Tree.cousins_turn_round`: the two steps undo each other.
-/

namespace LiveSyntax

namespace Arena

variable {t : Arena} {i j p a : Nat}

theorem Linked.depth_of_parent? (h : t.Linked) (hi : i < t.size) (hparent : t.parent? i = some p) :
    t.depth i = t.depth p + 1 := by
  obtain ⟨q, hq, -, hdepth⟩ := h.parent (Nat.zero_lt_of_lt (h.parent_lt hi hparent)) hi
  obtain rfl : p = q := Option.some.inj (hparent.symm.trans hq)
  exact hdepth

theorem Linked.depth_lt_of_below (h : t.Linked) (hi : i < t.size) (hij : i < j)
    (hj : j < t.subtreeEnd i) : t.depth i < t.depth j := by
  have hjlt : j < t.size := Nat.lt_of_lt_of_le hj (h.bounds hi).2
  have habove := (h.below_iff_mem_ancestors hi hjlt).mp ⟨Nat.le_of_lt hij, hj⟩
  exact h.depth_lt_of_mem_ancestors hjlt (habove.resolve_left (Nat.ne_of_lt hij))

theorem Linked.depth_of_ancestor? (h : t.Linked) {levels : Nat} (hi : i < t.size)
    (hancestor : t.ancestor? i levels = some a) : a < t.size ∧ t.depth a + levels = t.depth i := by
  induction levels generalizing i with
  | zero =>
    obtain rfl : i = a := Option.some.inj hancestor
    exact ⟨hi, rfl⟩
  | succ levels ih =>
    rw [ancestor?] at hancestor
    split at hancestor
    · cases hancestor
    · next p hparent =>
      have hdepth := h.depth_of_parent? hi hparent
      obtain ⟨ha, heq⟩ := ih (h.parent_lt_size hi hparent) hancestor
      exact ⟨ha, by omega⟩

/-- From one sibling on, the subtrees of the siblings fill the rest of their parent's subtree. -/
theorem Linked.flatMap_subtree_siblingsUpTo (h : t.Linked) (hp : p < t.size) {fuel next : Nat}
    (hafter : p < next) (hfuel : t.subtreeEnd p - next ≤ fuel) :
    (t.siblingsUpTo fuel next (t.subtreeEnd p)).flatMap t.subtree =
      List.range' next (t.subtreeEnd p - next) := by
  induction fuel generalizing next with
  | zero => rw [Nat.le_zero.mp hfuel, siblingsUpTo, List.flatMap_nil, List.range'_zero]
  | succ fuel ih =>
    rw [siblingsUpTo]
    by_cases hlt : next < t.subtreeEnd p
    · have hbounds := h.bounds (Nat.lt_of_lt_of_le hlt (h.bounds hp).2)
      have hinside := h.subtreeEnd_le hp (Nat.le_of_lt hafter) hlt
      rw [if_pos hlt, List.flatMap_cons, ih (by omega) (by omega), subtree,
        ← range'_cut (Nat.le_of_lt hbounds.1) hinside]
    · rw [if_neg hlt, Nat.sub_eq_zero_of_le (Nat.le_of_not_lt hlt), List.flatMap_nil, List.range'_zero]

theorem Linked.flatMap_subtree_children (h : t.Linked) (hi : i < t.size) :
    (t.children i).flatMap t.subtree = List.range' (i + 1) (t.subtreeEnd i - (i + 1)) := by
  rw [children, h.flatMap_subtree_siblingsUpTo hi (Nat.lt_add_one i) (Nat.le_refl _)]

/-- **A subtree** is its top and the subtrees of the children, from left to right. -/
theorem Linked.subtree_eq_cons (h : t.Linked) (hi : i < t.size) :
    t.subtree i = i :: (t.children i).flatMap t.subtree := by
  have hlt := (h.bounds hi).1
  rw [h.flatMap_subtree_children hi, subtree, ← List.range'_succ]
  congr 1
  omega

theorem Linked.subtree_root (h : t.Linked) (hsize : 0 < t.size) : t.subtree root = t.indices := by
  have hlast := h.lt_subtreeEnd_root (Nat.sub_lt hsize Nat.one_pos)
  have hend := (h.bounds hsize).2
  rw [subtree, indices, List.range_eq_range', root] at *
  congr 1
  omega

end Arena

namespace Tree

variable {t : Tree} {n m a place : Nat}

/-! ### Level by level -/

theorem levelBelow_eq_flatMap (tops : List Nat) (generations : Nat) :
    t.levelBelow tops generations = tops.flatMap fun a => t.levelBelow [a] generations := by
  induction generations generalizing tops with
  | zero => simp [levelBelow]
  | succ generations ih =>
    have hone : ∀ a, t.levelBelow [a] (generations + 1) =
        (t.children a).flatMap fun c => t.levelBelow [c] generations := by
      intro a
      rw [levelBelow, List.flatMap_singleton, ih]
    simp only [hone]
    rw [levelBelow, ih, List.flatMap_assoc]

/-- **A level below a node** is the part of its subtree that is so much deeper, in pre-order. -/
theorem levelBelow_singleton (h : t.Linked) (ha : a < t.size) (generations : Nat) :
    t.levelBelow [a] generations = (t.subtree a).filter fun j => t.depth j = t.depth a + generations := by
  induction generations generalizing a with
  | zero =>
    have hdeeper : ((t.children a).flatMap t.subtree).filter (fun j => t.depth j = t.depth a + 0) = [] := by
      refine List.filter_eq_nil_iff.mpr fun j hj => ?_
      rw [h.flatMap_subtree_children ha, List.mem_range'_1] at hj
      have hdepth := h.depth_lt_of_below ha (show a < j by omega) (by omega)
      simpa using Nat.ne_of_gt hdepth
    rw [levelBelow, h.subtree_eq_cons ha, List.filter_cons_of_pos (by simp), hdeeper]
  | succ generations ih =>
    have hchild : ∀ c ∈ t.children a, t.levelBelow [c] generations =
        (t.subtree c).filter fun j => t.depth j = t.depth a + (generations + 1) := by
      intro c hc
      obtain ⟨hclt, hparent⟩ := (h.mem_children_iff ha).mp hc
      rw [ih hclt, h.depth_of_parent? hclt hparent, Nat.add_assoc, Nat.add_comm 1]
    rw [levelBelow, List.flatMap_singleton, levelBelow_eq_flatMap, List.flatMap_congr hchild,
      ← List.filter_flatMap, h.subtree_eq_cons ha, List.filter_cons_of_neg (by simp)]

theorem cousins_of_ancestor? (h : t.Linked) (hn : n < t.size) {generations : Nat}
    (hpos : generations ≠ 0) (hancestor : t.ancestor? n generations = some a) :
    t.cousins n generations = ((t.subtree a).filter fun j => t.depth j = t.depth n).filter (· != n) := by
  obtain ⟨ha, hdepth⟩ := h.depth_of_ancestor? hn hancestor
  simp only [cousins, if_neg hpos, hancestor]
  rw [levelBelow_singleton h ha, hdepth]

theorem cousinsMatching_depth (hroot : n ≠ Arena.root) (limit : Option Nat) :
    t.cousinsMatching n ⟨false, false, true, limit, .all⟩ =
      t.indices.filter fun j => t.depth j = t.depth n := by
  rw [cousinsMatching, if_neg hroot, pick]
  refine List.filter_congr fun j _ => ?_
  simp [resembles, beq_eq_decide]

/-- **Level by level is the scan by depth.** Take any tree that some events build, any node of it and any
number of generations. No generation, or more than there are nodes above, gives no cousins. Otherwise the
cousins are the other nodes of the node's depth in the subtree of the ancestor so many generations up, in
pre-order. One generation up these are the other siblings; as many as the node is deep, they are all other
nodes that a scan of the whole tree for that depth finds. -/
theorem cousins_eq_depth_scan {grammar : String} {source : Text} {events : List Event} {t : Tree}
    (hbuild : Tree.build grammar source events = .ok t) {n : Nat} (hn : n < t.size)
    (generations : Nat) :
    (generations = 0 ∨ t.depth n < generations → t.cousins n generations = []) ∧
    (generations ≠ 0 → generations ≤ t.depth n → ∃ a, t.ancestor? n generations = some a ∧
      t.cousins n generations =
        ((t.subtree a).filter fun j => t.depth j = t.depth n).filter (· != n)) ∧
    (n ≠ Arena.root → t.cousins n 1 = (t.siblings n).filter (· != n)) ∧
    (n ≠ Arena.root → ∀ limit,
      (t.cousinsMatching n ⟨false, false, true, limit, .all⟩).filter (· != n) =
        t.cousins n (t.depth n)) := by
  have h := Tree.linked_of_build hbuild
  have hsome := h.isSome_ancestor?_iff hn generations
  refine ⟨?_, ?_, ?_, ?_⟩
  · rintro (rfl | hdeep)
    · rfl
    · have hnone : t.ancestor? n generations = none :=
        Option.not_isSome_iff_eq_none.mp fun h => absurd (hsome.mp h) (Nat.not_le_of_lt hdeep)
      simp only [cousins, hnone, ite_self]
  · intro hpos hle
    obtain ⟨a, ha⟩ := Option.isSome_iff_exists.mp (hsome.mpr hle)
    exact ⟨a, ha, cousins_of_ancestor? h hn hpos ha⟩
  · intro hroot
    obtain ⟨p, hparent, -, -⟩ := h.parent (Nat.pos_of_ne_zero hroot) hn
    simp [cousins, siblings, Arena.ancestor?, hparent, levelBelow]
  · intro hroot limit
    have hpos : t.depth n ≠ 0 := Nat.ne_zero_of_lt (h.depth_pos hn hroot)
    rw [cousinsMatching_depth hroot, cousins_of_ancestor? h hn hpos (h.ancestor?_depth hn),
      h.subtree_root (Nat.zero_lt_of_lt hn)]

/-- Branches of different height: of the parent's siblings one is a leaf and one has a cousin below it, and
another cousin lies in the second half of the tree. -/
theorem cousins_eq_depth_scan_uneven_branches :
    let spec (start stop : Nat) : NodeSpec := ⟨"node", ⟨start, stop⟩, true, false, none, none⟩
    let events : List Event :=
      [.enter (spec 0 6), .enter (spec 0 4), .enter (spec 0 2), .leaf (spec 0 1), .leaf (spec 1 2), .leave,
        .leaf (spec 2 3), .enter (spec 3 4), .leaf (spec 3 4), .leave, .leave, .enter (spec 4 6),
        .enter (spec 4 6), .leaf (spec 5 6), .leave, .leave, .leave]
    ∃ t, Tree.build "g" ['a', 'b', 'c', 'd', 'e', 'f'] events = .ok t ∧ 3 < t.size ∧
      t.cousins 3 0 = [] ∧ t.siblings 3 = [3, 4] ∧ t.cousins 3 1 = [4] ∧ t.ancestor? 3 2 = some 1 ∧
      t.cousins 3 2 = [4, 7] ∧ t.cousins 3 3 = [4, 7, 10] ∧ t.cousins 3 4 = [] := by
  intro spec events
  obtain ⟨t, hbuild, hsize, hdepth, hsiblings, hancestor, hlevel, hall⟩ :
      ∃ t, Tree.build "g" ['a', 'b', 'c', 'd', 'e', 'f'] events = .ok t ∧ 3 < t.size ∧ t.depth 3 = 3 ∧
        t.siblings 3 = [3, 4] ∧ t.ancestor? 3 2 = some 1 ∧
        (t.subtree 1).filter (fun j => t.depth j = t.depth 3) = [3, 4, 7] ∧
        t.cousinsMatching 3 ⟨false, false, true, none, .all⟩ = [3, 4, 7, 10] :=
    exists_build_of_any (by decide +kernel)
  obtain ⟨hnone, -, hnear, hwide⟩ := cousins_eq_depth_scan hbuild hsize 0
  obtain ⟨a, ha, hsecond⟩ := (cousins_eq_depth_scan hbuild hsize 2).2.1 (by decide) (by omega)
  have hfourth := (cousins_eq_depth_scan hbuild hsize 4).1 (.inr (by omega))
  have hfirst := hnear (by decide)
  have hthird := hwide (by decide) none
  obtain rfl : a = 1 := Option.some.inj (ha.symm.trans hancestor)
  rw [hsiblings] at hfirst
  rw [hlevel] at hsecond
  rw [hall, hdepth] at hthird
  exact ⟨t, hbuild, hsize, hnone (.inl rfl), hsiblings, hfirst, hancestor, hsecond, hthird.symm, hfourth⟩

/-! ### Nodes that look alike -/

section Matching

variable {filter : CousinFilter}

/-- If two values agree where that is asked for, then a third one agrees with both or with none. -/
theorem agrees_congr {α : Type} [BEq α] [LawfulBEq α] {asked : Bool} {x y : α}
    (h : (!asked || y == x) = true) (z : α) : (!asked || z == y) = (!asked || z == x) := by
  cases asked with
  | false => rfl
  | true =>
    obtain rfl : y = x := by simpa using h
    rfl

theorem resembles_self (t : Tree) (filter : CousinFilter) (n : Nat) : t.resembles filter n n = true := by
  simp [resembles]

/-- **Nodes that look alike** look like the same nodes. -/
theorem resembles_congr (h : t.resembles filter n m = true) : t.resembles filter m = t.resembles filter n := by
  rw [resembles, Bool.and_eq_true, Bool.and_eq_true] at h
  obtain ⟨⟨hdepth, htext⟩, hkinds⟩ := h
  funext candidate
  rw [resembles, resembles, agrees_congr hdepth, agrees_congr htext, agrees_congr hkinds]

theorem depth_of_resembles (hdepth : filter.sameDepth = true) (h : t.resembles filter n m = true) :
    t.depth m = t.depth n := by
  rw [resembles, Bool.and_eq_true, Bool.and_eq_true] at h
  simpa [hdepth] using h.1.1

/-- All nodes that look like a node, in pre-order. -/
def alike (t : Tree) (filter : CousinFilter) (n : Nat) : List Nat :=
  t.indices.filter (t.resembles filter n)

theorem mem_alike : m ∈ t.alike filter n ↔ m < t.size ∧ t.resembles filter n m = true := by
  rw [alike, List.mem_filter, Arena.indices, List.mem_range]

theorem cousinsMatching_eq_pick (hroot : n ≠ Arena.root) (which : Which) :
    t.cousinsMatching n { filter with which := which } =
      t.pick which (t.span n).start (t.alike filter n) := by
  rw [cousinsMatching, if_neg hroot]
  rfl

/-- Whatever looks like a node, and is as deep, is not the root either and has the same list. -/
theorem alike_of_mem (h : t.Linked) (hn : n < t.size) (hroot : n ≠ Arena.root)
    (hdepth : filter.sameDepth = true) (hm : m ∈ t.alike filter n) :
    m < t.size ∧ m ≠ Arena.root ∧ t.alike filter m = t.alike filter n := by
  obtain ⟨hmlt, halike⟩ := mem_alike.mp hm
  refine ⟨hmlt, ?_, by rw [alike, alike, resembles_congr halike]⟩
  rintro rfl
  have hpos := h.depth_pos hn hroot
  rw [← depth_of_resembles hdepth halike, (h.root hmlt).2] at hpos
  exact Nat.lt_irrefl 0 hpos

/-- Of two nodes of the same depth, the later one starts at a later byte. -/
theorem SiblingsApart.start_lt_start (hapart : t.SiblingsApart) (h : t.WellNested) (hfilled : t.Filled)
    (hroot : n ≠ Arena.root) (hm : m < t.size) (hlt : n < m) (hdepth : t.depth m = t.depth n) :
    (t.span n).start < (t.span m).start := by
  have hn : n < t.size := Nat.lt_trans hlt hm
  have hafter : t.subtreeEnd n ≤ m := by
    by_contra hbelow
    have := h.linked.depth_lt_of_below hn hlt (Nat.lt_of_not_le hbelow)
    omega
  exact Nat.lt_of_lt_of_le (hfilled n hn hroot) (hapart.stop_le_start_of_after h hn hm hafter)

theorem pairwise_start_alike (h : t.WellNested) (hapart : t.SiblingsApart) (hfilled : t.Filled)
    (hn : n < t.size) (hroot : n ≠ Arena.root) (hdepth : filter.sameDepth = true) :
    (t.alike filter n).Pairwise fun i j => (t.span i).start < (t.span j).start := by
  refine List.Pairwise.imp_of_mem ?_ (List.pairwise_lt_range.filter _)
  intro i j hi hj hlt
  obtain ⟨hjlt, hjalike⟩ := mem_alike.mp hj
  have hid := depth_of_resembles hdepth (mem_alike.mp hi).2
  have hjd := depth_of_resembles hdepth hjalike
  obtain ⟨-, hiroot, -⟩ := alike_of_mem h.linked hn hroot hdepth hi
  exact hapart.start_lt_start h hfilled hiroot hjlt hlt (hjd.trans hid.symm)

/-! ### The next and the previous match -/

/-- In a list in some strict order, what comes first after an element is what stands next to it. -/
theorem find?_eq_getElem?_succ (after : Nat → Nat → Bool)
    (hasymm : ∀ i j, after i j = true → ¬after j i = true) {l : List Nat}
    (hsorted : l.Pairwise fun i j => after i j = true) (hplace : l[place]? = some n) :
    l.find? (after n) = l[place + 1]? := by
  induction l generalizing place with
  | nil => simp at hplace
  | cons x l ih =>
    rw [List.pairwise_cons] at hsorted
    rw [List.getElem?_cons_succ]
    cases place with
    | zero =>
      obtain rfl : x = n := by simpa using hplace
      rw [List.find?_cons_of_neg fun hself => hasymm x x hself hself]
      cases l with
      | nil => rfl
      | cons y l => rw [List.find?_cons_of_pos (hsorted.1 y List.mem_cons_self), List.getElem?_cons_zero]
    | succ place =>
      rw [List.getElem?_cons_succ] at hplace
      rw [List.find?_cons_of_neg (hasymm x n (hsorted.1 n (List.mem_of_getElem? hplace)))]
      exact ih hsorted.2 hplace

/-- **The next and the previous match by start byte** stand next to the node in the list of all matches, where
the ends of the list meet. -/
theorem pick_eq_step {l : List Nat}
    (hsorted : l.Pairwise fun i j => (t.span i).start < (t.span j).start)
    (hplace : l[place]? = some n) (forward : Bool) :
    t.pick (if forward then .next else .previous) (t.span n).start l =
      (l[cyclicStep l.length place forward]?).toList := by
  have hlt : place < l.length := (List.getElem?_eq_some_iff.mp hplace).1
  cases forward with
  | true =>
    have hnext : (l.find? fun c => (t.span n).start < (t.span c).start) = l[place + 1]? :=
      find?_eq_getElem?_succ (fun i j => (t.span i).start < (t.span j).start)
        (by simp only [decide_eq_true_eq]; omega) (by simpa using hsorted) hplace
    rw [if_pos rfl, pick, hnext, cyclicStep_forward hlt]
    split
    · next hmore => rw [List.getElem?_eq_getElem hmore, Option.some_or]
    · next hlast => rw [List.getElem?_eq_none (Nat.le_of_not_lt hlast), Option.none_or,
        List.head?_eq_getElem?]
  | false =>
    have hreverse : l.reverse[l.length - 1 - place]? = some n := by
      rw [List.getElem?_reverse (by omega), show l.length - 1 - (l.length - 1 - place) = place by omega,
        hplace]
    have hprevious : (l.reverse.find? fun c => (t.span c).start < (t.span n).start) =
        l.reverse[l.length - 1 - place + 1]? :=
      find?_eq_getElem?_succ (fun i j => (t.span j).start < (t.span i).start)
        (by simp only [decide_eq_true_eq]; omega)
        (by simpa [List.pairwise_reverse] using hsorted) hreverse
    rw [if_neg Bool.false_ne_true, pick, hprevious, cyclicStep_backward hlt]
    split
    · next hpos =>
      rw [List.getElem?_reverse (by omega),
        show l.length - 1 - (l.length - 1 - place + 1) = place - 1 by omega,
        List.getElem?_eq_getElem (by omega), Option.some_or]
    · next hfirst =>
      rw [List.getElem?_eq_none (by rw [List.length_reverse]; omega), Option.none_or,
        List.getLast?_eq_getElem?]

/-- A step to the next or to the previous match arrives at one, and the other step returns. -/
theorem exists_cousin (h : t.WellNested) (hapart : t.SiblingsApart) (hfilled : t.Filled)
    (hn : n < t.size) (hroot : n ≠ Arena.root) (hdepth : filter.sameDepth = true)
    (hplace : (t.alike filter n)[place]? = some n) (forward : Bool) :
    ∃ m, (t.alike filter n)[cyclicStep (t.alike filter n).length place forward]? = some m ∧
      t.cousinsMatching n { filter with which := if forward then .next else .previous } = [m] ∧
      t.cousinsMatching m { filter with which := if !forward then .next else .previous } = [n] := by
  have hlt : place < (t.alike filter n).length := (List.getElem?_eq_some_iff.mp hplace).1
  have hm := List.getElem?_eq_getElem (cyclicStep_lt hlt forward)
  have hsorted := pairwise_start_alike h hapart hfilled hn hroot hdepth
  obtain ⟨-, hmroot, hsame⟩ := alike_of_mem h.linked hn hroot hdepth (List.mem_of_getElem? hm)
  refine ⟨_, hm, ?_, ?_⟩
  · rw [cousinsMatching_eq_pick hroot, pick_eq_step hsorted hplace, hm, Option.toList_some]
  · rw [cousinsMatching_eq_pick hmroot, hsame, pick_eq_step hsorted hm, cyclicStep_not hlt, hplace,
      Option.toList_some]

end Matching

/-- **Next and previous cousins go round and round.** Take any tree that some events build, whose spans are
nested and hold a byte below the root, and whose siblings are apart. Take any node other than the root and any
filter that asks for the same depth. The list of all cousins contains the node, their start bytes increase
along it, and every node of the list has the same list. The next cousin is the one after the node in the list
and the previous one the one before it, where the first one comes after the last one. The previous cousin of
the next one and the next cousin of the previous one are the node. -/
theorem cousins_turn_round {grammar : String} {source : Text} {events : List Event} {t : Tree}
    (hbuild : Tree.build grammar source events = .ok t) (hnested : t.Nested)
    (hapart : t.SiblingsApart) (hfilled : t.Filled) {n : Nat} (hn : n < t.size)
    (hroot : n ≠ Arena.root) (filter : CousinFilter) (hdepth : filter.sameDepth = true) :
    ∃ all place, t.cousinsMatching n { filter with which := .all } = all ∧
      all[place]? = some n ∧
      all.Pairwise (fun i j => (t.span i).start < (t.span j).start) ∧
      (∀ m ∈ all, t.cousinsMatching m { filter with which := .all } = all) ∧
      (∃ m, all[(place + 1) % all.length]? = some m ∧
        t.cousinsMatching n { filter with which := .next } = [m] ∧
        t.cousinsMatching m { filter with which := .previous } = [n]) ∧
      ∃ m, all[(place + all.length - 1) % all.length]? = some m ∧
        t.cousinsMatching n { filter with which := .previous } = [m] ∧
        t.cousinsMatching m { filter with which := .next } = [n] := by
  have h := wellNested_of_build hbuild hnested
  have hself : n ∈ t.alike filter n := mem_alike.mpr ⟨hn, t.resembles_self filter n⟩
  obtain ⟨place, hplace⟩ := List.mem_iff_getElem?.mp hself
  have hcousin := exists_cousin h hapart hfilled hn hroot hdepth hplace
  refine ⟨t.alike filter n, place, cousinsMatching_eq_pick hroot .all, hplace,
    pairwise_start_alike h hapart hfilled hn hroot hdepth, ?_, hcousin true, hcousin false⟩
  intro m hm
  obtain ⟨-, hmroot, hsame⟩ := alike_of_mem h.linked hn hroot hdepth hm
  rw [cousinsMatching_eq_pick hmroot, hsame]
  rfl

/-- Two pairs, with names in three of the four places. The last name comes before the first one and after the
second one; the number in the last place is as deep but does not match. -/
theorem cousins_turn_round_three_names :
    let spec (kind : String) (start stop : Nat) : NodeSpec :=
      ⟨kind, ⟨start, stop⟩, true, false, none, none⟩
    let events : List Event :=
      [.enter (spec "list" 0 6), .enter (spec "pair" 0 3), .leaf (spec "name" 0 1), .leaf (spec "name" 2 3),
        .leave, .enter (spec "pair" 3 6), .leaf (spec "name" 3 4), .leaf (spec "number" 5 6), .leave, .leave]
    let filter (which : Which) : CousinFilter := ⟨true, false, true, none, which⟩
    ∃ t, Tree.build "g" ['a', ' ', 'b', 'c', ' ', '1'] events = .ok t ∧ t.Nested ∧ t.SiblingsApart ∧
      t.Filled ∧ 5 < t.size ∧ t.cousinsMatching 5 (filter .all) = [2, 3, 5] ∧
      t.cousinsMatching 2 (filter .all) = [2, 3, 5] ∧
      t.cousinsMatching 5 (filter .next) = [2] ∧ t.cousinsMatching 2 (filter .previous) = [5] ∧
      t.cousinsMatching 5 (filter .previous) = [3] ∧ t.cousinsMatching 3 (filter .next) = [5] := by
  intro spec events filter
  obtain ⟨t, hbuild, hnested, hapart, hfilled, hsize, hfound⟩ :
      ∃ t, Tree.build "g" ['a', ' ', 'b', 'c', ' ', '1'] events = .ok t ∧ t.Nested ∧ t.SiblingsApart ∧
        t.Filled ∧ 5 < t.size ∧ t.cousinsMatching 5 (filter .all) = [2, 3, 5] :=
    exists_build_of_any (by decide +kernel)
  obtain ⟨all, place, hall, hplace, -, hsame, ⟨m, hm, hnext, hback⟩, k, hk, hprevious, hforth⟩ :=
    cousins_turn_round hbuild hnested hapart hfilled hsize (by decide) (filter .all) rfl
  obtain rfl : all = [2, 3, 5] := hall.symm.trans hfound
  have honly : ∀ i < 3, [2, 3, 5][i]? = some 5 → i = 2 := by decide
  obtain rfl := honly place (List.getElem?_eq_some_iff.mp hplace).1 hplace
  obtain rfl : 2 = m := Option.some.inj hm
  obtain rfl : 3 = k := Option.some.inj hk
  exact ⟨t, hbuild, hnested, hapart, hfilled, hsize, hfound, hsame 2 (by simp), hnext, hback, hprevious,
    hforth⟩

end Tree

end LiveSyntax
