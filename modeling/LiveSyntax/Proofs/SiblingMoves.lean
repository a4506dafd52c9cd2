import LiveSyntax.Proofs.CoveringNodes

/-!
# Moving among siblings

`Tree.siblingForSelection` is told a span and not a node. It looks for the covering node, which is the
lowest one with this span, climbs as long as there is only one child, and takes the neighbour there. If no
node is empty and siblings are apart, the climb undoes the descent: a node whose child has the same span has
no room for another child, so the way back up leads through only children. It stops at the node that the span
was taken from, provided that this one has siblings or hangs directly below the root.

So a move is a step round the children of the parent, and moves can be undone and come back after one round.

## Main definitions

- `Tree.Filled`: every node below the root holds a byte.

## Main results

- `Tree.climbOnlyChildren_eq`: the climb comes back to where the descent set out from.
- `Tree.siblingForSelection_span`: a move is a step round the children.
- `Tree.siblings_turn_round`: moves can be undone, and visit every child once in a round.
-/

namespace LiveSyntax.Tree

/-! ### Steps round a circle -/

section Circle

variable {count place : Nat}

theorem cyclicStep_forward (h : place < count) :
    cyclicStep count place true = if place + 1 < count then place + 1 else 0 := by
  rw [cyclicStep, if_pos rfl]
  split
  · next hlt => exact Nat.mod_eq_of_lt hlt
  · next hlast => rw [show place + 1 = count by omega, Nat.mod_self]

theorem cyclicStep_backward (h : place < count) :
    cyclicStep count place false = if 0 < place then place - 1 else count - 1 := by
  rw [cyclicStep, if_neg Bool.false_ne_true]
  split
  · next hpos => rw [show place + count - 1 = place - 1 + count by omega, Nat.add_mod_right,
      Nat.mod_eq_of_lt (by omega)]
  · next hfirst => rw [show place + count - 1 = count - 1 by omega, Nat.mod_eq_of_lt (by omega)]

theorem cyclicStep_lt (h : place < count) (forward : Bool) : cyclicStep count place forward < count := by
  cases forward with
  | true =>
    rw [cyclicStep_forward h]
    split <;> omega
  | false =>
    rw [cyclicStep_backward h]
    split <;> omega

/-- **A step and the step back** lead to the same place. -/
theorem cyclicStep_not (h : place < count) (forward : Bool) :
    cyclicStep count (cyclicStep count place forward) (!forward) = place := by
  have hlt := cyclicStep_lt h forward
  cases forward with
  | true =>
    rw [Bool.not_true, cyclicStep_backward hlt, cyclicStep_forward h]
    split <;> split <;> omega
  | false =>
    rw [Bool.not_false, cyclicStep_forward hlt, cyclicStep_backward h]
    split <;> split <;> omega

/-- In one round from any place on, every place comes up once. -/
theorem existsUnique_steps (h : place < count) {target : Nat} (htarget : target < count) :
    ∃! j, j < count ∧ (place + j) % count = target := by
  have hwrap : ∀ j < count, (place + j) % count = if place + j < count then place + j
      else place + j - count := by
    intro j hj
    split
    · next hlt => exact Nat.mod_eq_of_lt hlt
    · next hge => rw [Nat.mod_eq_sub_mod (by omega), Nat.mod_eq_of_lt (by omega)]
  refine ⟨if place ≤ target then target - place else target + count - place, ⟨?_, ?_⟩, ?_⟩
  · split <;> omega
  · rw [hwrap _ (by split <;> omega)]
    split <;> split <;> omega
  · rintro j ⟨hj, heq⟩
    rw [hwrap j hj] at heq
    split at heq <;> split <;> omega

end Circle

variable {t : Tree} {n c p place : Nat}

/-! ### Down and up again -/

/-- Every node but the root holds a byte. -/
def Filled (t : Tree) : Prop :=
  ∀ i < t.size, i ≠ Arena.root → (t.span i).start < (t.span i).stop

instance (t : Tree) : Decidable t.Filled :=
  inferInstanceAs (Decidable (∀ i < t.size, i ≠ Arena.root → _))

/-- **A child with the span of its parent is the only one.** -/
theorem Filled.childCount_eq_one (hfilled : t.Filled) (h : t.WellNested) (hapart : t.SiblingsApart)
    (hc : c < t.size) (hparent : t.parent? c = some p) (hspan : t.span c = t.span p) :
    t.childCount p = 1 := by
  have hp : p < t.size := h.linked.parent_lt_size hc hparent
  have honly : ∀ d ∈ t.children p, d = c := by
    intro d hd
    obtain ⟨hdlt, hdparent⟩ := (h.linked.mem_children_iff hp).mp hd
    have hroot : d ≠ Arena.root := Nat.ne_zero_of_lt (h.linked.parent_lt hdlt hdparent)
    have hbyte := hfilled d hdlt hroot
    have hinside := h.covers_of_parent? hdlt hdparent
    rw [Covers, ← hspan] at hinside
    -- A sibling would have to lie before or after `c`, and inside it as well.
    rcases Nat.lt_trichotomy d c with hbefore | heq | hafter
    · have := hapart.stop_le_start h hdlt hc hdparent hparent hbefore
      omega
    · exact heq
    · have := hapart.stop_le_start h hc hdlt hparent hdparent hafter
      omega
  have hmem := (h.linked.mem_children_iff hp).mpr ⟨hc, hparent⟩
  have hnodup := h.linked.nodup_children hp
  rw [List.eq_replicate_of_mem honly, List.nodup_replicate] at hnodup
  exact Nat.le_antisymm hnodup (List.length_pos_of_mem hmem)

/-- **The climb comes back** from any node below with the same span. Each parent on the way has the span too,
so it has no other child; and the way ends before the root. -/
theorem climbOnlyChildren_eq (h : t.WellNested) (hapart : t.SiblingsApart) (hfilled : t.Filled)
    (hn : n < t.size) (hparent : t.parent? n = some p) (hstop : p = Arena.root ∨ t.childCount p ≠ 1)
    (hc : c < t.size) (hbelow : n ≤ c ∧ c < t.subtreeEnd n) (hspan : t.span c = t.span n) {fuel : Nat}
    (hfuel : c - n ≤ fuel) : t.climbOnlyChildren fuel c = n := by
  have hpn := h.linked.parent_lt hn hparent
  induction fuel generalizing c with
  | zero =>
    rw [climbOnlyChildren]
    omega
  | succ fuel ih =>
    rw [climbOnlyChildren]
    rcases (h.linked.below_iff hn hc).mp hbelow with rfl | ⟨q, hq, hnq, hqend⟩
    · simp only [hparent]
      exact if_pos hstop
    · have hqc := h.linked.parent_lt hc hq
      have hqlt : q < t.size := Nat.lt_trans hqc hc
      have hsame : t.span n = t.span q := by
        have hcovers := h.covers_of_below hn hqlt ⟨hnq, hqend⟩
        have hback : t.Covers q (t.span n) := hspan ▸ h.covers_of_parent? hc hq
        exact hcovers.span_eq (h.start_le_stop hqlt) hback.length_le
      have hone := hfilled.childCount_eq_one h hapart hc hq (hspan.trans hsame)
      have hroot : q ≠ Arena.root := Nat.ne_zero_of_lt (Nat.lt_of_lt_of_le hpn hnq)
      simp only [hq]
      rw [if_neg (by simp [hroot, hone])]
      exact ih hqlt ⟨hnq, hqend⟩ hsame.symm (by omega)

theorem cyclicSibling?_eq (h : t.WellNested) (hn : n < t.size) (hparent : t.parent? n = some p)
    (hplace : (t.children p)[place]? = some n) (forward : Bool) :
    t.cyclicSibling? n forward = (t.children p)[cyclicStep (t.childCount p) place forward]? := by
  have hindex : (t.children p).findIdx? (· == n) = some place := by
    have hchild := (h.linked.childIndex?_eq_some_iff hn hparent place).mpr hplace
    simpa only [Arena.childIndex?, hparent] using hchild
  simp only [cyclicSibling?, hparent, hindex]
  rfl

/-! ### Moves -/

section Moves

variable (h : t.WellNested) (hapart : t.SiblingsApart) (hfilled : t.Filled) (hp : p < t.size)
  (hstop : p = Arena.root ∨ t.childCount p ≠ 1)

include h hapart hfilled hp hstop

/-- **A move from the span of a child** is a step round the children. -/
theorem siblingForSelection_span (hplace : (t.children p)[place]? = some n) (forward : Bool) :
    t.siblingForSelection (t.span n) forward =
      .ok (t.children p)[cyclicStep (t.childCount p) place forward]? := by
  obtain ⟨hn, hparent⟩ := (h.linked.mem_children_iff hp).mp (List.mem_of_getElem? hplace)
  have hroot : n ≠ Arena.root := Nat.ne_zero_of_lt (h.linked.parent_lt hn hparent)
  obtain ⟨c, hcovering, hc⟩ := h.exists_innermost (h.inBounds_span hn)
  -- The descent goes on below `n` as long as the span stays.
  have hlow := hc.eq_or_mem_ancestors h hapart (hfilled n hn hroot) hn (t.covers_span n)
  have hbelow := (h.linked.below_iff_mem_ancestors hn hc.lt_size).mpr hlow
  have hspan : t.span c = t.span n :=
    hc.covers.span_eq (h.start_le_stop hn) (h.covers_of_below hn hc.lt_size hbelow).length_le
  have hcroot : c ≠ Arena.root := Nat.ne_zero_of_lt (Nat.lt_of_lt_of_le (Nat.pos_of_ne_zero hroot) hbelow.1)
  have hclimb := climbOnlyChildren_eq h hapart hfilled hn hparent hstop hc.lt_size hbelow hspan
    (Nat.le_trans (Nat.sub_le c n) (Nat.le_of_lt hc.lt_size))
  simp only [siblingForSelection, hcovering, bind, Except.bind]
  rw [if_neg hcroot, hclimb, cyclicSibling?_eq h hn hparent hplace]
  rfl

/-- A move always arrives at a child, and the move back returns. -/
theorem exists_sibling (hplace : (t.children p)[place]? = some n) (forward : Bool) :
    ∃ m, (t.children p)[cyclicStep (t.childCount p) place forward]? = some m ∧
      t.siblingForSelection (t.span n) forward = .ok (some m) ∧
      t.siblingForSelection (t.span m) (!forward) = .ok (some n) := by
  have hlt : place < t.childCount p := (List.getElem?_eq_some_iff.mp hplace).1
  have hm := List.getElem?_eq_getElem (cyclicStep_lt hlt forward : _ < (t.children p).length)
  have hmove := siblingForSelection_span h hapart hfilled hp hstop hplace forward
  have hback := siblingForSelection_span h hapart hfilled hp hstop hm (!forward)
  rw [hm] at hmove
  rw [cyclicStep_not hlt, hplace] at hback
  exact ⟨_, hm, hmove, hback⟩

/-- **Moves forward** go round the children, one after the other. -/
theorem exists_round (hplace : (t.children p)[place]? = some n) :
    ∃ visits : Nat → Nat,
      (∀ j, (t.children p)[(place + j) % t.childCount p]? = some (visits j)) ∧
      ∀ j, t.siblingForSelection (t.span (visits j)) true = .ok (some (visits (j + 1))) := by
  have hlt : place < t.childCount p := (List.getElem?_eq_some_iff.mp hplace).1
  have hchild : ∀ j, ∃ c, (t.children p)[(place + j) % t.childCount p]? = some c := fun j =>
    ⟨_, List.getElem?_eq_getElem (Nat.mod_lt _ (Nat.zero_lt_of_lt hlt) : _ < (t.children p).length)⟩
  choose visits hvisits using hchild
  refine ⟨visits, hvisits, fun j => ?_⟩
  have hnext : cyclicStep (t.childCount p) ((place + j) % t.childCount p) true =
      (place + (j + 1)) % t.childCount p := by
    rw [cyclicStep, if_pos rfl, Nat.mod_add_mod, Nat.add_assoc]
  rw [siblingForSelection_span h hapart hfilled hp hstop (hvisits j), hnext, hvisits (j + 1)]

end Moves

/-- **Sibling moves go round and round.** Take any tree that some events build, whose spans are nested and hold
a byte below the root, and whose siblings are apart. Take any node at some place among the children of its
parent, which is the root or has at least two children. From the span of the node a move forward arrives at
the next child and a move backward at the one before, where the first child comes after the last one. A move
and the move the other way round, from the span of the node that was reached, return to the node. As many
moves forward as there are children visit each child exactly once before they are back at the node. -/
theorem siblings_turn_round {grammar : String} {source : Text} {events : List Event} {t : Tree}
    (hbuild : Tree.build grammar source events = .ok t) (hnested : t.Nested)
    (hapart : t.SiblingsApart) (hfilled : t.Filled) {n p place : Nat} (hn : n < t.size)
    (hparent : t.parent? n = some p) (hplace : (t.children p)[place]? = some n)
    (hmove : p = Arena.root ∨ 2 ≤ t.childCount p) :
    (∃ m, (t.children p)[(place + 1) % t.childCount p]? = some m ∧
      t.siblingForSelection (t.span n) true = .ok (some m)) ∧
    (∃ m, (t.children p)[(place + t.childCount p - 1) % t.childCount p]? = some m ∧
      t.siblingForSelection (t.span n) false = .ok (some m)) ∧
    (∀ forward, ∃ m, t.siblingForSelection (t.span n) forward = .ok (some m) ∧
      t.siblingForSelection (t.span m) (!forward) = .ok (some n)) ∧
    ∃ visits : Nat → Nat, visits 0 = n ∧
      (∀ j, t.siblingForSelection (t.span (visits j)) true = .ok (some (visits (j + 1)))) ∧
      (∀ c ∈ t.children p, ∃! j, j < t.childCount p ∧ visits j = c) ∧
      visits (t.childCount p) = n := by
  have h := wellNested_of_build hbuild hnested
  have hp : p < t.size := h.linked.parent_lt_size hn hparent
  have hstop : p = Arena.root ∨ t.childCount p ≠ 1 := hmove.imp_right fun htwo => by omega
  have hlt : place < t.childCount p := (List.getElem?_eq_some_iff.mp hplace).1
  have hsibling := exists_sibling h hapart hfilled hp hstop hplace
  refine ⟨?_, ?_, ?_, ?_⟩
  · obtain ⟨m, hm, hforward, -⟩ := hsibling true
    exact ⟨m, hm, hforward⟩
  · obtain ⟨m, hm, hbackward, -⟩ := hsibling false
    exact ⟨m, hm, hbackward⟩
  · intro forward
    obtain ⟨m, -, hthere, hback⟩ := hsibling forward
    exact ⟨m, hthere, hback⟩
  · obtain ⟨visits, hvisits, hsteps⟩ := exists_round h hapart hfilled hp hstop hplace
    refine ⟨visits, ?_, hsteps, ?_, ?_⟩
    · have hfirst := hvisits 0
      rw [Nat.add_zero, Nat.mod_eq_of_lt hlt, hplace] at hfirst
      exact (Option.some.inj hfirst).symm
    · intro c hc
      obtain ⟨k, hk, rfl⟩ := List.mem_iff_getElem.mp hc
      have hvisit : ∀ j, visits j = (t.children p)[k] ↔ (place + j) % t.childCount p = k := by
        intro j
        obtain ⟨hj, hget⟩ := List.getElem?_eq_some_iff.mp (hvisits j)
        rw [← hget]
        exact (h.linked.nodup_children hp).getElem_inj_iff
      simp only [hvisit]
      exact existsUnique_steps hlt hk
    · have hlast := hvisits (t.childCount p)
      rw [Nat.add_mod_right, Nat.mod_eq_of_lt hlt, hplace] at hlast
      exact (Option.some.inj hlast).symm

/-- Two children below a node that is not the root, and below the first one an only child with the same span.
The span of the first one is covered by the lower node, and moves go round the two children all the same. -/
theorem siblings_turn_round_above_only_child :
    let spec (start stop : Nat) : NodeSpec := ⟨"node", ⟨start, stop⟩, true, false, none, none⟩
    let events : List Event :=
      [.enter (spec 0 5), .enter (spec 0 4), .enter (spec 0 2), .leaf (spec 0 2), .leave, .leaf (spec 2 4),
        .leave, .leaf (spec 4 5), .leave]
    ∃ t, Tree.build "g" ['a', 'b', 'c', 'd', 'e'] events = .ok t ∧ t.Nested ∧ t.SiblingsApart ∧ t.Filled ∧
      t.children 1 = [2, 4] ∧ t.covering (t.span 2) = .ok 3 ∧
      t.siblingForSelection (t.span 2) true = .ok (some 4) ∧
      t.siblingForSelection (t.span 4) false = .ok (some 2) ∧
      ∃ visits : Nat → Nat, visits 0 = 2 ∧ (∃! j, j < 2 ∧ visits j = 4) ∧ visits 2 = 2 := by
  intro spec events
  obtain ⟨t, hbuild, hnested, hapart, hfilled, hsize, hparent, hchildren, hcovering⟩ :
      ∃ t, Tree.build "g" ['a', 'b', 'c', 'd', 'e'] events = .ok t ∧ t.Nested ∧ t.SiblingsApart ∧
        t.Filled ∧ t.size = 6 ∧ t.parent? 2 = some 1 ∧ t.children 1 = [2, 4] ∧
        t.covering (t.span 2) = .ok 3 :=
    exists_build_of_any (by decide +kernel)
  have hcount : t.childCount 1 = 2 := congrArg List.length hchildren
  have hplace : (t.children 1)[0]? = some 2 := by rw [hchildren]; rfl
  obtain ⟨⟨m, hm, hforward⟩, -, hback, visits, hstart, -, honce, hround⟩ :=
    siblings_turn_round hbuild hnested hapart hfilled (by omega) hparent hplace
      (.inr (Nat.le_of_eq hcount.symm))
  rw [hcount] at hm hround
  rw [hchildren] at hm honce
  obtain rfl : 4 = m := Option.some.inj hm
  obtain ⟨m, hthere, hreturn⟩ := hback true
  obtain rfl : 4 = m := Option.some.inj (Except.ok.inj (hforward.symm.trans hthere))
  rw [hcount] at honce
  exact ⟨t, hbuild, hnested, hapart, hfilled, hchildren, hcovering, hforward, hreturn, visits, hstart,
    honce 4 (by simp), hround⟩

end LiveSyntax.Tree
