import LiveSyntax.Proofs.Linked
import Mathlib.Data.List.Nodup

/-!
# Moving about in a node table

The accessors of a node table look at different links. `Arena.ancestors` and `Arena.ancestor?` climb
from parent to parent, `Arena.depth` is a stored number, `Arena.children` and `Arena.nextSibling?` jump
over subtrees, and `Arena.subtree` and `Arena.isAncestorOf` compare indices. In a table whose links
agree they all describe the same tree.

Nothing here reads past the end of the table. To say so, `Arena.Guarded` has each accessor once more
with reads that fail outside the table: none of them fails.

## Main definitions

- `Arena.Guarded`: the accessors with guarded reads.
- `Arena.ReadsInside`: the guarded accessors answer, and as the others do.

## Main results

- `Arena.Linked.below_iff_mem_ancestors`: subtrees by index are subtrees by parent.
- `Arena.Linked.children_eq_filter`: jumping over subtrees meets exactly the nodes with this parent.
- `Tree.links_agree`: all accessors of every tree that is built agree.
-/

namespace LiveSyntax

namespace Arena

variable {t : Arena} {i j p : Nat}

/-! ### Climbing -/

theorem Linked.parent?_root (h : t.Linked) (hsize : 0 < t.size) : t.parent? root = none :=
  (h.root hsize).1

/-- What holds of the root and goes from parent to child holds of every node. -/
theorem Linked.climb {P : Nat → Prop} (h : t.Linked) (hroot : P root)
    (hchild : ∀ i p, i < t.size → p < t.size → t.parent? i = some p → t.depth i = t.depth p + 1 →
      P p → P i) (hi : i < t.size) : P i := by
  induction i using Nat.strongRecOn with
  | ind i ih =>
    by_cases hpos : 0 < i
    · obtain ⟨p, hp, hlt, hdepth⟩ := h.parent hpos hi
      exact hchild i p hi (by omega) hp hdepth (ih p hlt (by omega))
    · obtain rfl : i = root := by rw [root]; omega
      exact hroot

/-- Parents come before their children, so a node has at most as many ancestors as its index says. -/
theorem Linked.ancestorsUpTo_eq (h : t.Linked) (fuel more : Nat) (hi : i < t.size)
    (hfuel : i ≤ fuel) (hmore : i ≤ more) : t.ancestorsUpTo fuel i = t.ancestorsUpTo more i := by
  have hnone : ∀ fuel, t.ancestorsUpTo fuel root = [] := by
    intro fuel
    cases fuel with
    | zero => rfl
    | succ fuel => simp only [ancestorsUpTo, h.parent?_root (by omega)]
  induction fuel generalizing i more with
  | zero =>
    obtain rfl : i = root := by rw [root]; omega
    rw [hnone, hnone]
  | succ fuel ih =>
    by_cases hpos : 0 < i
    · obtain ⟨p, hp, hlt, -⟩ := h.parent hpos hi
      obtain ⟨more, rfl⟩ : ∃ k, more = k + 1 := ⟨more - 1, by omega⟩
      simp only [ancestorsUpTo, hp]
      rw [ih more (by omega) (by omega) (by omega)]
    · obtain rfl : i = root := by rw [root]; omega
      rw [hnone, hnone]

theorem Linked.ancestors_root (h : t.Linked) (hsize : 0 < t.size) : t.ancestors root = [] := by
  obtain ⟨n, hn⟩ : ∃ n, t.size = n + 1 := ⟨t.size - 1, by omega⟩
  rw [ancestors, hn]
  simp only [ancestorsUpTo, h.parent?_root hsize]

theorem Linked.ancestors_eq_cons (h : t.Linked) (hi : i < t.size) (hp : t.parent? i = some p) :
    t.ancestors i = p :: t.ancestors p := by
  have hlt := h.parent_lt hi hp
  obtain ⟨n, hn⟩ : ∃ n, t.size = n + 1 := ⟨t.size - 1, by omega⟩
  have hstep : t.ancestors i = p :: t.ancestorsUpTo n p := by
    rw [ancestors, hn]
    simp only [ancestorsUpTo, hp]
  rw [hstep, ancestors, h.ancestorsUpTo_eq n t.size (by omega) (by omega) (by omega)]

theorem Linked.length_ancestors (h : t.Linked) (hi : i < t.size) :
    (t.ancestors i).length = t.depth i := by
  have hsize : 0 < t.size := by omega
  refine h.climb (P := fun i => (t.ancestors i).length = t.depth i) ?_ ?_ hi
  · rw [h.ancestors_root hsize, (h.root hsize).2]
    rfl
  · intro i p hi hp hparent hdepth ih
    rw [h.ancestors_eq_cons hi hparent, List.length_cons, ih, hdepth]

theorem Linked.isSome_ancestor?_iff (h : t.Linked) (hi : i < t.size) (levels : Nat) :
    (t.ancestor? i levels).isSome ↔ levels ≤ t.depth i := by
  have hsize : 0 < t.size := by omega
  refine h.climb (P := fun i => ∀ levels, (t.ancestor? i levels).isSome ↔ levels ≤ t.depth i)
    ?_ ?_ hi levels
  · intro levels
    cases levels with
    | zero => simp [ancestor?]
    | succ levels => simp [ancestor?, h.parent?_root hsize, (h.root hsize).2]
  · intro i p hi hp hparent hdepth ih levels
    cases levels with
    | zero => simp [ancestor?]
    | succ levels =>
      simp only [ancestor?, hparent]
      rw [ih levels, hdepth]
      omega

theorem Linked.ancestor?_depth (h : t.Linked) (hi : i < t.size) :
    t.ancestor? i (t.depth i) = some root := by
  have hsize : 0 < t.size := by omega
  refine h.climb (P := fun i => t.ancestor? i (t.depth i) = some root) ?_ ?_ hi
  · rw [(h.root hsize).2, ancestor?]
  · intro i p hi hp hparent hdepth ih
    rw [hdepth]
    simp only [ancestor?, hparent]
    exact ih

/-! ### Subtrees -/

/-- **Subtrees by index are subtrees by parent.** -/
theorem Linked.below_iff_mem_ancestors (h : t.Linked) (hi : i < t.size) (hj : j < t.size) :
    i ≤ j ∧ j < t.subtreeEnd i ↔ i = j ∨ i ∈ t.ancestors j := by
  have hsize : 0 < t.size := by omega
  refine h.climb (P := fun j => i ≤ j ∧ j < t.subtreeEnd i ↔ i = j ∨ i ∈ t.ancestors j) ?_ ?_ hj
  · have hbelow := h.below_iff (j := root) hi hsize
    rw [h.parent?_root hsize] at hbelow
    rw [hbelow, h.ancestors_root hsize]
    simp
  · intro j p hj hp hparent _ ih
    rw [h.below_iff hi hj, h.ancestors_eq_cons hj hparent, List.mem_cons, ← ih, hparent]
    simp

theorem mem_subtree_iff : j ∈ t.subtree i ↔ i ≤ j ∧ j < t.subtreeEnd i := by
  rw [subtree, List.mem_range'_1]
  omega

theorem isAncestorOf_iff : t.isAncestorOf i j = true ↔ i ≤ j ∧ j < t.subtreeEnd i := by
  rw [isAncestorOf, decide_eq_true_iff]

/-- What lies below a node lies below everything that the node lies below. -/
theorem Linked.below_trans (h : t.Linked) {k : Nat} (hi : i < t.size) (hj : j < t.size)
    (hk : k < t.size) (hij : i ≤ j ∧ j < t.subtreeEnd i) :
    j ≤ k ∧ k < t.subtreeEnd j → i ≤ k ∧ k < t.subtreeEnd i := by
  refine h.climb (P := fun k => j ≤ k ∧ k < t.subtreeEnd j → i ≤ k ∧ k < t.subtreeEnd i) ?_ ?_ hk
  · rintro ⟨hle, -⟩
    obtain rfl : j = root := Nat.le_zero.mp hle
    exact hij
  · intro k p hk hp hparent _ ih hjk
    rcases (h.below_iff hj hk).mp hjk with rfl | ⟨q, hq, hbelow⟩
    · exact hij
    · rw [hparent] at hq
      cases hq
      exact (h.below_iff hi hk).mpr (.inr ⟨p, hparent, ih hbelow⟩)

/-- A node that lies in a subtree has its whole subtree there. -/
theorem Linked.subtreeEnd_le (h : t.Linked) (hi : i < t.size) (hle : i ≤ j)
    (hlt : j < t.subtreeEnd i) : t.subtreeEnd j ≤ t.subtreeEnd i := by
  have hbounds := h.bounds hi
  have hj : j < t.size := by omega
  have hend := h.bounds hj
  have hlast := h.below_trans (k := t.subtreeEnd j - 1) hi hj (by omega) ⟨hle, hlt⟩
    ⟨by omega, by omega⟩
  omega

/-- **Two subtrees are nested or disjoint.** -/
theorem Linked.nested_or_disjoint (h : t.Linked) (hi : i < t.size) (hj : j < t.size) :
    t.subtree i ⊆ t.subtree j ∨ t.subtree j ⊆ t.subtree i ∨
      List.Disjoint (t.subtree i) (t.subtree j) := by
  -- Of two tops the later one lies in the subtree of the earlier one, or comes after all of it.
  by_cases hinside : i ≤ j ∧ j < t.subtreeEnd i
  · right; left
    have hend := h.subtreeEnd_le hi hinside.1 hinside.2
    intro k hk
    rw [mem_subtree_iff] at hk ⊢
    omega
  · by_cases hinside' : j ≤ i ∧ i < t.subtreeEnd j
    · left
      have hend := h.subtreeEnd_le hj hinside'.1 hinside'.2
      intro k hk
      rw [mem_subtree_iff] at hk ⊢
      omega
    · right; right
      intro k hki hkj
      rw [mem_subtree_iff] at hki hkj
      omega

/-! ### Children -/

/-- The node after a child's subtree is the next child, unless the subtree of the parent ends there. -/
theorem Linked.parent?_subtreeEnd (h : t.Linked) (hi : i < t.size) (hp : t.parent? i = some p)
    (hlt : t.subtreeEnd i < t.subtreeEnd p) : t.parent? (t.subtreeEnd i) = some p := by
  have hbefore := h.parent_lt hi hp
  have hps : p < t.size := by omega
  have hbounds := h.bounds hi
  have hend := h.bounds hps
  have hn : t.subtreeEnd i < t.size := by omega
  rcases (h.below_iff hps hn).mp ⟨by omega, hlt⟩ with heq | ⟨q, hq, hle, hqlt⟩
  · omega
  · have hqn := h.parent_lt hn hq
    have hqs : q < t.size := by omega
    -- The parent `q` of the next node lies below `p`. It is not below `i`, where nothing follows,
    -- and strictly between `p` and `i` there is no room: `i` would be below `q` then.
    by_cases hqp : q = p
    · rw [hq, hqp]
    · exfalso
      by_cases hiq : i ≤ q
      · have hbelow := (h.below_iff hi hn).mpr (.inr ⟨q, hq, hiq, by omega⟩)
        omega
      · have hqend := ((h.below_iff hqs hn).mpr (.inr ⟨q, hq, Nat.le_refl q, (h.bounds hqs).1⟩)).2
        rcases (h.below_iff hqs hi).mp ⟨by omega, by omega⟩ with heq | ⟨p', hp', hle', -⟩
        · omega
        · rw [hp] at hp'
          cases hp'
          omega

theorem Linked.parent?_succ (h : t.Linked) (hi : i < t.size) (hlt : i + 1 < t.subtreeEnd i) :
    t.parent? (i + 1) = some i := by
  have hbounds := h.bounds hi
  have hn : i + 1 < t.size := by omega
  rcases (h.below_iff hi hn).mp ⟨by omega, hlt⟩ with heq | ⟨q, hq, hle, -⟩
  · omega
  · have hqn := h.parent_lt hn hq
    obtain rfl : q = i := by omega
    exact hq

/-- Inside a child's subtree no other node has the parent of the child. -/
theorem Linked.parent?_ne_of_below (h : t.Linked) (hi : i < t.size) (hp : t.parent? i = some p)
    (hij : i < j) (hj : j < t.subtreeEnd i) : t.parent? j ≠ some p := by
  intro hp'
  have hbounds := h.bounds hi
  have hbefore := h.parent_lt hi hp
  rcases (h.below_iff hi (by omega)).mp ⟨Nat.le_of_lt hij, hj⟩ with heq | ⟨q, hq, hle, -⟩
  · omega
  · rw [hp'] at hq
    cases hq
    omega

theorem range'_cut {first middle last : Nat} (hle : first ≤ middle) (hle' : middle ≤ last) :
    List.range' first (last - first) =
      List.range' first (middle - first) ++ List.range' middle (last - middle) := by
  have hcut := List.range'_append_1 (s := first) (m := middle - first) (n := last - middle)
  rw [show first + (middle - first) = middle by omega,
    show middle - first + (last - middle) = last - first by omega] at hcut
  exact hcut.symm

/-- Jumping from one subtree to the next meets the nodes with a given parent, in order. -/
theorem Linked.siblingsUpTo_eq (h : t.Linked) (hp : p < t.size) {fuel next : Nat}
    (hafter : p < next) (hnext : next < t.subtreeEnd p → t.parent? next = some p)
    (hfuel : t.subtreeEnd p - next ≤ fuel) :
    t.siblingsUpTo fuel next (t.subtreeEnd p) =
      (List.range' next (t.subtreeEnd p - next)).filter fun c => t.parent? c = some p := by
  induction fuel generalizing next with
  | zero => rw [Nat.le_zero.mp hfuel, siblingsUpTo, List.range'_zero, List.filter_nil]
  | succ fuel ih =>
    rw [siblingsUpTo]
    by_cases hlt : next < t.subtreeEnd p
    · have hparent := hnext hlt
      have hend := h.bounds hp
      have hns : next < t.size := by omega
      have hbounds := h.bounds hns
      have hinside := h.subtreeEnd_le hp (Nat.le_of_lt hafter) hlt
      -- The range falls into the child, the rest of its subtree, and the siblings after it.
      have hsplit : List.range' next (t.subtreeEnd p - next) =
          next :: (List.range' (next + 1) (t.subtreeEnd next - (next + 1)) ++
            List.range' (t.subtreeEnd next) (t.subtreeEnd p - t.subtreeEnd next)) := by
        rw [range'_cut (Nat.le_of_lt hbounds.1) hinside,
          show t.subtreeEnd next - next = t.subtreeEnd next - (next + 1) + 1 by omega, List.range'_succ,
          List.cons_append]
      have hmiddle : (List.range' (next + 1) (t.subtreeEnd next - (next + 1))).filter
          (fun c => t.parent? c = some p) = [] := by
        refine List.filter_eq_nil_iff.mpr fun c hc => ?_
        rw [List.mem_range'_1] at hc
        simpa using h.parent?_ne_of_below hns hparent (by omega) (by omega)
      rw [if_pos hlt, hsplit, List.filter_cons, if_pos (by simpa using hparent), List.filter_append,
        hmiddle, List.nil_append,
        ih (by omega) (fun hmore => h.parent?_subtreeEnd hns hparent hmore) (by omega)]
    · rw [if_neg hlt, Nat.sub_eq_zero_of_le (by omega), List.range'_zero, List.filter_nil]

/-- **The children of a node** are the nodes that have it as their parent, in order. -/
theorem Linked.children_eq_filter (h : t.Linked) (hi : i < t.size) :
    t.children i = t.indices.filter fun c => t.parent? c = some i := by
  have hbounds := h.bounds hi
  have hsplit : t.indices = List.range' 0 (i + 1) ++
      (List.range' (i + 1) (t.subtreeEnd i - (i + 1)) ++
        List.range' (t.subtreeEnd i) (t.size - t.subtreeEnd i)) := by
    rw [← range'_cut hbounds.1 hbounds.2, indices, List.range_eq_range']
    exact range'_cut (Nat.zero_le (i + 1)) hi
  have hbefore : (List.range' 0 (i + 1)).filter (fun c => t.parent? c = some i) = [] := by
    refine List.filter_eq_nil_iff.mpr fun c hc => ?_
    rw [List.mem_range'_1] at hc
    simp only [decide_eq_true_eq]
    intro hp
    have := h.parent_lt (by omega) hp
    omega
  have hafter : (List.range' (t.subtreeEnd i) (t.size - t.subtreeEnd i)).filter
      (fun c => t.parent? c = some i) = [] := by
    refine List.filter_eq_nil_iff.mpr fun c hc => ?_
    rw [List.mem_range'_1] at hc
    simp only [decide_eq_true_eq]
    intro hp
    have := (h.below_iff hi (by omega)).mpr (.inr ⟨i, hp, Nat.le_refl i, hbounds.1⟩)
    omega
  rw [hsplit, List.filter_append, List.filter_append, hbefore, hafter, List.nil_append,
    List.append_nil, children,
    h.siblingsUpTo_eq hi (Nat.lt_succ_self i) (h.parent?_succ hi) (Nat.le_refl _)]

theorem Linked.mem_children_iff (h : t.Linked) (hp : p < t.size) :
    i ∈ t.children p ↔ i < t.size ∧ t.parent? i = some p := by
  rw [h.children_eq_filter hp, List.mem_filter, indices, List.mem_range, decide_eq_true_iff]

theorem Linked.nodup_children (h : t.Linked) (hp : p < t.size) : (t.children p).Nodup := by
  rw [h.children_eq_filter hp]
  exact List.nodup_range.filter _

/-! ### Siblings -/

/-- Each sibling but the last is followed by the node after its subtree. -/
theorem Linked.getElem?_siblingsUpTo_succ (h : t.Linked) {fuel next stop k : Nat}
    (hstop : stop ≤ t.size) (hfuel : stop - next ≤ fuel)
    (hk : (t.siblingsUpTo fuel next stop)[k]? = some i) :
    (t.siblingsUpTo fuel next stop)[k + 1]? =
      if t.subtreeEnd i < stop then some (t.subtreeEnd i) else none := by
  induction fuel generalizing next k with
  | zero => simp [siblingsUpTo] at hk
  | succ fuel ih =>
    rw [siblingsUpTo] at hk ⊢
    by_cases hlt : next < stop
    · have hbounds := h.bounds (i := next) (by omega)
      rw [if_pos hlt] at hk ⊢
      rw [List.getElem?_cons_succ]
      cases k with
      | zero =>
        obtain rfl : next = i := by simpa using hk
        by_cases hmore : t.subtreeEnd next < stop
        · obtain ⟨fuel, rfl⟩ : ∃ n, fuel = n + 1 := ⟨fuel - 1, by omega⟩
          rw [siblingsUpTo, if_pos hmore, if_pos hmore, List.getElem?_cons_zero]
        · rw [if_neg hmore]
          cases fuel with
          | zero => rfl
          | succ fuel => rw [siblingsUpTo, if_neg hmore, List.getElem?_nil]
      | succ k =>
        rw [List.getElem?_cons_succ] at hk
        exact ih (by omega) hk
    · rw [if_neg hlt] at hk
      simp at hk

theorem Linked.nextSibling?_eq (h : t.Linked) (hi : i < t.size) (hp : t.parent? i = some p) {k : Nat}
    (hk : (t.children p)[k]? = some i) : t.nextSibling? i = (t.children p)[k + 1]? := by
  have hps : p < t.size := h.parent_lt_size hi hp
  rw [children] at hk ⊢
  rw [h.getElem?_siblingsUpTo_succ (h.bounds hps).2 (Nat.le_refl _) hk, nextSibling?, hp]

/-- In a list without repeats, what stands before an element is what its place says. -/
theorem takeWhile_ne_eq_take {l : List Nat} {k : Nat} (hnodup : l.Nodup) (hk : l[k]? = some i) :
    l.takeWhile (· != i) = l.take k := by
  induction l generalizing k with
  | nil => simp at hk
  | cons x l ih =>
    rw [List.nodup_cons] at hnodup
    cases k with
    | zero =>
      obtain rfl : x = i := by simpa using hk
      simp
    | succ k =>
      rw [List.getElem?_cons_succ] at hk
      have hne : x ≠ i := by
        rintro rfl
        exact hnodup.1 (List.mem_of_getElem? hk)
      rw [List.takeWhile_cons, if_pos (by simpa using hne), List.take_succ_cons, ih hnodup.2 hk]

theorem Linked.prevSibling?_eq (h : t.Linked) (hi : i < t.size) (hp : t.parent? i = some p) {k : Nat}
    (hk : (t.children p)[k]? = some i) :
    t.prevSibling? i = if k = 0 then none else (t.children p)[k - 1]? := by
  have hps : p < t.size := h.parent_lt_size hi hp
  have hlt : k < (t.children p).length := (List.getElem?_eq_some_iff.mp hk).1
  simp only [prevSibling?, hp]
  rw [takeWhile_ne_eq_take (h.nodup_children hps) hk]
  by_cases hzero : k = 0
  · simp [hzero]
  · rw [if_neg hzero, List.getLast?_eq_getElem?, List.length_take, Nat.min_eq_left (by omega),
      List.getElem?_take, if_pos (by omega)]

theorem Linked.childIndex?_eq_some_iff (h : t.Linked) (hi : i < t.size) (hp : t.parent? i = some p)
    (k : Nat) : t.childIndex? i = some k ↔ (t.children p)[k]? = some i := by
  have hps : p < t.size := h.parent_lt_size hi hp
  have hnodup := h.nodup_children hps
  simp only [childIndex?, hp]
  rw [List.findIdx?_eq_some_iff_getElem, List.getElem?_eq_some_iff]
  constructor
  · rintro ⟨hk, hfound, -⟩
    exact ⟨hk, by simpa using hfound⟩
  · rintro ⟨hk, rfl⟩
    refine ⟨hk, by simp, fun j hjk hsame => ?_⟩
    have heq := hnodup.getElem_inj_iff.mp (beq_iff_eq.mp hsame)
    omega

theorem Linked.exists_childIndex? (h : t.Linked) (hi : i < t.size) (hp : t.parent? i = some p) :
    ∃ k, t.childIndex? i = some k := by
  have hps : p < t.size := h.parent_lt_size hi hp
  obtain ⟨k, hk⟩ := List.mem_iff_getElem?.mp ((h.mem_children_iff hps).mpr ⟨hi, hp⟩)
  exact ⟨k, (h.childIndex?_eq_some_iff hi hp k).mpr hk⟩

/-! ### Guarded reads -/

namespace Guarded

/-- The node at an index, which the table must have. -/
def node (t : Arena) (i : Nat) : Option Node :=
  t.nodes[i]?

def parent? (t : Arena) (i : Nat) : Option (Option Nat) := do
  return (← node t i).parent

def depth (t : Arena) (i : Nat) : Option Nat := do
  return (← node t i).depth

def ancestorsUpTo (t : Arena) : (fuel : Nat) → Nat → Option (List Nat)
  | 0, _ => some []
  | fuel + 1, i => do
    match ← parent? t i with
    | none => return []
    | some p => return p :: (← ancestorsUpTo t fuel p)

def ancestors (t : Arena) (i : Nat) : Option (List Nat) :=
  ancestorsUpTo t t.size i

def ancestor? (t : Arena) (i : Nat) : (levels : Nat) → Option (Option Nat)
  | 0 => some (some i)
  | levels + 1 => do
    match ← parent? t i with
    | none => return none
    | some p => ancestor? t p levels

def siblingsUpTo (t : Arena) : (fuel : Nat) → (next stop : Nat) → Option (List Nat)
  | 0, _, _ => some []
  | fuel + 1, next, stop =>
    if next < stop then do
      let n ← node t next
      return next :: (← siblingsUpTo t fuel n.subtreeEnd stop)
    else some []

def children (t : Arena) (i : Nat) : Option (List Nat) := do
  let n ← node t i
  siblingsUpTo t (n.subtreeEnd - (i + 1)) (i + 1) n.subtreeEnd

def childIndex? (t : Arena) (i : Nat) : Option (Option Nat) := do
  match ← parent? t i with
  | none => return none
  | some p => return (← children t p).findIdx? (· == i)

def nextSibling? (t : Arena) (i : Nat) : Option (Option Nat) := do
  let n ← node t i
  match n.parent with
  | none => return none
  | some p => return if n.subtreeEnd < (← node t p).subtreeEnd then some n.subtreeEnd else none

def prevSibling? (t : Arena) (i : Nat) : Option (Option Nat) := do
  match ← parent? t i with
  | none => return none
  | some p => return ((← children t p).takeWhile (· != i)).getLast?

def subtree (t : Arena) (i : Nat) : Option (List Nat) := do
  return List.range' i ((← node t i).subtreeEnd - i)

def isAncestorOf (t : Arena) (i j : Nat) : Option Bool := do
  return decide (i ≤ j ∧ j < (← node t i).subtreeEnd)

theorem node_eq (hi : i < t.size) : node t i = some (t.node i) := by
  rw [← length_nodes] at hi
  rw [node, node_eq_getElem?, ← Array.getElem?_toList, List.getElem?_eq_getElem hi, Option.getD_some]

theorem parent?_eq (hi : i < t.size) : parent? t i = some (t.parent? i) := by
  rw [parent?, node_eq hi]
  rfl

theorem siblingsUpTo_eq {fuel next stop : Nat} (hstop : stop ≤ t.size) :
    siblingsUpTo t fuel next stop = some (t.siblingsUpTo fuel next stop) := by
  induction fuel generalizing next with
  | zero => rfl
  | succ fuel ih =>
    rw [siblingsUpTo, Arena.siblingsUpTo]
    by_cases hlt : next < stop
    · rw [if_pos hlt, if_pos hlt, node_eq (by omega)]
      simp only [Option.bind_eq_bind, Option.bind_some, ih]
      rfl
    · rw [if_neg hlt, if_neg hlt]

end Guarded

/-- Every accessor of a node answers although reads outside the table fail, and it answers the same. -/
structure ReadsInside (t : Arena) (i : Nat) : Prop where
  parent? : Guarded.parent? t i = some (t.parent? i)
  depth : Guarded.depth t i = some (t.depth i)
  ancestors : Guarded.ancestors t i = some (t.ancestors i)
  ancestor? : ∀ levels, Guarded.ancestor? t i levels = some (t.ancestor? i levels)
  children : Guarded.children t i = some (t.children i)
  childIndex? : Guarded.childIndex? t i = some (t.childIndex? i)
  nextSibling? : Guarded.nextSibling? t i = some (t.nextSibling? i)
  prevSibling? : Guarded.prevSibling? t i = some (t.prevSibling? i)
  subtree : Guarded.subtree t i = some (t.subtree i)
  isAncestorOf : ∀ j, Guarded.isAncestorOf t i j = some (t.isAncestorOf i j)

theorem Linked.guarded_children (h : t.Linked) (hi : i < t.size) :
    Guarded.children t i = some (t.children i) := by
  rw [Guarded.children, Guarded.node_eq hi]
  exact Guarded.siblingsUpTo_eq (h.bounds hi).2

theorem Linked.guarded_ancestorsUpTo (h : t.Linked) (hi : i < t.size) (fuel : Nat) :
    Guarded.ancestorsUpTo t fuel i = some (t.ancestorsUpTo fuel i) := by
  induction fuel generalizing i with
  | zero => rfl
  | succ fuel ih =>
    rw [Guarded.ancestorsUpTo, Guarded.parent?_eq hi, ancestorsUpTo]
    cases hp : t.parent? i with
    | none => rfl
    | some p =>
      simp only [Option.bind_eq_bind, Option.bind_some,
        ih (h.parent_lt_size hi hp)]
      rfl

theorem Linked.guarded_ancestor? (h : t.Linked) (hi : i < t.size) (levels : Nat) :
    Guarded.ancestor? t i levels = some (t.ancestor? i levels) := by
  induction levels generalizing i with
  | zero => rfl
  | succ levels ih =>
    rw [Guarded.ancestor?, Guarded.parent?_eq hi, ancestor?]
    cases hp : t.parent? i with
    | none => rfl
    | some p => exact ih (h.parent_lt_size hi hp)

/-- **No accessor reads past the end of the table.** -/
theorem Linked.readsInside (h : t.Linked) (hi : i < t.size) : t.ReadsInside i := by
  have hnode := Guarded.node_eq hi
  have hparent := Guarded.parent?_eq hi
  have hlt : ∀ {p}, t.parent? i = some p → p < t.size :=
    fun hp => h.parent_lt_size hi hp
  refine ⟨hparent, ?_, h.guarded_ancestorsUpTo hi t.size, h.guarded_ancestor? hi,
    h.guarded_children hi, ?_, ?_, ?_, ?_, ?_⟩
  · rw [Guarded.depth, hnode]
    rfl
  · rw [Guarded.childIndex?, hparent, childIndex?]
    cases hp : t.parent? i with
    | none => rfl
    | some p =>
      simp only [Option.bind_eq_bind, Option.bind_some, h.guarded_children (hlt hp)]
      rfl
  · rw [Guarded.nextSibling?, hnode, nextSibling?]
    change (match t.parent? i with | none => _ | some p => _) = _
    cases hp : t.parent? i with
    | none => rfl
    | some p =>
      simp only [Option.bind_eq_bind, Option.bind_some, Guarded.node_eq (hlt hp)]
      rfl
  · rw [Guarded.prevSibling?, hparent, prevSibling?]
    cases hp : t.parent? i with
    | none => rfl
    | some p =>
      simp only [Option.bind_eq_bind, Option.bind_some, h.guarded_children (hlt hp)]
      rfl
  · rw [Guarded.subtree, hnode]
    rfl
  · intro j
    rw [Guarded.isAncestorOf, hnode]
    rfl

end Arena

namespace Tree

/-- **All links of a finished tree agree.** Take any tree that some events build, and any two nodes of
it. The children of a node are the nodes that name it as their parent, in order. Its depth counts its
ancestors, and that many steps up, and no more, lead to the root. To be an ancestor or the node itself,
to be listed as such, and to have the other node in one's subtree are the same. Two subtrees are nested
or disjoint. A node other than the root has exactly the place among its parent's children that its child
index says, and its siblings are its neighbours there. And nothing of this reads outside the table. -/
theorem links_agree {grammar : String} {source : Text} {events : List Event} {t : Tree}
    (h : Tree.build grammar source events = .ok t) {i j : Nat} (hi : i < t.size) (hj : j < t.size) :
    (t.children i = t.indices.filter fun c => t.parent? c = some i) ∧
    (t.depth i = (t.ancestors i).length ∧
      (∀ levels, (t.ancestor? i levels).isSome ↔ levels ≤ t.depth i) ∧
      t.ancestor? i (t.depth i) = some Arena.root) ∧
    ((t.isAncestorOf i j ↔ i = j ∨ i ∈ t.ancestors j) ∧ (t.isAncestorOf i j ↔ j ∈ t.subtree i)) ∧
    (t.subtree i ⊆ t.subtree j ∨ t.subtree j ⊆ t.subtree i ∨
      List.Disjoint (t.subtree i) (t.subtree j)) ∧
    (i ≠ Arena.root → ∃ p k, t.parent? i = some p ∧ t.childIndex? i = some k ∧
      (∀ n, t.childIndex? i = some n ↔ (t.children p)[n]? = some i) ∧
      t.nextSibling? i = (t.children p)[k + 1]? ∧
      t.prevSibling? i = if k = 0 then none else (t.children p)[k - 1]?) ∧
    t.ReadsInside i := by
  have hlinked := Tree.linked_of_build h
  refine ⟨hlinked.children_eq_filter hi, ⟨?_, ?_, ?_⟩, ⟨?_, ?_⟩, hlinked.nested_or_disjoint hi hj, ?_,
    hlinked.readsInside hi⟩
  · rw [hlinked.length_ancestors hi]
  · exact hlinked.isSome_ancestor?_iff hi
  · exact hlinked.ancestor?_depth hi
  · rw [Arena.isAncestorOf_iff, hlinked.below_iff_mem_ancestors hi hj]
  · rw [Arena.isAncestorOf_iff, Arena.mem_subtree_iff]
  · intro hroot
    obtain ⟨p, hp, -, -⟩ := hlinked.parent (Nat.pos_of_ne_zero hroot) hi
    have hplace := hlinked.childIndex?_eq_some_iff hi hp
    obtain ⟨k, hk⟩ := hlinked.exists_childIndex? hi hp
    exact ⟨p, k, hp, hk, hplace, hlinked.nextSibling?_eq hi hp ((hplace k).mp hk),
      hlinked.prevSibling?_eq hi hp ((hplace k).mp hk)⟩

/-- A leaf between two branches: its siblings are found past and before whole subtrees. -/
theorem links_agree_between_branches :
    let word (first last : Nat) : NodeSpec := ⟨"word", ⟨first, last⟩, true, false, none, none⟩
    let events : List Event :=
      [.enter (word 0 5), .enter (word 0 2), .leaf (word 0 1), .leaf (word 1 2), .leave,
        .leaf (word 2 3), .enter (word 3 5), .leaf (word 3 4), .leave, .leave]
    ∃ t, Tree.build "g" ['a', 'b', 'c', 'd', 'e'] events = .ok t ∧ 4 < t.size ∧ 6 < t.size ∧
      t.children 0 = [1, 4, 5] ∧ t.childIndex? 4 = some 1 ∧ t.nextSibling? 4 = some 5 ∧
      t.prevSibling? 4 = some 1 ∧ t.ReadsInside 4 := by
  intro word events
  have hread : (Tree.build "g" ['a', 'b', 'c', 'd', 'e'] events).toOption.map
      (fun t => (t.size, t.parent? 4, t.children 0)) = some (7, some 0, [1, 4, 5]) := by
    decide +kernel
  obtain ⟨t, ht, hvalues⟩ := Option.map_eq_some_iff.mp hread
  obtain ⟨hsize, hparent, hchildren⟩ : t.size = 7 ∧ t.parent? 4 = some 0 ∧ t.children 0 = [1, 4, 5] := by
    simpa using hvalues
  have hbuild : Tree.build "g" ['a', 'b', 'c', 'd', 'e'] events = .ok t := by
    revert ht
    cases Tree.build "g" ['a', 'b', 'c', 'd', 'e'] events with
    | error e =>
      intro ht
      cases ht
    | ok u => exact fun ht => congrArg Except.ok (Option.some.inj ht)
  obtain ⟨-, -, -, -, hsiblings, hinside⟩ := links_agree hbuild (i := 4) (j := 6) (by omega) (by omega)
  obtain ⟨p, k, hp, hk, hplace, hnext, hprev⟩ := hsiblings (by decide)
  obtain rfl : p = 0 := Option.some.inj (hp.symm.trans hparent)
  rw [hchildren] at hplace hnext hprev
  have hone : t.childIndex? 4 = some 1 := (hplace 1).mpr rfl
  obtain rfl : k = 1 := Option.some.inj (hk.symm.trans hone)
  exact ⟨t, hbuild, by omega, by omega, hchildren, hone, hnext, hprev, hinside⟩

end Tree

end LiveSyntax
