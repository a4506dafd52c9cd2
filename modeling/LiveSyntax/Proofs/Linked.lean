import LiveSyntax.Proofs.Builder

/-!
# The links of a node table

Parent, depth and end of subtree say the same thing in three ways. `Arena.Linked` has the few facts
that tie them together; the main one is local: a node lies in a subtree exactly if it is the top of it
or its parent lies in it. Everything else about the links follows from these facts, whatever built the
table.

While a table is being built, the nodes that are open have no end yet. For them the end of the table
stands in, which is what `Builder.reach` says. Read that way, closing a node changes no end at all, and
opening one moves the ends of the open nodes past it.

## Main definitions

- `Arena.LinkedUpTo`, `Arena.Linked`: the links of a table agree.
- `Builder.reach`: where a subtree ends so far.
- `Builder.Linked`: the links agree so far, and the open nodes are the way down to the last one.

## Main results

- `Builder.Linked.enter`, `Builder.Linked.leave`: what one event keeps.
- `Tree.linked_of_build`: the links of every tree that is built agree.
-/

namespace LiveSyntax

/-- The links of a table agree, if the subtree of each node ends where `ends` says. -/
structure Arena.LinkedUpTo (t : Arena) (ends : Nat → Nat) : Prop where
  root : 0 < t.size → t.parent? Arena.root = none ∧ t.depth Arena.root = 0
  parent : ∀ {i}, 0 < i → i < t.size →
    ∃ p, t.parent? i = some p ∧ p < i ∧ t.depth i = t.depth p + 1
  bounds : ∀ {i}, i < t.size → i < ends i ∧ ends i ≤ t.size
  below_iff : ∀ {i j}, i < t.size → j < t.size →
    (i ≤ j ∧ j < ends i ↔ i = j ∨ ∃ p, t.parent? j = some p ∧ i ≤ p ∧ p < ends i)

/-- The links of a table agree. -/
def Arena.Linked (t : Arena) : Prop :=
  t.LinkedUpTo t.subtreeEnd

theorem Arena.LinkedUpTo.parent_lt {t : Arena} {ends : Nat → Nat} (h : t.LinkedUpTo ends) {i p : Nat}
    (hi : i < t.size) (hp : t.parent? i = some p) : p < i := by
  by_cases hpos : 0 < i
  · obtain ⟨q, hq, hlt, -⟩ := h.parent hpos hi
    rw [hp] at hq
    cases hq
    exact hlt
  · obtain rfl : i = 0 := by omega
    have hnone := (h.root hi).1
    rw [Arena.root, hp] at hnone
    cases hnone

theorem Arena.LinkedUpTo.parent_lt_size {t : Arena} {ends : Nat → Nat} (h : t.LinkedUpTo ends)
    {i p : Nat} (hi : i < t.size) (hp : t.parent? i = some p) : p < t.size :=
  Nat.lt_trans (h.parent_lt hi hp) hi

/-- Only the size, the parents and the depths of a table matter. -/
theorem Arena.LinkedUpTo.congr {t u : Arena} {ends : Nat → Nat} (h : t.LinkedUpTo ends)
    (hsize : u.size = t.size) (hparent : ∀ i, u.parent? i = t.parent? i)
    (hdepth : ∀ i, u.depth i = t.depth i) : u.LinkedUpTo ends := by
  constructor
  · simp only [hsize, hparent, hdepth]
    exact h.root
  · simp only [hsize, hparent, hdepth]
    exact h.parent
  · rw [hsize]
    exact h.bounds
  · simp only [hsize, hparent]
    exact h.below_iff

namespace Builder

variable {b : Builder}

theorem node_arena (b : Builder) (i : Nat) : b.arena.node i = b.nodes[i]?.getD default :=
  b.arena.node_eq_getElem? i

theorem size_arena (b : Builder) : b.arena.size = b.nodes.length :=
  b.length_nodes.symm

theorem node_enter (hnamed : b.Named) (spec : NodeSpec) (i : Nat) :
    (b.enter spec).arena.node i =
      if i = b.nodes.length then b.nextNode spec else b.arena.node i := by
  rw [node_arena, nodes_enter hnamed, node_arena, List.getElem?_append]
  by_cases hlt : i < b.nodes.length
  · rw [if_pos hlt, if_neg (by omega)]
  · rw [if_neg hlt]
    by_cases heq : i = b.nodes.length
    · rw [if_pos heq, heq, Nat.sub_self]
      rfl
    · rw [if_neg heq, List.getElem?_eq_none (by rw [List.length_singleton]; omega),
        List.getElem?_eq_none (by omega)]

/-- Closing a node leaves what it says, apart from the end of its subtree. -/
theorem node_leave {index : Nat} {outer : List Nat} (hopened : b.opened = index :: outer)
    (hlt : index < b.nodes.length) (i : Nat) :
    b.leave.arena.node i =
      if i = index then { b.arena.node i with subtreeEnd := b.nodes.length }
      else b.arena.node i := by
  rw [node_arena, nodes_leave hopened, node_arena, List.getElem?_modify]
  by_cases heq : i = index
  · subst heq
    rw [if_pos rfl, List.getElem?_eq_getElem hlt]
    simp [closed]
  · have hne : ¬index = i := fun h => heq h.symm
    rw [if_neg heq]
    simp [hne]

/-- Where the subtree of a node ends so far: that of an open node goes on to the last node. -/
def reach (b : Builder) (i : Nat) : Nat :=
  if i ∈ b.opened then b.nodes.length else b.arena.subtreeEnd i

/-- The links of the nodes so far agree. The open nodes lie one below the other, innermost first, and a
closed node ends before any open node that comes after it. -/
structure Linked (b : Builder) : Prop where
  named : b.Named
  links : b.arena.LinkedUpTo b.reach
  opened_lt : ∀ i ∈ b.opened, i < b.nodes.length
  innermost_first : b.opened.Pairwise (· > ·)
  depths : b.opened.map b.arena.depth = (List.range b.opened.length).reverse
  ended : ∀ i < b.nodes.length, i ∉ b.opened → ∀ p ∈ b.opened, i < p → b.reach i ≤ p

theorem linked_start (source : Text) : (start source).Linked := by
  have hsize : (start source).nodes = [] := nodes_eq_map _
  have hnone : ∀ i, ¬i < (start source).arena.size := by
    intro i
    rw [size_arena, hsize]
    exact Nat.not_lt_zero i
  refine ⟨named_start source, ⟨?_, ?_, ?_, ?_⟩, ?_, List.Pairwise.nil, rfl, ?_⟩
  · exact fun h => absurd h (hnone 0)
  · exact fun _ h => absurd h (hnone _)
  · exact fun h => absurd h (hnone _)
  · exact fun h => absurd h (hnone _)
  · exact fun i hi => absurd hi List.not_mem_nil
  · exact fun i _ _ p hp => absurd hp List.not_mem_nil

theorem Linked.depths_cons (h : b.Linked) {parent : Nat} {outer : List Nat}
    (hopened : b.opened = parent :: outer) :
    b.arena.depth parent = outer.length ∧
      outer.map b.arena.depth = (List.range outer.length).reverse := by
  have hdepths := h.depths
  rw [hopened, List.map_cons, List.length_cons, List.range_succ, List.reverse_append,
    List.reverse_singleton, List.singleton_append] at hdepths
  exact List.cons.inj hdepths

/-! ### Opening a node -/

section Enter

variable (spec : NodeSpec)

theorem length_enter (hnamed : b.Named) : (b.enter spec).nodes.length = b.nodes.length + 1 := by
  rw [nodes_enter hnamed, List.length_append, List.length_singleton]

/-- Opening a node moves the ends of the open nodes past it. -/
theorem reach_enter (hnamed : b.Named) {i : Nat} (hlt : i < b.nodes.length) :
    (b.enter spec).reach i = if i ∈ b.opened then b.nodes.length + 1 else b.reach i := by
  have hne : i ≠ b.nodes.length := Nat.ne_of_lt hlt
  rw [reach, opened_enter, length_enter spec hnamed]
  by_cases hopen : i ∈ b.opened
  · rw [if_pos (List.mem_cons_of_mem _ hopen), if_pos hopen]
  · have hclosed : i ∉ b.nodes.length :: b.opened := by
      simp only [List.mem_cons, not_or]
      exact ⟨hne, hopen⟩
    rw [if_neg hclosed, if_neg hopen, reach, if_neg hopen, Arena.subtreeEnd, Arena.subtreeEnd,
      node_enter hnamed, if_neg hne]

theorem reach_enter_self (hnamed : b.Named) :
    (b.enter spec).reach b.nodes.length = b.nodes.length + 1 := by
  rw [reach, opened_enter, length_enter spec hnamed, if_pos List.mem_cons_self]

/-- The new node lies exactly in the subtrees of the open nodes, and so does its parent. -/
theorem Linked.below_enter (h : b.Linked) (hplace : b.opened ≠ [] ∨ b.nodes = []) {i : Nat}
    (hi : i < b.nodes.length) :
    (b.nodes.length < (b.enter spec).reach i ↔ i ∈ b.opened) ∧
      (i ∈ b.opened ↔ ∃ p, b.opened.head? = some p ∧ i ≤ p ∧ p < (b.enter spec).reach i) := by
  rw [reach_enter spec h.named hi]
  obtain ⟨parent, outer, hopened⟩ : ∃ parent outer, b.opened = parent :: outer := by
    rcases hplace with hsome | hnone
    · exact List.exists_cons_of_ne_nil hsome
    · rw [hnone] at hi
      exact absurd hi (Nat.not_lt_zero i)
  have hparent : parent ∈ b.opened := hopened ▸ List.mem_cons_self
  have hlast := h.opened_lt parent hparent
  by_cases hopen : i ∈ b.opened
  · have hle : i ≤ parent := by
      rw [hopened] at hopen
      rcases List.mem_cons.mp hopen with rfl | houter
      · exact Nat.le_refl _
      · have hsorted := h.innermost_first
        rw [hopened] at hsorted
        exact Nat.le_of_lt (List.rel_of_pairwise_cons hsorted houter)
    rw [if_pos hopen]
    refine ⟨iff_of_true (Nat.lt_succ_self _) hopen, iff_of_true hopen ⟨parent, ?_, hle, ?_⟩⟩
    · rw [hopened, List.head?_cons]
    · omega
  · -- A closed node ended before its next open neighbour, so neither the new node nor its parent is in it.
    have hend := (h.links.bounds (i := i) (by rw [size_arena]; exact hi)).2
    rw [size_arena] at hend
    rw [if_neg hopen]
    refine ⟨iff_of_false (by omega) hopen, iff_of_false hopen ?_⟩
    rintro ⟨p, hhead, hle, hlt⟩
    rw [hopened, List.head?_cons] at hhead
    obtain rfl : parent = p := Option.some.inj hhead
    rcases Nat.lt_or_eq_of_le hle with hbefore | rfl
    · have := h.ended i hi hopen parent hparent hbefore
      omega
    · exact hopen hparent

theorem parent?_enter (hnamed : b.Named) (i : Nat) :
    (b.enter spec).arena.parent? i =
      if i = b.nodes.length then b.opened.head? else b.arena.parent? i := by
  rw [Arena.parent?, node_enter hnamed, Arena.parent?]
  split <;> rfl

theorem depth_enter (hnamed : b.Named) (i : Nat) :
    (b.enter spec).arena.depth i =
      if i = b.nodes.length then b.opened.length else b.arena.depth i := by
  rw [Arena.depth, node_enter hnamed, Arena.depth]
  split <;> rfl

/-- The new node is below no node but itself and those that are open. -/
theorem Linked.below_iff_enter (h : b.Linked) (hplace : b.opened ≠ [] ∨ b.nodes = []) {i j : Nat}
    (hi : i < b.nodes.length) (hj : j ≤ b.nodes.length) :
    i ≤ j ∧ j < (b.enter spec).reach i ↔
      i = j ∨ ∃ p, (b.enter spec).arena.parent? j = some p ∧ i ≤ p ∧
        p < (b.enter spec).reach i := by
  have hlinks := h.links
  rw [parent?_enter spec h.named]
  by_cases hlast : j = b.nodes.length
  · obtain ⟨hnode, hparents⟩ := h.below_enter spec hplace hi
    rw [if_pos hlast, hlast, ← hparents, ← hnode]
    constructor
    · exact fun hbelow => .inr hbelow.2
    · rintro (rfl | hbelow)
      · exact absurd hi (Nat.lt_irrefl _)
      · exact ⟨Nat.le_of_lt hi, hbelow⟩
  · have hilt : i < b.arena.size := by rw [size_arena]; exact hi
    have hjlt : j < b.arena.size := by rw [size_arena]; omega
    have hiff := hlinks.below_iff hilt hjlt
    rw [if_neg hlast, reach_enter spec h.named hi]
    by_cases hopen : i ∈ b.opened
    · -- The end of an open node moves along with the end of the table, and `j` lies before both.
      have hreach : b.reach i = b.nodes.length := by rw [reach, if_pos hopen]
      rw [if_pos hopen]
      rw [hreach] at hiff
      rw [size_arena] at hjlt
      constructor
      · rintro ⟨hle, -⟩
        rcases hiff.mp ⟨hle, hjlt⟩ with heq | ⟨p, hp, hle, hlt⟩
        · exact .inl heq
        · exact .inr ⟨p, hp, hle, by omega⟩
      · rintro (rfl | ⟨p, hp, hle, -⟩)
        · omega
        · have hbefore := hlinks.parent_lt (by rw [size_arena]; exact hjlt) hp
          omega
    · rw [if_neg hopen]
      exact hiff

theorem Linked.links_enter (h : b.Linked) (hplace : b.opened ≠ [] ∨ b.nodes = []) :
    (b.enter spec).arena.LinkedUpTo (b.enter spec).reach := by
  have hnamed := h.named
  have hlinks := h.links
  have hsize : (b.enter spec).arena.size = b.nodes.length + 1 := by
    rw [size_arena, length_enter spec hnamed]
  have hold : b.arena.size = b.nodes.length := size_arena b
  constructor
  · intro _
    rw [parent?_enter spec hnamed, depth_enter spec hnamed, Arena.root]
    by_cases hfirst : 0 = b.nodes.length
    · -- The very first node is the root, and nothing is open yet.
      have hnone : b.opened = [] := by
        refine List.eq_nil_iff_forall_not_mem.mpr fun i hi => ?_
        have := h.opened_lt i hi
        omega
      rw [if_pos hfirst, if_pos hfirst, hnone]
      exact ⟨rfl, rfl⟩
    · rw [if_neg hfirst, if_neg hfirst]
      exact hlinks.root (by omega)
  · intro i hpos hi
    rw [hsize] at hi
    by_cases hlast : i = b.nodes.length
    · obtain ⟨parent, outer, hopened⟩ : ∃ parent outer, b.opened = parent :: outer := by
        rcases hplace with hsome | hnone
        · exact List.exists_cons_of_ne_nil hsome
        · rw [hlast, hnone] at hpos
          exact absurd hpos (Nat.lt_irrefl 0)
      have hlt := h.opened_lt parent (hopened ▸ List.mem_cons_self)
      refine ⟨parent, ?_, by omega, ?_⟩
      · rw [parent?_enter spec hnamed, if_pos hlast, hopened, List.head?_cons]
      · rw [depth_enter spec hnamed, depth_enter spec hnamed, if_pos hlast,
          if_neg (Nat.ne_of_lt hlt), (h.depths_cons hopened).1, hopened, List.length_cons]
    · obtain ⟨p, hp, hbefore, hdeeper⟩ := hlinks.parent hpos (by omega)
      refine ⟨p, ?_, hbefore, ?_⟩
      · rw [parent?_enter spec hnamed, if_neg hlast, hp]
      · rw [depth_enter spec hnamed, depth_enter spec hnamed, if_neg hlast, if_neg (by omega),
          hdeeper]
  · intro i hi
    rw [hsize] at hi ⊢
    by_cases hlast : i = b.nodes.length
    · rw [hlast, reach_enter_self spec hnamed]
      omega
    · have hbounds := hlinks.bounds (i := i) (by omega)
      rw [reach_enter spec hnamed (by omega)]
      split <;> omega
  · intro i j hi hj
    rw [hsize] at hi hj
    by_cases hlast : i = b.nodes.length
    · -- Nothing is below the new node yet.
      rw [hlast, reach_enter_self spec hnamed, parent?_enter spec hnamed]
      constructor
      · exact fun hbelow => .inl (by omega)
      · rintro (rfl | ⟨p, hp, hle, -⟩)
        · omega
        · split at hp
          · have := h.opened_lt p (List.mem_of_mem_head? hp)
            omega
          · have := hlinks.parent_lt (by omega) hp
            omega
    · exact h.below_iff_enter spec hplace (by omega) (by omega)

/-- **Opening a node** keeps the links, if it opens below another one or is the first of all. -/
theorem Linked.enter (h : b.Linked) (hplace : b.opened ≠ [] ∨ b.nodes = []) :
    (b.enter spec).Linked := by
  have hlength := length_enter spec h.named
  refine ⟨named_enter h.named spec, h.links_enter spec hplace, ?_, ?_, ?_, ?_⟩
  · intro i hi
    rw [opened_enter] at hi
    rw [hlength]
    rcases List.mem_cons.mp hi with rfl | hold
    · exact Nat.lt_succ_self _
    · exact Nat.lt_succ_of_lt (h.opened_lt i hold)
  · rw [opened_enter]
    exact List.pairwise_cons.mpr ⟨h.opened_lt, h.innermost_first⟩
  · have hsame : b.opened.map (b.enter spec).arena.depth = b.opened.map b.arena.depth := by
      refine List.map_congr_left fun i hi => ?_
      rw [depth_enter spec h.named, if_neg (Nat.ne_of_lt (h.opened_lt i hi))]
    rw [opened_enter, List.map_cons, hsame, h.depths, depth_enter spec h.named, if_pos rfl,
      List.length_cons, List.range_succ, List.reverse_append, List.reverse_singleton,
      List.singleton_append]
  · intro i hi hclosed p hp hlt
    rw [opened_enter, List.mem_cons, not_or] at hclosed
    rw [opened_enter] at hp
    have hilt : i < b.nodes.length := by omega
    rw [reach_enter spec h.named hilt, if_neg hclosed.2]
    rcases List.mem_cons.mp hp with rfl | hold
    · rw [← size_arena]
      exact (h.links.bounds (by rw [size_arena]; exact hilt)).2
    · exact h.ended i hilt hclosed.2 p hold hlt

end Enter

/-! ### Closing a node -/

section Leave

variable {index : Nat} {outer : List Nat}

theorem length_leave (hopened : b.opened = index :: outer) :
    b.leave.nodes.length = b.nodes.length := by
  rw [nodes_leave hopened, List.length_modify]

/-- Closing a node changes no end: it only writes down where the subtree has come to. -/
theorem reach_leave (h : b.Linked) (hopened : b.opened = index :: outer) (i : Nat) :
    b.leave.reach i = b.reach i := by
  have hlt := h.opened_lt index (hopened ▸ List.mem_cons_self)
  have houter : b.leave.opened = outer := by rw [leave_eq hopened]
  rw [reach, reach, houter, length_leave hopened, Arena.subtreeEnd, node_leave hopened hlt, hopened]
  by_cases heq : i = index
  · have hnot : index ∉ outer := by
      intro hmem
      have hsorted := h.innermost_first
      rw [hopened] at hsorted
      exact Nat.lt_irrefl _ (List.rel_of_pairwise_cons hsorted hmem)
    rw [heq, if_neg hnot, if_pos rfl, if_pos List.mem_cons_self]
  · have hmem : i ∈ index :: outer ↔ i ∈ outer := by simp [heq]
    simp only [hmem, if_neg heq]
    rfl

/-- **Closing a node** keeps the links. -/
theorem Linked.leave (h : b.Linked) (hopened : b.opened = index :: outer) : b.leave.Linked := by
  have hlt := h.opened_lt index (hopened ▸ List.mem_cons_self)
  have hlength := length_leave hopened
  have houter : b.leave.opened = outer := by rw [leave_eq hopened]
  have hsorted := h.innermost_first
  rw [hopened] at hsorted
  have hreach : b.leave.reach = b.reach := funext (reach_leave h hopened)
  have hparent : ∀ i, b.leave.arena.parent? i = b.arena.parent? i := by
    intro i
    rw [Arena.parent?, node_leave hopened hlt, Arena.parent?]
    split <;> rfl
  have hdepth : ∀ i, b.leave.arena.depth i = b.arena.depth i := by
    intro i
    rw [Arena.depth, node_leave hopened hlt, Arena.depth]
    split <;> rfl
  have hsize : b.leave.arena.size = b.arena.size := by rw [size_arena, hlength, size_arena]
  refine ⟨named_leave hopened h.named, ?_, ?_, ?_, ?_, ?_⟩
  · rw [hreach]
    exact h.links.congr hsize hparent hdepth
  · intro i hi
    rw [hlength]
    rw [houter] at hi
    exact h.opened_lt i (hopened ▸ List.mem_cons_of_mem _ hi)
  · rw [houter]
    exact (List.pairwise_cons.mp hsorted).2
  · rw [houter, List.map_congr_left fun i _ => hdepth i]
    exact (h.depths_cons hopened).2
  · intro i hi hclosed p hp hbefore
    rw [hlength] at hi
    rw [houter] at hclosed hp
    rw [hreach]
    by_cases heq : i = index
    · -- The node that closes is the innermost one, so no open node comes after it.
      have := List.rel_of_pairwise_cons hsorted hp
      omega
    · refine h.ended i hi ?_ p (hopened ▸ List.mem_cons_of_mem _ hp) hbefore
      rw [hopened, List.mem_cons, not_or]
      exact ⟨heq, hclosed⟩

end Leave

/-! ### Events -/

/-- A node that opens without a fault opens in a place for it. -/
theorem place_of_fault_enter {spec : NodeSpec} (h : (b.enter spec).fault = none) :
    b.fault = none ∧ (b.opened ≠ [] ∨ b.nodes = []) := by
  change b.faultOnEnter = none at h
  unfold faultOnEnter at h
  split at h
  · cases h
  · split at h
    · simp at h
    · next hroot =>
      refine ⟨h, ?_⟩
      by_cases hopened : b.opened = []
      · right
        have hcells : b.cells = #[] := by simpa [hopened] using hroot
        rw [nodes_eq_map, hcells]
        rfl
      · exact .inl hopened

/-- A close without a fault finds a node to close. -/
theorem opened_of_fault_leave (h : b.leave.fault = none) :
    b.fault = none ∧ ∃ index outer, b.opened = index :: outer := by
  unfold Builder.leave at h
  split at h
  · simp [blame] at h
  · next index outer hopened => exact ⟨h, index, outer, hopened⟩

/-- **An event** keeps the links, unless it is a fault. -/
theorem linked_step (event : Event) (h : b.fault = none → b.Linked)
    (hfault : (b.step event).fault = none) : (b.step event).Linked := by
  cases event with
  | enter spec =>
    obtain ⟨hbefore, hplace⟩ := place_of_fault_enter hfault
    exact (h hbefore).enter spec hplace
  | leaf spec =>
    obtain ⟨hentered, index, outer, hopened⟩ := opened_of_fault_leave hfault
    obtain ⟨hbefore, hplace⟩ := place_of_fault_enter hentered
    exact ((h hbefore).enter spec hplace).leave hopened
  | leave =>
    obtain ⟨hbefore, index, outer, hopened⟩ := opened_of_fault_leave hfault
    exact (h hbefore).leave hopened

theorem linked_foldl_step (events : List Event) (h : b.fault = none → b.Linked)
    (hfault : (events.foldl step b).fault = none) : (events.foldl step b).Linked := by
  induction events generalizing b with
  | nil => exact h hfault
  | cons event events ih => exact ih (linked_step event h) hfault

end Builder

/-- **The links of every tree that is built agree**, whatever events it was built from. -/
theorem Tree.linked_of_build {grammar : String} {source : Text} {events : List Event} {t : Tree}
    (h : Tree.build grammar source events = .ok t) : t.Linked := by
  have hnodes := Builder.nodes_of_finish h
  obtain ⟨hfault, hopened, -, -⟩ := Builder.finish_eq_ok_iff.mp h
  have hlinked := Builder.linked_foldl_step events (fun _ => Builder.linked_start source) hfault
  have hlinks := hlinked.links
  revert hnodes hopened hlinks
  generalize events.foldl Builder.step (Builder.start source) = b
  intro hnodes hopened hlinks
  -- Nothing is open any more, and widening the root leaves its links.
  have hreach : b.reach = b.arena.subtreeEnd := by
    funext i
    rw [Builder.reach, hopened, if_neg List.not_mem_nil]
  have hnode : ∀ i, (t.node i).parent = b.arena.parent? i ∧ (t.node i).depth = b.arena.depth i ∧
      (t.node i).subtreeEnd = b.arena.subtreeEnd i := by
    intro i
    rw [Arena.parent?, Arena.depth, Arena.subtreeEnd, Arena.node_eq_getElem?, hnodes,
      List.getElem?_modify, Builder.node_arena]
    cases b.nodes[i]? with
    | none => exact ⟨rfl, rfl, rfl⟩
    | some n => by_cases hroot : Arena.root = i <;> simp [hroot, Builder.rootShape]
  have hsize : t.size = b.arena.size := by
    rw [← Arena.length_nodes, hnodes, List.length_modify, Builder.size_arena]
  have hend : t.subtreeEnd = b.arena.subtreeEnd := funext fun i => (hnode i).2.2
  unfold Arena.Linked
  rw [hend, ← hreach]
  exact hlinks.congr hsize (fun i => (hnode i).1) fun i => (hnode i).2.1

end LiveSyntax
