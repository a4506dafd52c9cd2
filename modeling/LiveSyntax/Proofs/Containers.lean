import LiveSyntax.Outline.Symbol
import Mathlib.Data.List.Induction
import Mathlib.Data.List.TakeWhile
import Mathlib.Order.Bounds.Defs

/-!
# Containers are the nearest enclosing symbols

`Symbol.assignContainers` keeps a stack of open symbols. An open symbol is closed for good as soon as some
symbol does not lie inside it, although a later symbol may well do so again: spans may overlap, start
together, be empty or run backwards. The pass is right all the same, if the symbols come in the order of their
starts. A symbol that closes another one starts after it, so it can only reach past its end; whatever lies
inside the closed one from then on lies inside the newer one too, which is nearer.

So, asked about any later span, the stack gives the same answer as a search backwards through all symbols
that came before. This is what one step keeps, and nothing else about the stack has to be known.

## Main definitions

- `Symbol.nearest`: the name of the last symbol that contains a span.
- `Symbol.Stands`: a stack stands for all symbols that came before.
- `Symbol.Encloses`, `Symbol.IsContainer`: containers said by the places of the symbols.

## Main results

- `Symbol.Stands.push`: one step.
- `Symbol.assignContainers_concat`: what the pass does to one symbol more.
- `Symbol.assignContainers_nearest`: every symbol gets its nearest enclosing one.
-/

namespace LiveSyntax.Symbol

/-- The symbols come in the order of their starts. -/
abbrev InOrder (symbols : List Symbol) : Prop :=
  symbols.Pairwise fun a b => a.span.start ≤ b.span.start

/-- The name of the last symbol whose span contains a span. -/
def nearest (symbols : List Symbol) (s : Span) : Option Text :=
  (symbols.findRev? fun symbol => symbol.span.contains s).map (·.name)

variable {opened : Enclosing} {symbols before : List Symbol} {symbol : Symbol} {s u : Span} {start i j : Nat}

theorem nearest_concat (symbols : List Symbol) (symbol : Symbol) (s : Span) :
    nearest (symbols ++ [symbol]) s =
      if symbol.span.contains s then some symbol.name else nearest symbols s := by
  simp only [nearest, List.findRev?_eq_find?_reverse, List.reverse_append, List.reverse_singleton,
    List.singleton_append, List.find?_cons]
  cases symbol.span.contains s <;> rfl

/-! ### The stack -/

/-- The name that the stack gives for a span. -/
def innermost (opened : Enclosing) (s : Span) : Option Text :=
  (opened.find? fun entry => entry.1.contains s).map (·.2)

/-- A stack stands for the symbols before: for any span that starts at `start` or later it gives the name
that all of them would give. -/
structure Stands (opened : Enclosing) (before : List Symbol) (start : Nat) : Prop where
  start_le : ∀ entry ∈ opened, entry.1.start ≤ start
  answers : ∀ s : Span, start ≤ s.start → innermost opened s = nearest before s

theorem stands_nil (start : Nat) : Stands [] [] start :=
  ⟨by simp, fun _ _ => rfl⟩

theorem head?_enclosing (opened : Enclosing) (s : Span) :
    (enclosing opened s).head?.map (·.2) = innermost opened s := by
  rw [innermost, List.find?_eq_head?_dropWhile_not]
  rfl

/-- **Closed symbols are not missed.** If a span closes an open symbol, it reaches past the end of that one. So a
later span inside the closed symbol would lie inside the span that closed it. -/
theorem innermost_enclosing (hstart : ∀ entry ∈ opened, entry.1.start ≤ s.start)
    (hle : s.start ≤ u.start) (hnot : s.contains u = false) :
    innermost (enclosing opened s) u = innermost opened u := by
  induction opened with
  | nil => rfl
  | cons entry opened ih =>
    rw [enclosing, List.dropWhile_cons]
    split
    · next hclosed =>
      have hopened : innermost (enclosing opened s) u = innermost opened u :=
        ih fun e he => hstart e (List.mem_cons_of_mem _ he)
      have hentry : entry.1.contains u = false := by
        have := hstart entry List.mem_cons_self
        simp only [Span.contains, Bool.not_eq_true', decide_eq_false_iff_not] at hclosed hnot ⊢
        omega
      rw [← enclosing, hopened, innermost, innermost, List.find?_cons_of_neg (by simp [hentry])]
    · rfl

/-- **One step**: whatever does not contain the symbol is closed, and the symbol is opened. -/
theorem Stands.push (h : Stands opened before start) (hle : start ≤ symbol.span.start) :
    Stands ((symbol.span, symbol.name) :: enclosing opened symbol.span) (before ++ [symbol])
      symbol.span.start := by
  have hstart : ∀ entry ∈ opened, entry.1.start ≤ symbol.span.start :=
    fun entry hmem => Nat.le_trans (h.start_le entry hmem) hle
  constructor
  · intro entry hmem
    rcases List.mem_cons.mp hmem with rfl | hmem
    · exact Nat.le_refl _
    · exact hstart entry ((List.dropWhile_sublist _).subset hmem)
  · intro s hs
    rw [nearest_concat, innermost, List.find?_cons]
    cases hinside : symbol.span.contains s with
    | true => rfl
    | false =>
      rw [← innermost, innermost_enclosing hstart hs hinside, if_neg Bool.false_ne_true]
      exact h.answers s (Nat.le_trans hle hs)

/-! ### The pass -/

/-- **One symbol more** at the end, for a stack that stands for all symbols before. -/
theorem Stands.assignFrom_concat (h : Stands opened before start) (symbols : List Symbol)
    (hstart : ∀ other ∈ symbols ++ [symbol], start ≤ other.span.start)
    (hsorted : InOrder (symbols ++ [symbol])) :
    assignFrom opened (symbols ++ [symbol]) = assignFrom opened symbols ++
      [{ symbol with container := nearest (before ++ symbols) symbol.span }] := by
  induction symbols generalizing opened before start with
  | nil =>
    have hanswer := h.answers symbol.span (hstart symbol (by simp))
    simp only [List.nil_append, assignFrom, head?_enclosing, hanswer, List.append_nil]
  | cons first symbols ih =>
    rw [List.cons_append] at hstart hsorted ⊢
    obtain ⟨hfirst, hrest⟩ := List.pairwise_cons.mp hsorted
    have hstep := h.push (hstart first List.mem_cons_self)
    rw [assignFrom, assignFrom, ih hstep hfirst hrest, List.append_assoc, List.singleton_append,
      List.cons_append]

/-- **What the pass does to one symbol more** at the end of a list: those before keep their containers. -/
theorem assignContainers_concat (hsorted : InOrder (symbols ++ [symbol])) :
    assignContainers (symbols ++ [symbol]) = assignContainers symbols ++
      [{ symbol with container := nearest symbols symbol.span }] :=
  (stands_nil 0).assignFrom_concat symbols (fun _ _ => Nat.zero_le _) hsorted

/-- Containers aside, the pass changes nothing, whatever the order of the symbols. -/
theorem map_assignFrom {α : Type} {f : Symbol → α}
    (hf : ∀ (symbol : Symbol) (container : Option Text), f { symbol with container } = f symbol)
    (opened : Enclosing) (symbols : List Symbol) : (assignFrom opened symbols).map f = symbols.map f := by
  induction symbols generalizing opened with
  | nil => rfl
  | cons symbol symbols ih => rw [assignFrom, List.map_cons, List.map_cons, hf, ih]

theorem length_assignContainers (symbols : List Symbol) : (assignContainers symbols).length = symbols.length := by
  have h := congrArg List.length (map_assignFrom (f := fun _ => ()) (fun _ _ => rfl) [] symbols)
  rwa [List.length_map, List.length_map] at h

/-! ### Containers by place -/

/-- The symbol at place `j` comes before the one at place `i`, and its span contains the span of that one. -/
def Encloses (symbols : List Symbol) (i j : Nat) : Prop :=
  j < i ∧ ∃ outer inner, symbols[j]? = some outer ∧ symbols[i]? = some inner ∧
    outer.span.start ≤ inner.span.start ∧ inner.span.stop ≤ outer.span.stop

/-- What the container of the symbol at place `i` has to be: the name of the last symbol that encloses it, or
nothing if there is none. -/
def IsContainer (symbols : List Symbol) (i : Nat) : Option Text → Prop
  | some name => ∃ j outer, IsGreatest {j | Encloses symbols i j} j ∧ symbols[j]? = some outer ∧
      outer.name = name
  | none => ∀ j, ¬Encloses symbols i j

theorem encloses_append (hi : i < symbols.length) (more : List Symbol) :
    Encloses (symbols ++ more) i j ↔ Encloses symbols i j := by
  refine and_congr_right fun hj => ?_
  rw [List.getElem?_append_left hi, List.getElem?_append_left (Nat.lt_trans hj hi)]

theorem isContainer_append (hi : i < symbols.length) (more : List Symbol) {container : Option Text}
    (h : IsContainer symbols i container) : IsContainer (symbols ++ more) i container := by
  cases container with
  | none => exact fun j => (encloses_append hi more).not.mpr (h j)
  | some name =>
    obtain ⟨j, outer, hgreatest, hj, hname⟩ := h
    refine ⟨j, outer, ?_, ?_, hname⟩
    · simpa only [encloses_append hi more] using hgreatest
    · rw [List.getElem?_append_left (Nat.lt_trans hgreatest.1.1 hi), hj]

theorem encloses_length :
    Encloses (symbols ++ [symbol]) symbols.length j ↔
      ∃ outer, symbols[j]? = some outer ∧ outer.span.contains symbol.span = true := by
  rw [Encloses, List.getElem?_concat_length]
  constructor
  · rintro ⟨hj, outer, inner, houter, ⟨⟩, hcontains⟩
    rw [List.getElem?_append_left hj] at houter
    exact ⟨outer, houter, Span.contains_iff.mpr hcontains⟩
  · rintro ⟨outer, houter, hcontains⟩
    have hj : j < symbols.length := (List.getElem?_eq_some_iff.mp houter).1
    rw [List.getElem?_append_left hj]
    exact ⟨hj, outer, symbol, houter, rfl, Span.contains_iff.mp hcontains⟩

/-- A search backwards finds the symbol at the greatest place. -/
theorem isContainer_length (symbols : List Symbol) (symbol : Symbol) :
    IsContainer (symbols ++ [symbol]) symbols.length (nearest symbols symbol.span) := by
  rw [nearest, List.findRev?_eq_find?_reverse]
  cases hfound : symbols.reverse.find? fun other => other.span.contains symbol.span with
  | none =>
    intro j henclosing
    obtain ⟨outer, houter, hcontains⟩ := encloses_length.mp henclosing
    exact List.find?_eq_none.mp hfound outer (List.mem_reverse.mpr (List.mem_of_getElem? houter)) hcontains
  | some outer =>
    obtain ⟨hcontains, later, earlier, hsplit, hlater⟩ := List.find?_eq_some_iff_append.mp hfound
    have hcut : symbols = earlier.reverse ++ outer :: later.reverse := by
      rw [← List.reverse_reverse symbols, hsplit, List.reverse_append, List.reverse_cons, List.append_assoc,
        List.singleton_append]
    have houter : symbols[earlier.length]? = some outer := by simp [hcut]
    refine ⟨earlier.length, outer, ⟨encloses_length.mpr ⟨outer, houter, hcontains⟩, ?_⟩, ?_, rfl⟩
    · intro j henclosing
      obtain ⟨other, hother, hinside⟩ := encloses_length.mp henclosing
      by_contra hlt
      -- Past the symbol that was found there are only those that the search passed over.
      have hpassed : other ∈ later := by
        rw [hcut, List.getElem?_append_right (by rw [List.length_reverse]; omega), List.length_reverse,
          show j - earlier.length = j - earlier.length - 1 + 1 by omega, List.getElem?_cons_succ] at hother
        exact List.mem_reverse.mp (List.mem_of_getElem? hother)
      simpa [hinside] using hlater other hpassed
    · rw [List.getElem?_append_left (List.getElem?_eq_some_iff.mp houter).1, houter]

/-- **Every symbol gets its nearest enclosing symbol.** Take any symbols in the order of their starts; their
spans may overlap, start together, be empty or run backwards. Each of them stays at its place and keeps its
name, its spans and its kind. Its container is the name of the last symbol before it whose span contains its
own, and it has no container if there is no such symbol. -/
theorem assignContainers_nearest {symbols : List Symbol} (hsorted : InOrder symbols) :
    (assignContainers symbols).length = symbols.length ∧
    ∀ i symbol, symbols[i]? = some symbol →
      ∃ container, (assignContainers symbols)[i]? = some { symbol with container } ∧
        IsContainer symbols i container := by
  refine ⟨length_assignContainers symbols, ?_⟩
  induction symbols using List.reverseRecOn with
  | nil => simp
  | append_singleton symbols last ih =>
    intro i symbol hsymbol
    rw [assignContainers_concat hsorted]
    rcases Nat.lt_or_ge i symbols.length with hlt | hge
    · rw [List.getElem?_append_left hlt] at hsymbol
      obtain ⟨container, hassigned, hcontainer⟩ := ih (List.pairwise_append.mp hsorted).1 i symbol hsymbol
      refine ⟨container, ?_, isContainer_append hlt [last] hcontainer⟩
      rw [List.getElem?_append_left (by rwa [length_assignContainers]), hassigned]
    · have hi : i < (symbols ++ [last]).length := (List.getElem?_eq_some_iff.mp hsymbol).1
      obtain rfl : i = symbols.length := by
        rw [List.length_append, List.length_singleton] at hi
        omega
      rw [List.getElem?_concat_length] at hsymbol
      obtain rfl := Option.some.inj hsymbol
      refine ⟨_, ?_, isContainer_length symbols last⟩
      rw [← length_assignContainers symbols, List.getElem?_concat_length]

/-- `C` lies inside `A` and `B`, which start together, and the longer `B` has closed `A`. `E` overlaps with `B` and
closes it. `F` runs backwards and still lies between the ends of `E`. -/
theorem assignContainers_nearest_overlapping :
    let symbol (name : Char) (start stop : Nat) : Symbol :=
      ⟨[name], ⟨start, stop⟩, ⟨start, stop⟩, .function, none⟩
    let symbols := [symbol 'A' 0 4, symbol 'B' 0 6, symbol 'C' 2 3, symbol 'D' 5 5, symbol 'E' 5 9, symbol 'F' 6 2]
    InOrder symbols ∧ (assignContainers symbols).length = 6 ∧
      ((assignContainers symbols)[2]? = some { symbol 'C' 2 3 with container := some ['B'] } ∧
        IsContainer symbols 2 (some ['B'])) ∧
      ((assignContainers symbols)[4]? = some (symbol 'E' 5 9) ∧ IsContainer symbols 4 none) ∧
      (assignContainers symbols)[5]? = some { symbol 'F' 6 2 with container := some ['E'] } ∧
        IsContainer symbols 5 (some ['E']) := by
  intro symbol symbols
  have hsorted : InOrder symbols := by decide
  obtain ⟨hlength, hplaces⟩ := assignContainers_nearest hsorted
  obtain ⟨container, hc, hcontainer⟩ := hplaces 2 (symbol 'C' 2 3) rfl
  obtain rfl : some ['B'] = container := congrArg Symbol.container (Option.some.inj hc)
  obtain ⟨container, he, hnone⟩ := hplaces 4 (symbol 'E' 5 9) rfl
  obtain rfl : none = container := congrArg Symbol.container (Option.some.inj he)
  obtain ⟨container, hf, hbackwards⟩ := hplaces 5 (symbol 'F' 6 2) rfl
  obtain rfl : some ['E'] = container := congrArg Symbol.container (Option.some.inj hf)
  exact ⟨hsorted, hlength, ⟨hc, hcontainer⟩, ⟨he, hnone⟩, hf, hbackwards⟩

end LiveSyntax.Symbol
