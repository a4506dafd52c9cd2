import LiveSyntax.Outline.Inheritance
import Mathlib.Logic.ExistsUnique
import Mathlib.Logic.Relation

/-!
# Loading what a query inherits

Loading a query goes down along the languages that it inherits from. A language that is being loaded already is
passed over, but only as long as it is being loaded: what was loaded on one way down is loaded again on another one.
`QueryFiles.Loads` is the loading without any count of steps. It is a relation between what is asked and what is
answered, so that there is an answer only if the loading comes to an end.

It does come to an end, since on the way down every language is a new one of those that some file names. And it
misses nothing. A way to a language that meets a language being loaded can be cut short: it need only be followed
from its last visit there, and from then on it does not come back.

## Main definitions

- `QueryFiles.Inherits`, `QueryFiles.Reaches`: one step of inheritance, and any number of steps.
- `QueryFiles.Loads`: a loading that comes to an end, with its answer.
- `QueryFiles.Gathers`: the parts that are loaded for some languages are the right ones.

## Main results

- `QueryFiles.loads_load`: there is such a loading, and it gives the answer that is given.
- `QueryFiles.Loads.unique`: there is no more than one answer.
- `QueryFiles.ReachesOff.cut`: a way can be followed from its last visit to a language.
- `QueryFiles.load_terminates_complete`: when loading fails, and what it gives otherwise.
-/

namespace LiveSyntax.QueryFiles

variable {files : QueryFiles} {visiting languages : List String} {inherited : Bool}
  {language parent other : String} {text : Text} {answer answer' : Except QueryFileError (List Text)}

/-- A language names another one as a parent. -/
def Inherits (files : QueryFiles) (language parent : String) : Prop :=
  ∃ text, files.read language = .ok text ∧ parent ∈ parents text

theorem inherits_iff : files.Inherits language parent ↔
    (files.read language).toOption.any (parent ∈ parents ·) = true := by
  rw [Inherits]
  cases files.read language <;> simp [Except.toOption]

instance : Decidable (files.Inherits language parent) :=
  decidable_of_iff _ inherits_iff.symm

/-- A language inherits from another one in any number of steps. -/
def Reaches (files : QueryFiles) : String → String → Prop :=
  Relation.ReflTransGen files.Inherits

/-- The parts of a query, one in each line. -/
def joined (parts : List Text) : Text :=
  List.intercalate ['\n'] parts

/-- Languages are loaded one after the other, each with all that it inherits, until one of them fails. -/
inductive Loads (files : QueryFiles) :
    (visiting : List String) → (inherited : Bool) → (languages : List String) → Except QueryFileError (List Text) → Prop
  | done {visiting : List String} {inherited : Bool} : Loads files visiting inherited [] (.ok [])
  | passed {visiting languages : List String} {inherited : Bool} {language : String}
    {answer : Except QueryFileError (List Text)} (seen : language ∈ visiting)
    (rest : Loads files visiting inherited languages answer) :
    Loads files visiting inherited (language :: languages) (answer.map ([] :: ·))
  | skipped {visiting languages : List String} {language : String} {answer : Except QueryFileError (List Text)}
    (new : language ∉ visiting) (absent : files.read language = .error .notFound)
    (rest : Loads files visiting true languages answer) :
    Loads files visiting true (language :: languages) (answer.map ([] :: ·))
  | refused {visiting languages : List String} {inherited : Bool} {language : String} {fault : FileFault}
    (new : language ∉ visiting) (unreadable : files.read language = .error fault)
    (needed : inherited = true → fault ≠ .notFound) :
    Loads files visiting inherited (language :: languages) (.error ⟨files.path language, fault⟩)
  | failed {visiting languages : List String} {inherited : Bool} {language : String} {text : Text}
    {e : QueryFileError} (new : language ∉ visiting) (readable : files.read language = .ok text)
    (below : Loads files (language :: visiting) true (parents text) (.error e)) :
    Loads files visiting inherited (language :: languages) (.error e)
  | loaded {visiting languages : List String} {inherited : Bool} {language : String} {text : Text}
    {parts : List Text} {answer : Except QueryFileError (List Text)} (new : language ∉ visiting)
    (readable : files.read language = .ok text)
    (below : Loads files (language :: visiting) true (parents text) (.ok parts))
    (rest : Loads files visiting inherited languages answer) :
    Loads files visiting inherited (language :: languages) (answer.map (joined (text :: parts) :: ·))

/-- **There is no more than one answer.** -/
theorem Loads.unique (h : Loads files visiting inherited languages answer)
    (h' : Loads files visiting inherited languages answer') : answer = answer' := by
  induction h generalizing answer' with
  | done =>
    cases h'
    rfl
  | passed seen _ ih =>
    cases h' with
    | passed _ rest => rw [ih rest]
    | skipped new _ _ | refused new _ _ | failed new _ _ | loaded new _ _ _ => exact absurd seen new
  | skipped new absent _ ih =>
    cases h' with
    | passed seen _ => exact absurd seen new
    | skipped _ _ rest => rw [ih rest]
    | refused _ unreadable needed =>
      rw [absent] at unreadable
      cases unreadable
      exact absurd rfl (needed rfl)
    | failed _ readable _ | loaded _ readable _ _ => cases absent.symm.trans readable
  | refused new unreadable needed =>
    cases h' with
    | passed seen _ => exact absurd seen new
    | skipped _ absent _ =>
      rw [unreadable] at absent
      cases absent
      exact absurd rfl (needed rfl)
    | refused _ again _ =>
      cases unreadable.symm.trans again
      rfl
    | failed _ readable _ | loaded _ readable _ _ => cases unreadable.symm.trans readable
  | failed new readable _ ih =>
    cases h' with
    | passed seen _ => exact absurd seen new
    | skipped _ absent _ => cases absent.symm.trans readable
    | refused _ unreadable _ => cases unreadable.symm.trans readable
    | failed _ again below =>
      cases readable.symm.trans again
      cases ih below
      rfl
    | loaded _ again below _ =>
      cases readable.symm.trans again
      cases ih below
  | loaded new readable _ _ ihbelow ihrest =>
    cases h' with
    | passed seen _ => exact absurd seen new
    | skipped _ absent _ => cases absent.symm.trans readable
    | refused _ unreadable _ => cases unreadable.symm.trans readable
    | failed _ again below =>
      cases readable.symm.trans again
      cases ihbelow below
    | loaded _ again below rest =>
      cases readable.symm.trans again
      cases ihbelow below
      rw [ihrest rest]

/-! ### The way down comes to an end -/

/-- The parents of a language are among those that all files together name. -/
theorem mem_named (h : files.Inherits language parent) : parent ∈ files.named := by
  obtain ⟨text, hread, hparent⟩ := h
  exact List.mem_flatMap.mpr ⟨text, Files.mem_texts hread, hparent⟩

/-- The named languages that are not being loaded. -/
def unvisited (files : QueryFiles) (visiting : List String) : List String :=
  files.named.filter (· ∉ visiting)

theorem length_unvisited_cons (hnamed : language ∈ files.named) (hnew : language ∉ visiting) :
    (files.unvisited (language :: visiting)).length < (files.unvisited visiting).length := by
  have hfilter : files.unvisited (language :: visiting) = (files.unvisited visiting).filter (· ≠ language) := by
    simp [unvisited, List.filter_filter]
  rw [hfilter, List.length_filter_lt_length_iff_exists]
  exact ⟨language, List.mem_filter.mpr ⟨hnamed, decide_eq_true hnew⟩, by simp⟩

/-- One more language is loaded in front of others, if the languages below it are loaded with less fuel. -/
theorem loads_cons {fuel : Nat} (hbelow : ∀ text, language ∉ visiting → files.read language = .ok text →
      Loads files (language :: visiting) true (parents text)
        ((parents text).mapM (files.loadUpTo fuel (language :: visiting) true)))
    (hrest : Loads files visiting inherited languages
      (languages.mapM (files.loadUpTo (fuel + 1) visiting inherited))) :
    Loads files visiting inherited (language :: languages)
      ((language :: languages).mapM (files.loadUpTo (fuel + 1) visiting inherited)) := by
  rw [List.mapM_cons]
  generalize languages.mapM (files.loadUpTo (fuel + 1) visiting inherited) = answer at hrest
  rw [loadUpTo]
  by_cases hseen : language ∈ visiting
  · rw [if_pos (List.contains_iff_mem.mpr hseen)]
    exact .passed hseen hrest
  rw [if_neg (mt List.contains_iff_mem.mp hseen)]
  cases hread : files.read language with
  | error fault =>
    by_cases hskip : inherited = true ∧ fault = .notFound
    · obtain ⟨rfl, rfl⟩ := hskip
      exact .skipped hseen hread hrest
    · have hrefuse : ¬(inherited && fault == .notFound) = true := by simpa using hskip
      simp only [if_neg hrefuse]
      exact .refused hseen hread fun hinherited hfault => hskip ⟨hinherited, hfault⟩
  | ok text =>
    have hloads := hbelow text hseen hread
    cases hparts : (parents text).mapM (files.loadUpTo fuel (language :: visiting) true) with
    | error e =>
      simp only [hparts]
      exact .failed hseen hread (hparts ▸ hloads)
    | ok parts =>
      simp only [hparts]
      exact .loaded hseen hread (hparts ▸ hloads) hrest

/-- **Fuel for every named language that is not being loaded yet is enough**: each one on the way down is new. -/
theorem loads_mapM {fuel : Nat} (hfuel : (files.unvisited visiting).length < fuel)
    (hnamed : ∀ language ∈ languages, language ∈ files.named) :
    Loads files visiting inherited languages (languages.mapM (files.loadUpTo fuel visiting inherited)) := by
  induction fuel generalizing visiting inherited languages with
  | zero => exact absurd hfuel (Nat.not_lt_zero _)
  | succ fuel ih =>
    induction languages with
    | nil => exact .done
    | cons language languages ihrest =>
      obtain ⟨hfirst, hothers⟩ := List.forall_mem_cons.mp hnamed
      refine loads_cons (fun text hnew hread => ?_) (ihrest hothers)
      have hless := length_unvisited_cons hfirst hnew
      exact ih (by omega) fun parent hparent => mem_named ⟨text, hread, hparent⟩

/-- **Loading comes to an end**, whatever inherits from what, with the answer that is given. -/
theorem loads_load (files : QueryFiles) (language : String) :
    Loads files [] false [language] ((files.load language).map ([·])) := by
  have hloads : Loads files [] false [language]
      ([language].mapM (files.loadUpTo (files.named.length + 2) [] false)) := by
    refine loads_cons (fun text _ hread => ?_) .done
    have hall : (files.unvisited [language]).length ≤ files.named.length := List.length_filter_le _ _
    exact loads_mapM (by omega) fun parent hparent => mem_named ⟨text, hread, hparent⟩
  rw [List.mapM_cons] at hloads
  rw [load]
  cases hanswer : files.loadUpTo (files.named.length + 2) [] false language with
  | error e => rwa [hanswer] at hloads
  | ok text => rwa [hanswer] at hloads

/-! ### Ways that do not come back -/

/-- A language inherits from another one in steps that lead to no language being loaded. -/
def ReachesOff (files : QueryFiles) (visiting : List String) : String → String → Prop :=
  Relation.ReflTransGen fun language parent => files.Inherits language parent ∧ parent ∉ visiting

theorem reachesOff_nil (h : files.Reaches language other) : files.ReachesOff [] language other :=
  Relation.ReflTransGen.mono (fun _ _ hstep => ⟨hstep, List.not_mem_nil⟩) _ _ h

/-- **A way can be followed from its last visit to the language where it starts**: from then on it does not come
back. -/
theorem ReachesOff.cut (h : files.ReachesOff visiting language other) :
    other = language ∨ ∃ parent, files.Inherits language parent ∧ parent ∉ language :: visiting ∧
      files.ReachesOff (language :: visiting) parent other := by
  induction h with
  | refl => exact .inl rfl
  | @tail middle last _ hstep ih =>
    obtain ⟨hinherits, hoff⟩ := hstep
    by_cases hback : last = language
    · exact .inl hback
    have hnew : last ∉ language :: visiting := by
      rw [List.mem_cons, not_or]
      exact ⟨hback, hoff⟩
    right
    obtain rfl | ⟨parent, hparent, hfresh, hway⟩ := ih
    · exact ⟨last, hinherits, hnew, .refl⟩
    · exact ⟨parent, hparent, hfresh, hway.tail ⟨hinherits, hnew⟩⟩

/-! ### What is gathered -/

theorem joined_cons_cons (first next : Text) (rest : List Text) :
    joined (first :: next :: rest) = first ++ ['\n'] ++ joined (next :: rest) :=
  List.intercalate_cons_cons

theorem joined_append_cons (before first : Text) (rest : List Text) :
    joined ((before ++ first) :: rest) = before ++ joined (first :: rest) := by
  cases rest with
  | nil => simp [joined]
  | cons next rest => simp only [joined_cons_cons, List.append_assoc]

theorem joined_joined_cons (first : Text) (more rest : List Text) :
    joined (joined (first :: more) :: rest) = joined (first :: (more ++ rest)) := by
  induction more generalizing first with
  | nil => simp [joined]
  | cons next more ih =>
    rw [joined_cons_cons, joined_append_cons, ih, List.cons_append, joined_cons_cons]

/-- Parts that were joined before can as well be joined all at once. -/
theorem joined_cons_map_joined (first : Text) {blocks : List (List Text)} (hsome : ∀ block ∈ blocks, block ≠ []) :
    joined (first :: blocks.map joined) = joined (first :: blocks.flatten) := by
  induction blocks generalizing first with
  | nil => rfl
  | cons block blocks ih =>
    obtain ⟨hblock, hothers⟩ := List.forall_mem_cons.mp hsome
    obtain ⟨next, more, rfl⟩ := List.exists_cons_of_ne_nil hblock
    rw [List.map_cons, joined_cons_cons, ih _ hothers, joined_joined_cons, List.flatten_cons, List.cons_append,
      joined_cons_cons]

/-- The parts that are loaded for some languages, in blocks that stand for one language each: nothing but texts of
languages that they reach, and all of these that are there. -/
structure Gathers (files : QueryFiles) (visiting languages : List String) (blocks : List (List Text)) : Prop where
  filled : ∀ block ∈ blocks, block ≠ []
  reached : ∀ block ∈ blocks, ∀ part ∈ block,
    part = [] ∨ ∃ language ∈ languages, ∃ other, files.Reaches language other ∧ files.read other = .ok part
  complete : ∀ language ∈ languages, language ∉ visiting → ∀ other, files.ReachesOff visiting language other →
    (∃ text, files.read other = .ok text ∧ ∃ block ∈ blocks, text ∈ block) ∨ files.read other = .error .notFound

theorem gathers_nil : Gathers files visiting [] [] := by
  constructor <;> simp

/-- One more language adds a block of its own. -/
theorem Gathers.cons {block : List Text} {blocks : List (List Text)} (h : Gathers files visiting languages blocks)
    (hsome : block ≠ [])
    (hreached : ∀ part ∈ block, part = [] ∨ ∃ other, files.Reaches language other ∧ files.read other = .ok part)
    (hcomplete : language ∉ visiting → ∀ other, files.ReachesOff visiting language other →
      (∃ text, files.read other = .ok text ∧ text ∈ block) ∨ files.read other = .error .notFound) :
    Gathers files visiting (language :: languages) (block :: blocks) := by
  refine ⟨List.forall_mem_cons.mpr ⟨hsome, h.filled⟩, List.forall_mem_cons.mpr ⟨?_, ?_⟩,
    List.forall_mem_cons.mpr ⟨?_, ?_⟩⟩
  · intro part hpart
    exact (hreached part hpart).imp_right fun hother => ⟨language, List.mem_cons_self, hother⟩
  · intro block hblock part hpart
    obtain hempty | ⟨other, hother, hfound⟩ := h.reached block hblock part hpart
    · exact .inl hempty
    · exact .inr ⟨other, List.mem_cons_of_mem _ hother, hfound⟩
  · intro hnew other hway
    obtain ⟨text, hread, htext⟩ | habsent := hcomplete hnew other hway
    · exact .inl ⟨text, hread, block, List.mem_cons_self, htext⟩
    · exact .inr habsent
  · intro other hother hnew last hway
    obtain ⟨text, hread, block, hblock, htext⟩ | habsent := h.complete other hother hnew last hway
    · exact .inl ⟨text, hread, block, List.mem_cons_of_mem _ hblock, htext⟩
    · exact .inr habsent

/-- A language that is passed over or has no file adds an empty part. -/
theorem Gathers.pass {blocks : List (List Text)} (h : Gathers files visiting languages blocks)
    (hpass : language ∈ visiting ∨ files.read language = .error .notFound) :
    Gathers files visiting (language :: languages) ([[]] :: blocks) := by
  refine h.cons (List.cons_ne_nil _ _) (fun part hpart => .inl (List.mem_singleton.mp hpart)) ?_
  intro hnew other hway
  have habsent := hpass.resolve_left hnew
  -- Nothing is inherited without a file, so the way ends where it starts.
  obtain rfl | ⟨parent, ⟨text, hread, -⟩, -⟩ := hway.cut
  · exact .inr habsent
  · cases habsent.symm.trans hread

/-- A language with a file adds its text and all that is gathered below it. -/
theorem Gathers.load {below blocks : List (List Text)} (h : Gathers files visiting languages blocks)
    (hread : files.read language = .ok text)
    (hbelow : Gathers files (language :: visiting) (parents text) below) :
    Gathers files visiting (language :: languages) ((text :: below.flatten) :: blocks) := by
  refine h.cons (List.cons_ne_nil _ _) (List.forall_mem_cons.mpr ⟨?_, ?_⟩) ?_
  · exact .inr ⟨language, .refl, hread⟩
  · intro part hpart
    obtain ⟨block, hblock, hpart⟩ := List.mem_flatten.mp hpart
    obtain hempty | ⟨parent, hparent, other, hreaches, hother⟩ := hbelow.reached block hblock part hpart
    · exact .inl hempty
    · exact .inr ⟨other, .head ⟨text, hread, hparent⟩ hreaches, hother⟩
  · intro hnew other hway
    obtain rfl | ⟨parent, ⟨_, hagain, hparent⟩, hfresh, hoff⟩ := hway.cut
    · exact .inl ⟨text, hread, List.mem_cons_self⟩
    · cases hread.symm.trans hagain
      obtain ⟨part, hother, block, hblock, hpart⟩ | habsent := hbelow.complete parent hparent hfresh other hoff
      · exact .inl ⟨part, hother, List.mem_cons_of_mem _ (List.mem_flatten.mpr ⟨block, hblock, hpart⟩)⟩
      · exact .inr habsent

/-- **A loading that succeeds gathers the right parts.** -/
theorem Loads.gathers (h : Loads files visiting inherited languages answer) :
    ∀ texts, answer = .ok texts → ∃ blocks, texts = blocks.map joined ∧ Gathers files visiting languages blocks := by
  induction h with
  | done =>
    rintro _ ⟨⟩
    exact ⟨[], rfl, gathers_nil⟩
  | @passed _ _ _ _ answer seen _ ih =>
    intro texts htexts
    cases answer with
    | error e => cases htexts
    | ok others =>
      obtain ⟨blocks, rfl, hgathers⟩ := ih others rfl
      cases htexts
      exact ⟨[[]] :: blocks, rfl, hgathers.pass (.inl seen)⟩
  | @skipped _ _ _ answer new absent _ ih =>
    intro texts htexts
    cases answer with
    | error e => cases htexts
    | ok others =>
      obtain ⟨blocks, rfl, hgathers⟩ := ih others rfl
      cases htexts
      exact ⟨[[]] :: blocks, rfl, hgathers.pass (.inr absent)⟩
  | refused new unreadable needed => intro texts htexts; cases htexts
  | failed new readable below ih => intro texts htexts; cases htexts
  | @loaded _ _ _ _ text parts answer new readable _ _ ihbelow ihrest =>
    intro texts htexts
    obtain ⟨below, rfl, hbelow⟩ := ihbelow parts rfl
    cases answer with
    | error e => cases htexts
    | ok others =>
      obtain ⟨blocks, rfl, hgathers⟩ := ihrest others rfl
      cases htexts
      refine ⟨(text :: below.flatten) :: blocks, ?_, hgathers.load readable hbelow⟩
      rw [List.map_cons, joined_cons_map_joined text hbelow.filled]

/-- **A loading that fails met a file that cannot be read**, and not only because there is none, unless the
language was asked for. -/
theorem Loads.fails (h : Loads files visiting inherited languages answer) :
    ∀ e, answer = .error e → ∃ language ∈ languages, ∃ other fault, files.Reaches language other ∧
      files.read other = .error fault ∧ (fault = .notFound → inherited = false ∧ other = language) ∧
      e = ⟨files.path other, fault⟩ := by
  induction h with
  | done => intro e he; cases he
  | @passed _ _ _ _ answer seen _ ih | @skipped _ _ _ answer new absent _ ih =>
    intro e he
    cases answer with
    | ok others => cases he
    | error e' =>
      cases he
      obtain ⟨language, hmem, hfails⟩ := ih _ rfl
      exact ⟨language, List.mem_cons_of_mem _ hmem, hfails⟩
  | refused new unreadable needed =>
    intro e he
    cases he
    refine ⟨_, List.mem_cons_self, _, _, .refl, unreadable, fun hfault => ⟨?_, rfl⟩, rfl⟩
    exact Bool.eq_false_iff.mpr fun hinherited => needed hinherited hfault
  | failed new readable _ ih =>
    intro e he
    cases he
    obtain ⟨parent, hparent, other, fault, hreaches, hread, hneeded, rfl⟩ := ih _ rfl
    refine ⟨_, List.mem_cons_self, other, fault, .head ⟨_, readable, hparent⟩ hreaches, hread, fun hfault => ?_, rfl⟩
    cases (hneeded hfault).1
  | @loaded _ _ _ _ _ _ answer _ _ _ _ _ ih =>
    intro e he
    cases answer with
    | ok others => cases he
    | error e' =>
      cases he
      obtain ⟨language, hmem, hfails⟩ := ih _ rfl
      exact ⟨language, List.mem_cons_of_mem _ hmem, hfails⟩

/-- A loading of one language that succeeds starts with its own text. -/
theorem Loads.top (h : Loads files [] false [language] answer) {texts : List Text} (hok : answer = .ok texts) :
    ∃ top parts, files.read language = .ok top ∧ Loads files [language] true (parents top) (.ok parts) ∧
      texts = [joined (top :: parts)] := by
  cases h with
  | passed seen _ => cases seen
  | refused _ _ _ => cases hok
  | failed _ _ _ => cases hok
  | @loaded _ _ _ _ top parts _ _ readable below rest =>
    cases rest
    cases hok
    exact ⟨top, parts, readable, below, rfl⟩

/-- **Loading a query comes to an end and misses nothing.** Whatever the files are and whoever inherits from whom,
there is one answer to which a loading comes. It is a failure exactly if the file of the language cannot be read, or
is not there, or if the language reaches one whose file is there and cannot be read. Otherwise the answer is the text
of the language, followed line by line by parts that are empty or the text of a language that it reaches, and the
text of every language that it reaches is one of them, if there is one. -/
theorem load_terminates_complete (files : QueryFiles) (language : String) :
    (∃! answer, Loads files [] false [language] answer) ∧
    Loads files [] false [language] ((files.load language).map ([·])) ∧
    ((∃ e, files.load language = .error e) ↔ (∃ fault, files.read language = .error fault) ∨
      ∃ other fault, files.Reaches language other ∧ files.read other = .error fault ∧ fault ≠ .notFound) ∧
    ∀ text, files.load language = .ok text → ∃ top parts, files.read language = .ok top ∧
      text = List.intercalate ['\n'] (top :: parts) ∧
      (∀ part ∈ parts, part = [] ∨ ∃ other, files.Reaches language other ∧ files.read other = .ok part) ∧
      ∀ other part, files.Reaches language other → files.read other = .ok part → part ∈ top :: parts := by
  have hloads := files.loads_load language
  have hgathered : ∀ text, files.load language = .ok text → ∃ (top : Text) (below : List (List Text)),
      files.read language = .ok top ∧ text = joined (top :: below.flatten) ∧
      Gathers files [] [language] [top :: below.flatten] := by
    intro text htext
    rw [htext] at hloads
    obtain ⟨top, parts, hread, hbelow, htexts⟩ := hloads.top rfl
    obtain ⟨below, rfl, hgathers⟩ := hbelow.gathers _ rfl
    rw [joined_cons_map_joined top hgathers.filled] at htexts
    exact ⟨top, below, hread, List.singleton_inj.mp htexts, gathers_nil.load hread hgathers⟩
  refine ⟨⟨_, hloads, fun answer hanswer => hanswer.unique hloads⟩, hloads, ⟨?_, ?_⟩, fun text htext => ?_⟩
  · rintro ⟨e, he⟩
    rw [he] at hloads
    obtain ⟨_, hlanguage, other, fault, hreaches, hread, hneeded, -⟩ := hloads.fails e rfl
    obtain rfl := List.mem_singleton.mp hlanguage
    by_cases hfault : fault = .notFound
    · exact .inl ⟨fault, (hneeded hfault).2 ▸ hread⟩
    · exact .inr ⟨other, fault, hreaches, hread, hfault⟩
  · intro hunreadable
    cases hload : files.load language with
    | error e => exact ⟨e, rfl⟩
    | ok text =>
      obtain ⟨top, below, hread, -, hall⟩ := hgathered text hload
      obtain ⟨fault, hfault⟩ | ⟨other, fault, hreaches, hfault, hpresent⟩ := hunreadable
      · cases hfault.symm.trans hread
      · obtain ⟨part, hpart, -⟩ | habsent :=
          hall.complete language (List.mem_singleton_self _) List.not_mem_nil other (reachesOff_nil hreaches)
        · cases hfault.symm.trans hpart
        · cases hfault.symm.trans habsent
          exact absurd rfl hpresent
  · obtain ⟨top, below, hread, rfl, hall⟩ := hgathered text htext
    refine ⟨top, below.flatten, hread, rfl, fun part hpart => ?_, fun other part hreaches hother => ?_⟩
    · obtain hempty | ⟨_, hlanguage, hreached⟩ :=
        hall.reached _ (List.mem_singleton_self _) part (List.mem_cons_of_mem _ hpart)
      · exact .inl hempty
      · exact .inr (List.mem_singleton.mp hlanguage ▸ hreached)
    · obtain ⟨_, hagain, block, hblock, hpart⟩ | habsent :=
        hall.complete language (List.mem_singleton_self _) List.not_mem_nil other (reachesOff_nil hreaches)
      · cases hother.symm.trans hagain
        exact List.mem_singleton.mp hblock ▸ hpart
      · cases hother.symm.trans habsent

/-- The first language and the second one inherit from each other, the fourth one is inherited in two ways and from
itself, and the third one also inherits from one without a file. The query of the fourth one is found under a second
path as well. The sixth one inherits from one that has a file where its directory should be. -/
theorem load_terminates_complete_two_ways :
    let queries := ["; inherits: b, c", "; inherits: d,a", "; inherits: ./d, e", "; inherits: d", "; inherits: g"]
    let paths : List (String × Fin 5) :=
      [("lib/a/q", 0), ("lib/b/q", 1), ("lib/c/q", 2), ("lib/d/q", 3), ("lib/./d/q", 3), ("lib/f/q", 4)]
    let files : QueryFiles := {
      files := {
        contents := queries.map fun query => Text.bytes query.toList
        find := fun path => match paths.lookup path with
          | some i => .ok i
          | none => .error (if path = "lib/g/q" then .other "NotADirectory" else .notFound) }
      directory := "lib/"
      file := "q" }
    files.Inherits "a" "b" ∧ files.Inherits "b" "a" ∧ files.Inherits "c" "./d" ∧ files.Inherits "f" "g" ∧
    (∃ text top parts, files.load "a" = .ok text ∧ files.read "a" = .ok top ∧
      text = List.intercalate ['\n'] (top :: parts) ∧ "; inherits: d".toList ∈ top :: parts) ∧
    ∃ e, files.load "f" = .error e := by
  intro queries paths files
  obtain ⟨-, -, -, hparts⟩ := load_terminates_complete files "a"
  obtain ⟨-, -, hfails, -⟩ := load_terminates_complete files "f"
  have hab : files.Inherits "a" "b" := by decide +kernel
  have hba : files.Inherits "b" "a" := by decide +kernel
  have hcd : files.Inherits "c" "./d" := by decide +kernel
  have hac : files.Inherits "a" "c" := by decide +kernel
  have hfg : files.Inherits "f" "g" := by decide +kernel
  have hloaded : (files.load "a").toOption.isSome = true := by decide +kernel
  have hlast : (files.read "./d").toOption = some "; inherits: d".toList := by decide +kernel
  have hpath : files.path "g" = "lib/g/q" := by decide +kernel
  have hblocked : files.read "g" = .error (.other "NotADirectory") := by
    rw [read, hpath]
    rfl
  refine ⟨hab, hba, hcd, hfg, ?_, hfails.mpr (.inr ⟨"g", _, .single hfg, hblocked, by decide⟩)⟩
  cases hload : files.load "a" with
  | error e => simp [hload, Except.toOption] at hloaded
  | ok text =>
    obtain ⟨top, parts, htop, htext, -, hall⟩ := hparts text hload
    cases hread : files.read "./d" with
    | error fault => simp [hread, Except.toOption] at hlast
    | ok last =>
      rw [hread] at hlast
      cases hlast
      exact ⟨text, top, parts, rfl, htop, htext, hall "./d" _ (.head hac (.single hcd)) hread⟩

end LiveSyntax.QueryFiles
