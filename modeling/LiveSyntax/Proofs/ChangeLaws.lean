import LiveSyntax.Proofs.Replay

/-!
# Changes undone, and changes by bytes

A change that fits a text cuts it into three parts: what comes before, what is deleted, and what comes after.
`Edit.exchange` is the edit of such a cut. It does not depend on what comes after, and turns into the edit of
the inverse change when the deleted and the inserted part trade places. So every replay can be run
backwards, and a span of bytes that stands between characters can be replaced by either kind of change.

## Main definitions

- `Change.inverse`, `Edit.inverse`: the deleted and the inserted part trade places.
- `Edit.exchange`: the edit that puts one text in the place of another, behind a third.
- `Change.Applicable`, `Change.Overruns`: the change can be made, or reaches past the end of the text.

## Main results

- `Edit.ofChange_eq_ok_iff`: the edit of a change is that of a cut of the text.
- `Edit.ofChange_decides_applicable`: which changes have an edit, and why any other has none.
- `Change.replay_iff_undone`: the inverse changes in reverse order lead back, through the inverse edits.
- `Edit.replace_eq_ofChange`: replacing bytes and changing characters give the same edit.

## Design notes

Positions are held at the greatest machine word. Undoing needs no bound, because the same positions are held on
both ways. A position read off the bytes is exact, so the last result is about texts that fit a word.
-/

namespace LiveSyntax

namespace Text

variable {text : Text}

@[simp] theorem byteOfChar_append (before after : Text) :
    byteOfChar (before ++ after) before.length = before.byteCount := by
  rw [byteOfChar, List.take_left]

@[simp] theorem charOfByte_append (before after : Text) :
    charOfByte (before ++ after) before.byteCount = before.length := by
  have hchar := charOfByte_byteOfChar (before ++ after) before.length
  simpa using hchar

/-- A byte stands between characters exactly if it cuts the text in two. -/
theorem isBoundary_iff {b : Nat} :
    text.isBoundary b = true ↔ ∃ before after : Text, text = before ++ after ∧ before.byteCount = b := by
  constructor
  · intro h
    exact ⟨_, _, (List.take_append_drop (text.charOfByte b) text).symm, of_decide_eq_true h⟩
  · rintro ⟨before, after, rfl, rfl⟩
    simp [isBoundary]

theorem slice?_append (before middle after : Text) :
    slice? (before ++ (middle ++ after)) before.byteCount (before.byteCount + middle.byteCount) =
      some middle := by
  have hstop : charOfByte (before ++ (middle ++ after)) (before.byteCount + middle.byteCount) =
      (before ++ middle).length := by
    rw [← List.append_assoc, ← byteCount_append, charOfByte_append]
  have hcut : isBoundary (before ++ (middle ++ after)) (before.byteCount + middle.byteCount) = true :=
    isBoundary_iff.mpr ⟨before ++ middle, after, by simp, by simp⟩
  have hstart : isBoundary (before ++ (middle ++ after)) before.byteCount = true :=
    isBoundary_iff.mpr ⟨before, middle ++ after, rfl, rfl⟩
  rw [slice?, if_pos ⟨Nat.le_add_right _ _, hstart, hcut⟩, hstop, charOfByte_append, ← List.append_assoc,
    List.take_left, List.drop_left]

theorem eq_nil_of_byteCount (h : text.byteCount = 0) : text = [] := by
  cases text with
  | nil => rfl
  | cons c rest =>
    have hpos := c.utf8Size_pos
    rw [byteCount] at h
    omega

/-- Two bytes between characters cut the text in three. -/
theorem exists_cut {a b : Nat} (hle : a ≤ b) (ha : text.isBoundary a = true) (hb : text.isBoundary b = true) :
    ∃ before middle after : Text, text = before ++ (middle ++ after) ∧ before.byteCount = a ∧
      before.byteCount + middle.byteCount = b := by
  obtain ⟨before, rest, rfl, rfl⟩ := isBoundary_iff.mp ha
  obtain ⟨longer, after, htext, rfl⟩ := isBoundary_iff.mp hb
  rcases List.append_eq_append_iff.mp htext with ⟨middle, rfl, rfl⟩ | ⟨extra, rfl, rfl⟩
  · exact ⟨before, middle, after, rfl, rfl, (byteCount_append before middle).symm⟩
  · -- The second cut does not come first, so the two are the same.
    rw [byteCount_append] at hle
    obtain rfl : extra = [] := eq_nil_of_byteCount (by omega)
    exact ⟨longer, [], rest, by simp, by simp, by simp [byteCount]⟩

end Text

/-! ### Edits of a cut -/

namespace Edit

/-- The edit that puts `inserted` in the place of `deleted`, behind `before`. -/
def exchange (before deleted inserted : Text) : Edit where
  start := before.byteCount
  oldEnd := before.byteCount + deleted.byteCount
  newEnd := before.byteCount + inserted.byteCount
  startPosition := Position.origin.afterBytes before.bytes
  oldEndPosition := (Position.origin.afterBytes before.bytes).advance deleted
  newEndPosition := (Position.origin.afterBytes before.bytes).advance inserted

theorem ofChange_append (before deleted inserted after : Text) :
    ofChange (before ++ (deleted ++ after)) ⟨before.length, deleted, inserted⟩ =
      .ok (exchange before deleted inserted) := by
  have hlength : ¬((before ++ (deleted ++ after)).length < before.length ∨
      Text.byteCount (before ++ (deleted ++ after)) < before.byteCount + deleted.byteCount) := by
    simp only [List.length_append, Text.byteCount_append]
    omega
  simp only [ofChange, Text.byteOfChar_append, Text.slice?_append, Text.positionOfByte_append]
  rw [if_neg hlength, if_neg (by simp)]
  rfl

/-- A change has an edit exactly if it cuts the text, and then it is the edit of the cut. -/
theorem ofChange_eq_ok_iff {text : Text} {c : Change} {e : Edit} :
    ofChange text c = .ok e ↔ ∃ before after : Text, text = before ++ (c.deleted ++ after) ∧
      before.length = c.start ∧ e = exchange before c.deleted c.inserted := by
  constructor
  · intro h
    obtain ⟨before, after, rfl, hlength, -⟩ := ofChange_spec h
    obtain ⟨start, deleted, inserted⟩ := c
    obtain rfl : before.length = start := hlength
    rw [List.append_assoc, ofChange_append] at h
    exact ⟨before, after, List.append_assoc _ _ _, rfl, (Except.ok.inj h).symm⟩
  · rintro ⟨before, after, rfl, hlength, rfl⟩
    obtain ⟨start, deleted, inserted⟩ := c
    obtain rfl : before.length = start := hlength
    exact ofChange_append before deleted inserted after

end Edit

/-! ### Which changes have an edit -/

/-- The change can be made: it starts in the text or at its end, and what it deletes comes next. -/
def Change.Applicable (c : Change) (text : Text) : Prop :=
  c.start ≤ text.length ∧ c.deleted <+: text.drop c.start

/-- The change reaches past the end: its first character does, or the bytes that it deletes do. -/
def Change.Overruns (c : Change) (text : Text) : Prop :=
  text.length < c.start ∨ text.byteCount < Text.byteCount (text.take c.start) + c.deleted.byteCount

instance (c : Change) (text : Text) : Decidable (c.Applicable text) :=
  inferInstanceAs (Decidable (_ ∧ _))

instance (c : Change) (text : Text) : Decidable (c.Overruns text) :=
  inferInstanceAs (Decidable (_ ∨ _))

namespace Edit

variable {text : Text} {c : Change}

/-- A change that can be made cuts the text in three. -/
theorem applicable_iff :
    c.Applicable text ↔ ∃ before after : Text, text = before ++ (c.deleted ++ after) ∧ before.length = c.start := by
  constructor
  · rintro ⟨hstart, after, hafter⟩
    refine ⟨text.take c.start, after, ?_, List.length_take_of_le hstart⟩
    rw [hafter, List.take_append_drop]
  · rintro ⟨before, after, rfl, hlength⟩
    constructor
    · rw [← hlength, List.length_append]
      exact Nat.le_add_right _ _
    · rw [← hlength, List.drop_left]
      exact List.prefix_append _ _

/-- Only what is applicable has an edit. Equal bytes are equal characters, so nothing is lost by comparing slices. -/
theorem exists_ofChange_iff : (∃ e, ofChange text c = .ok e) ↔ c.Applicable text := by
  rw [applicable_iff]
  constructor
  · rintro ⟨e, he⟩
    obtain ⟨before, after, htext, hlength, -⟩ := ofChange_eq_ok_iff.mp he
    exact ⟨before, after, htext, hlength⟩
  · rintro ⟨before, after, htext, hlength⟩
    exact ⟨_, ofChange_eq_ok_iff.mpr ⟨before, after, htext, hlength, rfl⟩⟩

theorem ofChange_of_overruns (h : c.Overruns text) :
    ofChange text c = .error (.outOfRange ⟨Text.byteCount (text.take c.start),
      Text.byteCount (text.take c.start) + c.deleted.byteCount⟩ text.byteCount) := by
  rw [ofChange]
  exact if_pos h

theorem ofChange_of_not_applicable (hinside : ¬c.Overruns text) (h : ¬c.Applicable text) :
    ofChange text c = .error (.deletedTextMismatch c.start) := by
  rw [← exists_ofChange_iff, not_exists] at h
  rw [ofChange, if_neg (by exact hinside)] at h ⊢
  by_cases hslice : text.slice? (text.byteOfChar c.start) (text.byteOfChar c.start + c.deleted.byteCount) ≠
      some c.deleted
  · exact if_pos hslice
  · simp only [if_neg hslice] at h
    exact absurd rfl (h _)

/-- What is deleted ends between characters. -/
theorem isBoundary_of_applicable (h : c.Applicable text) :
    text.isBoundary (Text.byteCount (text.take c.start) + c.deleted.byteCount) = true := by
  obtain ⟨before, after, rfl, hlength⟩ := applicable_iff.mp h
  refine Text.isBoundary_iff.mpr ⟨before ++ c.deleted, after, (List.append_assoc _ _ _).symm, ?_⟩
  rw [← hlength, List.take_left, Text.byteCount_append]

/-- **Exactly the changes that can be made have an edit.** Such a change puts the inserted text in the place of the
deleted one. Any other is out of range if it reaches past the end, by characters or by bytes, and deletes another
text than the one that is there if it does not; so does a change whose last byte falls inside a character. -/
theorem ofChange_decides_applicable (text : Text) (c : Change) :
    ((∃ e, ofChange text c = .ok e) ↔ c.Applicable text) ∧
    (∀ rest, c.start ≤ text.length → text.drop c.start = c.deleted ++ rest →
      c.apply text = text.take c.start ++ c.inserted ++ rest) ∧
    (∀ err, ofChange text c = .error err ↔
      (c.Overruns text ∧ err = .outOfRange ⟨Text.byteCount (text.take c.start),
        Text.byteCount (text.take c.start) + c.deleted.byteCount⟩ text.byteCount) ∨
      (¬c.Overruns text ∧ ¬c.Applicable text ∧ err = .deletedTextMismatch c.start)) ∧
    (¬c.Overruns text →
      text.isBoundary (Text.byteCount (text.take c.start) + c.deleted.byteCount) = false →
      ofChange text c = .error (.deletedTextMismatch c.start)) := by
  refine ⟨exists_ofChange_iff, ?_, ?_, ?_⟩
  · intro rest hstart hrest
    have happly : c.apply (text.take c.start ++ c.deleted ++ rest) = text.take c.start ++ c.inserted ++ rest :=
      Change.apply_eq (List.length_take_of_le hstart)
    rwa [List.append_assoc, ← hrest, List.take_append_drop] at happly
  · intro err
    by_cases hover : c.Overruns text
    · simp [ofChange_of_overruns hover, hover, eq_comm]
    · by_cases happly : c.Applicable text
      · obtain ⟨e, he⟩ := exists_ofChange_iff.mpr happly
        simp [he, hover, happly]
      · simp [ofChange_of_not_applicable hover happly, hover, happly, eq_comm]
  · intro hover hinside
    refine ofChange_of_not_applicable hover fun happly => ?_
    rw [isBoundary_of_applicable happly] at hinside
    cases hinside

/-- Behind the first character of `xéy`, the second one can be replaced, and deleting one byte ends inside it. -/
theorem ofChange_decides_applicable_inside_character :
    let text : Text := ['x', 'é', 'y']
    let fitting : Change := ⟨1, ['é'], ['a', 'b']⟩
    let torn : Change := ⟨1, ['a'], []⟩
    (fitting.start ≤ text.length ∧ text.drop 1 = ['é'] ++ ['y'] ∧ fitting.apply text = ['x', 'a', 'b', 'y']) ∧
    ¬torn.Overruns text ∧ text.isBoundary 2 = false ∧ ofChange text torn = .error (.deletedTextMismatch 1) := by
  intro text fitting torn
  have hstart : fitting.start ≤ text.length := by decide
  have hrest : text.drop 1 = ['é'] ++ ['y'] := rfl
  have hinside : ¬torn.Overruns text := by decide
  exact ⟨⟨hstart, hrest, (ofChange_decides_applicable text fitting).2.1 ['y'] hstart hrest⟩,
    hinside, by decide, (ofChange_decides_applicable text torn).2.2.2 hinside (by decide)⟩

end Edit

/-! ### Undoing -/

/-- The change that takes a change back. -/
def Change.inverse (c : Change) : Change where
  start := c.start
  deleted := c.inserted
  inserted := c.deleted

/-- The edit that takes an edit back. -/
def Edit.inverse (e : Edit) : Edit where
  start := e.start
  oldEnd := e.newEnd
  newEnd := e.oldEnd
  startPosition := e.startPosition
  oldEndPosition := e.newEndPosition
  newEndPosition := e.oldEndPosition

namespace Change

variable {text source final : Text} {c : Change} {changes : List Change} {e : Edit} {edits : List Edit}

/-- One step back: the inverse change fits the changed text, gives the inverse edit, and restores the text. -/
theorem ofChange_inverse (h : Edit.ofChange text c = .ok e) :
    Edit.ofChange (c.apply text) c.inverse = .ok e.inverse ∧ c.inverse.apply (c.apply text) = text := by
  obtain ⟨before, after, rfl, hlength, rfl⟩ := Edit.ofChange_eq_ok_iff.mp h
  have hforth : c.apply (before ++ c.deleted ++ after) = before ++ c.inserted ++ after := apply_eq hlength
  have hback : c.inverse.apply (before ++ c.inserted ++ after) = before ++ c.deleted ++ after :=
    apply_eq (c := c.inverse) hlength
  rw [List.append_assoc, List.append_assoc] at hforth hback
  rw [hforth]
  exact ⟨Edit.ofChange_eq_ok_iff.mpr ⟨before, after, rfl, hlength, rfl⟩, hback⟩

/-- One change more at the end of a replay. -/
theorem replay_concat {middle : Text} (h : replay source changes = .ok (edits, middle))
    (he : Edit.ofChange middle c = .ok e) :
    replay source (changes ++ [c]) = .ok (edits ++ [e], c.apply middle) := by
  induction changes generalizing source edits with
  | nil =>
    cases h
    simp [replay, he]
  | cons first rest ih =>
    obtain ⟨e', others, rfl, he', hrest⟩ := replay_cons_eq_ok h
    simp [replay, he', ih hrest]

theorem replay_undone (h : replay source changes = .ok (edits, final)) :
    replay final (changes.map inverse).reverse = .ok ((edits.map Edit.inverse).reverse, source) := by
  induction changes generalizing source edits with
  | nil =>
    cases h
    rfl
  | cons c rest ih =>
    obtain ⟨e, others, rfl, he, hrest⟩ := replay_cons_eq_ok h
    obtain ⟨hedit, htext⟩ := ofChange_inverse he
    -- The first change is taken back last, on the text that it left.
    have hlast := replay_concat (ih hrest) hedit
    simpa [htext] using hlast

/-- **Changes can be undone.** A list of changes leads from one text to another, through some edits, exactly if
the inverse changes in reverse order lead from the other text to the one, through the inverse edits in
reverse order. -/
theorem replay_iff_undone :
    replay source changes = .ok (edits, final) ↔
      replay final (changes.map inverse).reverse = .ok ((edits.map Edit.inverse).reverse, source) := by
  refine ⟨replay_undone, fun h => ?_⟩
  have hchanges : (changes.map inverse).map inverse = changes := by
    simp [Function.comp_def, inverse]
  have hedits : (edits.map Edit.inverse).map Edit.inverse = edits := by
    simp [Function.comp_def, Edit.inverse]
  simpa [hchanges, hedits] using replay_undone h

-- A letter gives way to two lines, and then the first of them gets a letter of two bytes.
example :
    let changes : List Change := [⟨1, ['b'], ['x', '\n', 'y']⟩, ⟨0, [], ['é']⟩]
    let edits : List Edit :=
      [⟨1, 2, 4, ⟨0, 1⟩, ⟨0, 2⟩, ⟨1, 1⟩⟩, ⟨0, 0, 2, ⟨0, 0⟩, ⟨0, 0⟩, ⟨0, 2⟩⟩]
    replay ['a', 'b', 'c'] changes = .ok (edits, ['é', 'a', 'x', '\n', 'y', 'c']) ∧
      replay ['é', 'a', 'x', '\n', 'y', 'c'] [⟨0, ['é'], []⟩, ⟨1, ['x', '\n', 'y'], ['b']⟩] =
        .ok ([⟨0, 2, 0, ⟨0, 0⟩, ⟨0, 2⟩, ⟨0, 0⟩⟩, ⟨1, 4, 2, ⟨0, 1⟩, ⟨1, 1⟩, ⟨0, 2⟩⟩], ['a', 'b', 'c']) := by
  decide +kernel

end Change

/-! ### Changes by bytes -/

namespace Edit

theorem replace_append {before deleted after : Text} (inserted : Text)
    (hfits : Text.byteCount (before ++ (deleted ++ after)) ≤ Offset.greatest) :
    replace (before ++ (deleted ++ after)) before.byteCount (before.byteCount + deleted.byteCount) inserted =
      .ok (exchange before deleted inserted) := by
  have hstart : Position.atByte (before ++ (deleted ++ after)) before.byteCount =
      Position.origin.afterBytes before.bytes := by
    rw [← Text.positionOfByte_eq_atByte, Text.positionOfByte_append]
  have hstop := advance_positionOfByte (List.append_assoc before deleted after).symm hfits
  rw [replace, if_pos (by simp only [Text.byteCount_append]; omega)]
  simp only [exchange, hstart, hstop]

/-- **Byte edits and character changes agree.** Take two bytes of a text that stand between characters. Replacing
what lies between them gives the same edit as the change that starts at the character of the first byte and
deletes the text between the two. -/
theorem replace_eq_ofChange {text : Text} {a b : Nat} (hle : a ≤ b) (ha : text.isBoundary a = true)
    (hb : text.isBoundary b = true) (hfits : text.byteCount ≤ Offset.greatest) (inserted : Text) :
    ∃ deleted e, text.slice? a b = some deleted ∧ deleted.bytes = (text.bytes.take b).drop a ∧
      replace text a b inserted = .ok e ∧
      ofChange text ⟨text.charOfByte a, deleted, inserted⟩ = .ok e := by
  obtain ⟨before, deleted, after, rfl, rfl, rfl⟩ := Text.exists_cut hle ha hb
  refine ⟨deleted, exchange before deleted inserted, Text.slice?_append _ _ _, ?_,
    replace_append inserted hfits, ?_⟩
  · have htake : (Text.bytes (before ++ (deleted ++ after))).take (before.byteCount + deleted.byteCount) =
        before.bytes ++ deleted.bytes := by
      rw [← List.append_assoc, Text.bytes_append, ← Text.byteCount_append, ← Text.length_bytes,
        List.take_left, Text.bytes_append]
    rw [htake, ← Text.length_bytes, List.drop_left]
  · rw [Text.charOfByte_append]
    exact ofChange_append before deleted inserted after

/-- Between the bytes 2 and 6 of `é⏎πx` stand a row end, a character of two bytes and one of one byte. -/
theorem replace_eq_ofChange_wide_characters :
    let text : Text := ['é', '\n', 'π', 'x']
    let e : Edit := ⟨2, 6, 4, ⟨0, 2⟩, ⟨1, 3⟩, ⟨1, 0⟩⟩
    2 ≤ 6 ∧ text.isBoundary 2 = true ∧ text.isBoundary 6 = true ∧ text.byteCount ≤ Offset.greatest ∧
      replace text 2 6 ['y', '\n'] = .ok e ∧
      ofChange text ⟨1, ['\n', 'π', 'x'], ['y', '\n']⟩ = .ok e := by
  intro text e
  have hfits : text.byteCount ≤ Offset.greatest := by decide
  obtain ⟨deleted, e', hslice, -, hreplace, hchange⟩ :=
    replace_eq_ofChange (by decide : 2 ≤ 6) (by decide) (by decide) hfits ['y', '\n']
  obtain rfl : ['\n', 'π', 'x'] = deleted := Option.some.inj hslice
  obtain rfl : e = e' := Except.ok.inj hreplace
  exact ⟨by decide, by decide, by decide, hfits, hreplace, hchange⟩

end Edit

end LiveSyntax
