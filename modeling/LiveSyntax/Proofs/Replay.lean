import LiveSyntax.Change.Replay
import LiveSyntax.Proofs.EditChains
import LiveSyntax.Proofs.Positions

/-!
# Replayed changes and their edits

A change counts characters, the edit that it gives counts bytes and places rows and columns. This file
shows that both do the same to a text. `Edit.splice` is what an edit does to bytes, on its own: it
knows the edit's offsets and the inserted bytes, and nothing of characters. A list of changes that is
replayed to the end gives one edit each, and splicing the edits one after the other leads through the
UTF-8 forms of the same texts.

## Main definitions

- `Edit.splice`, `Edit.spliceAll`: what one edit, or a list of them, does to bytes.

## Main results

- `Edit.ofChange_spec`: an edit of a change splits the text at the deleted part.
- `Change.replay_eq_splices`: replaying changes and splicing their edits agree at every step.

## Design notes

Lengths, rows and columns are machine words. The texts of this file fit one by hypothesis, as every
text that a machine holds does.
-/

namespace LiveSyntax

namespace Text

/-- A character that starts at a byte is the character of that byte. -/
theorem charOfByte_byteOfChar (text : Text) (n : Nat) :
    text.charOfByte (text.byteOfChar n) = min n text.length := by
  unfold byteOfChar
  induction text generalizing n with
  | nil => simp [charOfByte]
  | cons c rest ih =>
    cases n with
    | zero =>
      have hpos := c.utf8Size_pos
      simp only [List.take_zero, byteCount, charOfByte]
      rw [if_neg (by omega), Nat.zero_min]
    | succ n =>
      simp only [List.take_succ_cons, byteCount, charOfByte]
      rw [if_pos (by omega), Nat.add_sub_cancel_left, ih]
      simp only [List.length_cons]
      omega

/-- A slice that starts at a character is what comes next from there on. -/
theorem prefix_of_slice? {text part : Text} {n stop : Nat} (hn : n ≤ text.length)
    (h : text.slice? (text.byteOfChar n) stop = some part) : part <+: text.drop n := by
  unfold slice? at h
  split at h
  · rw [charOfByte_byteOfChar, Nat.min_eq_left hn, List.drop_take] at h
    obtain rfl : (text.drop n).take (text.charOfByte stop - n) = part := by simpa using h
    exact List.take_prefix _ _
  · simp at h

end Text

/-- A change that starts where the deleted text stands puts the inserted text in its place. -/
theorem Change.apply_eq {c : Change} {before after : Text} (hstart : before.length = c.start) :
    c.apply (before ++ c.deleted ++ after) = before ++ c.inserted ++ after := by
  have htake : (before ++ c.deleted ++ after).take before.length = before := by
    rw [List.append_assoc, List.take_left]
  have hdrop : (before ++ c.deleted ++ after).drop (before.length + c.deleted.length) = after := by
    rw [← List.length_append, List.drop_left]
  unfold Change.apply Text.insertAt Text.deleteAt
  rw [← hstart, htake, hdrop, List.take_left, List.drop_left]

namespace Edit

/-- What an edit does to bytes: those from its start to its old end make way for the inserted ones. -/
def splice (e : Edit) (bytes inserted : List UInt8) : List UInt8 :=
  bytes.take e.start ++ inserted ++ bytes.drop e.oldEnd

/-- What a list of edits does to bytes, each with the text that its change inserts. -/
def spliceAll (bytes : List UInt8) (steps : List (Edit × Change)) : List UInt8 :=
  steps.foldl (fun bytes step => step.1.splice bytes step.2.inserted.bytes) bytes

/-- **The edit of a change** splits the text at the deleted part, and its offsets are the byte counts
of the pieces. -/
theorem ofChange_spec {text : Text} {c : Change} {e : Edit} (h : ofChange text c = .ok e) :
    ∃ before after : Text, text = before ++ c.deleted ++ after ∧ before.length = c.start ∧
      e.start = before.byteCount ∧
      e.oldEnd = before.byteCount + c.deleted.byteCount ∧
      e.newEnd = before.byteCount + c.inserted.byteCount ∧
      e.startPosition = text.positionOfByte before.byteCount ∧
      e.oldEndPosition = e.startPosition.advance c.deleted ∧
      e.newEndPosition = e.startPosition.advance c.inserted := by
  unfold ofChange at h
  simp only at h
  split at h
  · cases h
  · next hbounds =>
    split at h
    · cases h
    · next hslice =>
      obtain ⟨hstart, -⟩ := not_or.mp hbounds
      have hn : c.start ≤ text.length := Nat.le_of_not_lt hstart
      obtain ⟨after, hafter⟩ := Text.prefix_of_slice? hn (not_not.mp hslice)
      cases h
      refine ⟨text.take c.start, after, ?_, ?_, rfl, rfl, rfl, rfl, rfl, rfl⟩
      · rw [List.append_assoc, hafter, List.take_append_drop]
      · rw [List.length_take, Nat.min_eq_left hn]

/-- Splicing at the byte counts of the pieces of a text is replacing the middle one. -/
theorem splice_bytes {e : Edit} {before deleted after : Text} (inserted : Text)
    (hstart : e.start = before.byteCount)
    (hold : e.oldEnd = before.byteCount + deleted.byteCount) :
    e.splice (before ++ deleted ++ after).bytes inserted.bytes =
      (before ++ inserted ++ after).bytes := by
  have htake : (before ++ deleted ++ after).bytes.take before.byteCount = before.bytes := by
    rw [List.append_assoc, Text.bytes_append, ← Text.length_bytes, List.take_left]
  have hdrop : (before ++ deleted ++ after).bytes.drop (before.byteCount + deleted.byteCount) =
      after.bytes := by
    rw [Text.bytes_append, ← Text.byteCount_append, ← Text.length_bytes, List.drop_left]
  rw [splice, hstart, hold, htake, hdrop]
  simp only [Text.bytes_append]

/-- An edit that follows the byte counts of the pieces is valid for the lengths of both texts. -/
theorem validate_eq_ok {e : Edit} {before deleted inserted after : Text}
    (hstart : e.start = before.byteCount)
    (hold : e.oldEnd = before.byteCount + deleted.byteCount)
    (hnew : e.newEnd = before.byteCount + inserted.byteCount)
    (hfits : (before ++ inserted ++ after).byteCount ≤ Offset.greatest) :
    e.validate (before ++ deleted ++ after).byteCount (before ++ inserted ++ after).byteCount =
      .ok () := by
  refine (validate_eq_ok_iff hfits).mpr ?_
  simp only [exactLength, Text.byteCount_append]
  exact ⟨⟨by omega, by omega, by omega⟩, by omega⟩

/-- Moving over the piece that follows leads to the position of its end. -/
theorem advance_positionOfByte {text before piece after : Text} (htext : text = before ++ piece ++ after)
    (hfits : text.byteCount ≤ Offset.greatest) :
    (Position.origin.afterBytes before.bytes).advance piece =
      Position.atByte text (before.byteCount + piece.byteCount) := by
  have hcount : (before ++ piece).byteCount ≤ Offset.greatest := by
    rw [htext, Text.byteCount_append] at hfits
    omega
  rw [Position.advance_afterBytes_origin hcount, Position.atByte_eq_afterBytes, htext,
    ← Text.byteCount_append, ← Text.length_bytes, Text.bytes_append _ after, List.take_left]

/-- What an edit says about the step from one text to the next: it is valid for both lengths, and its
positions are those of its offsets in the two texts. -/
structure Locates (e : Edit) (before after : Text) : Prop where
  valid : e.validate before.byteCount after.byteCount = .ok ()
  start : e.startPosition = Position.atByte before e.start
  oldEnd : e.oldEndPosition = Position.atByte before e.oldEnd
  newEnd : e.newEndPosition = Position.atByte after e.newEnd

/-- One step of a replay: splicing the edit gives the bytes of the changed text. -/
theorem splice_ofChange {text : Text} {c : Change} {e : Edit} (h : ofChange text c = .ok e) :
    e.splice text.bytes c.inserted.bytes = (c.apply text).bytes := by
  obtain ⟨before, after, htext, hlength, hstart, hold, -⟩ := ofChange_spec h
  rw [htext, Change.apply_eq hlength, splice_bytes c.inserted hstart hold]

/-- One step of a replay: the edit locates the change, if both texts fit a machine word. -/
theorem locates_ofChange {text : Text} {c : Change} {e : Edit} (h : ofChange text c = .ok e)
    (hbefore : text.byteCount ≤ Offset.greatest)
    (hafter : (c.apply text).byteCount ≤ Offset.greatest) : e.Locates text (c.apply text) := by
  obtain ⟨before, after, htext, hlength, hstart, hold, hnew, hposition, holdPosition, hnewPosition⟩ :=
    ofChange_spec h
  have happly : c.apply text = before ++ c.inserted ++ after := by
    rw [htext, Change.apply_eq hlength]
  have horigin : e.startPosition = Position.origin.afterBytes before.bytes := by
    rw [hposition, htext, List.append_assoc, Text.positionOfByte_append]
  constructor
  · rw [happly] at hafter ⊢
    rw [htext]
    exact validate_eq_ok hstart hold hnew hafter
  · rw [hposition, hstart, Text.positionOfByte_eq_atByte]
  · rw [holdPosition, horigin, hold]
    exact advance_positionOfByte htext hbefore
  · rw [hnewPosition, horigin, hnew]
    exact advance_positionOfByte happly hafter

end Edit

/-- A replay of a change and further ones is a step and a replay of the rest. -/
theorem Change.replay_cons_eq_ok {text final : Text} {c : Change} {rest : List Change}
    {edits : List Edit} (h : Change.replay text (c :: rest) = .ok (edits, final)) :
    ∃ e others, edits = e :: others ∧ Edit.ofChange text c = .ok e ∧
      Change.replay (c.apply text) rest = .ok (others, final) := by
  rw [Change.replay] at h
  split at h
  · cases h
  · next e he =>
    split at h
    · cases h
    · next others last hothers =>
      cases h
      exact ⟨e, others, rfl, he, hothers⟩

/-- A replay gives one edit for each change. -/
theorem Change.length_of_replay {source final : Text} {changes : List Change} {edits : List Edit}
    (h : Change.replay source changes = .ok (edits, final)) : edits.length = changes.length := by
  induction changes generalizing source edits with
  | nil =>
    cases h
    rfl
  | cons c rest ih =>
    obtain ⟨e, others, rfl, -, hrest⟩ := Change.replay_cons_eq_ok h
    rw [List.length_cons, List.length_cons, ih hrest]

/-- The bytes after each step of a replay are those of a text, and the edit of the step locates it. -/
theorem Change.stage_of_replay {source final : Text} {changes : List Change} {edits : List Edit}
    (h : Change.replay source changes = .ok (edits, final))
    (hfits : ∀ i, (Edit.spliceAll source.bytes ((edits.zip changes).take i)).length ≤
      Offset.greatest) :
    Edit.spliceAll source.bytes (edits.zip changes) = final.bytes ∧
    ∀ i e c, edits[i]? = some e → changes[i]? = some c → ∃ before after : Text,
      Edit.spliceAll source.bytes ((edits.zip changes).take i) = before.bytes ∧
      Edit.spliceAll source.bytes ((edits.zip changes).take (i + 1)) = after.bytes ∧
      e.splice before.bytes c.inserted.bytes = after.bytes ∧ e.Locates before after := by
  induction changes generalizing source edits with
  | nil =>
    cases h
    exact ⟨rfl, fun i e c he => by simp at he⟩
  | cons c rest ih =>
    obtain ⟨e, others, rfl, he, hrest⟩ := Change.replay_cons_eq_ok h
    have hsplice := Edit.splice_ofChange he
    -- Past its first step the replay is the replay of the rest on the changed text.
    have hshift : ∀ i, Edit.spliceAll source.bytes (((e :: others).zip (c :: rest)).take (i + 1)) =
        Edit.spliceAll (c.apply source).bytes ((others.zip rest).take i) := by
      intro i
      rw [List.zip_cons_cons, List.take_succ_cons, ← hsplice]
      rfl
    obtain ⟨hfinal, hsteps⟩ := ih hrest fun i => by
      rw [← hshift]
      exact hfits (i + 1)
    refine ⟨?_, ?_⟩
    · rw [← hfinal, List.zip_cons_cons, ← hsplice]
      rfl
    · intro i e' c' he' hc'
      cases i with
      | zero =>
        obtain rfl : e = e' := by simpa using he'
        obtain rfl : c = c' := by simpa using hc'
        refine ⟨source, c.apply source, rfl, hshift 0, hsplice, Edit.locates_ofChange he ?_ ?_⟩
        · rw [← Text.length_bytes]
          exact hfits 0
        · rw [← Text.length_bytes, ← hsplice]
          exact hfits 1
      | succ i =>
        rw [hshift, hshift]
        exact hsteps i e' c' he' hc'

/-- **Replaying changes and splicing their edits agree.** A replay gives one edit for each change.
Splicing them into the bytes of the source, one after the other, leads through byte strings that are
valid UTF-8, and ends with the bytes of the replayed text. At each step the edit is valid for the
lengths before and after, its start and its old end are placed in the text before, and its new end is
placed in the text after. -/
theorem Change.replay_eq_splices {source final : Text} {changes : List Change} {edits : List Edit}
    (h : Change.replay source changes = .ok (edits, final))
    (hfits : ∀ i, (Edit.spliceAll source.bytes ((edits.zip changes).take i)).length ≤
      Offset.greatest) :
    edits.length = changes.length ∧
    Edit.spliceAll source.bytes (edits.zip changes) = final.bytes ∧
    ∀ i e c, edits[i]? = some e → changes[i]? = some c →
      let bytesBefore := Edit.spliceAll source.bytes ((edits.zip changes).take i)
      let bytesAfter := Edit.spliceAll source.bytes ((edits.zip changes).take (i + 1))
      bytesAfter = e.splice bytesBefore c.inserted.bytes ∧
      e.validate bytesBefore.length bytesAfter.length = .ok () ∧
      ∃ before after : Text, Utf8.decode bytesBefore = .ok before ∧
        Utf8.decode bytesAfter = .ok after ∧
        e.startPosition = Position.atByte before e.start ∧
        e.oldEndPosition = Position.atByte before e.oldEnd ∧
        e.newEndPosition = Position.atByte after e.newEnd := by
  obtain ⟨hfinal, hsteps⟩ := Change.stage_of_replay h hfits
  refine ⟨Change.length_of_replay h, hfinal, ?_⟩
  intro i e c he hc
  obtain ⟨before, after, hbefore, hafter, hsplice, hlocates⟩ := hsteps i e c he hc
  simp only [hbefore, hafter, Text.length_bytes]
  exact ⟨hsplice.symm, hlocates.valid, before, after, Utf8.decode_eq_ok_iff.mpr rfl,
    Utf8.decode_eq_ok_iff.mpr rfl, hlocates.start, hlocates.oldEnd, hlocates.newEnd⟩

/-- A replay that turns `é⏎x` into `éπ⏎x` and then into `⏎x`, over characters of two bytes and a
row end that is deleted and inserted again. -/
theorem Change.replay_eq_splices_wide_characters :
    let changes : List Change := [⟨1, ['\n'], ['π', '\n']⟩, ⟨0, ['é', 'π'], []⟩]
    let edits : List Edit :=
      [⟨2, 3, 5, ⟨0, 2⟩, ⟨1, 0⟩, ⟨1, 0⟩⟩, ⟨0, 4, 0, ⟨0, 0⟩, ⟨0, 4⟩, ⟨0, 0⟩⟩]
    Change.replay ['é', '\n', 'x'] changes = .ok (edits, ['\n', 'x']) ∧
    (∀ i, (Edit.spliceAll (Text.bytes ['é', '\n', 'x']) ((edits.zip changes).take i)).length ≤
      Offset.greatest) ∧
    Edit.spliceAll (Text.bytes ['é', '\n', 'x']) (edits.zip changes) = Text.bytes ['\n', 'x'] := by
  intro changes edits
  have hreplay : Change.replay ['é', '\n', 'x'] changes = .ok (edits, ['\n', 'x']) := rfl
  have hfits : ∀ i, (Edit.spliceAll (Text.bytes ['é', '\n', 'x'])
      ((edits.zip changes).take i)).length ≤ Offset.greatest := by
    intro i
    match i with
    | 0 => decide
    | 1 => decide
    | i + 2 =>
      change (Edit.spliceAll _ (_ :: _ :: List.take i [])).length ≤ _
      rw [List.take_nil]
      decide
  exact ⟨hreplay, hfits, (Change.replay_eq_splices hreplay hfits).2.1⟩

end LiveSyntax
