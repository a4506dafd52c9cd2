import LiveSyntax.Proofs.ChangeLaws
import Mathlib.Order.Bounds.Basic
import Mathlib.Data.List.Basic

/-!
# Conversions between coordinates

A text is its rows with a line feed between each two. With one more line feed at its end, every row is ended by one,
and the rows above a given row make up a part of the text whose last byte is a line feed. So a place is the same thing
as a row, cut out of the list of rows, and a column in it. Bytes, characters and positions are carried into each other
through that cut.

## Main definitions

- `Text.endRows`: some rows, each ended by a line feed.
- `Text.Revision`: an insertion or a deletion at a character.
- `Text.LeadsTo`: what revisions make of a text, by cutting it.

## Main results

- `Text.positionOfByte_cut`: the position of a byte, in a row that is cut out.
- `Text.exists_rows_cut`: every byte lies in a row, or at the end of one.
- `Text.conversions_invert`: the conversions undo each other, up to the clamping of what lies outside.
-/

namespace LiveSyntax

namespace Position

theorem order_eq_lt_iff {p q : Position} :
    p.order q = .lt ↔ p.row < q.row ∨ (p.row = q.row ∧ p.column < q.column) := by
  simp [order, Ordering.then_eq_lt, Nat.compare_eq_lt]

/-- Some bytes move a position forward. -/
theorem order_afterBytes {bytes : List UInt8} (p : Position) (h : bytes ≠ []) :
    p.order (p.afterBytes bytes) = .lt := by
  rw [order_eq_lt_iff]
  by_cases hfeed : Text.lineFeed ∈ bytes
  · have hrow := p.row_afterBytes bytes
    have hcount := List.count_pos_iff.mpr hfeed
    left
    omega
  · have hlength := List.length_pos_iff.mpr h
    rw [p.afterBytes_of_notMem hfeed]
    right
    exact ⟨rfl, by simp only; omega⟩

end Position

namespace Text

variable {text : Text} {above below : List Text} {row : Text}

/-! ### Rows -/

/-- Some rows, each ended by a line feed. -/
def endRows (rows : List Text) : Text :=
  rows.flatMap fun row => row ++ ['\n']

theorem endRows_append (above below : List Text) : endRows (above ++ below) = endRows above ++ endRows below :=
  List.flatMap_append

theorem endRows_cons (row : Text) (below : List Text) : endRows (row :: below) = row ++ '\n' :: endRows below := by
  simp [endRows]

/-- The rows make up the text: with a line feed after each of them, there is one more at the end. -/
theorem endRows_rows (text : Text) : endRows text.rows = text ++ ['\n'] := by
  induction text with
  | nil => rfl
  | cons c rest ih =>
    rw [rows]
    split
    · next hc =>
      rw [endRows_cons, ih, hc]
      rfl
    · cases hrows : rows rest with
      | nil => exact absurd hrows (rows_ne_nil rest)
      | cons first others =>
        rw [hrows, endRows_cons] at ih
        rw [endRows_cons, List.cons_append, ih]
        rfl

theorem lineFeed_notMem_row (h : row ∈ text.rows) : '\n' ∉ row := by
  induction text generalizing row with
  | nil =>
    obtain rfl : row = [] := by simpa [rows] using h
    simp
  | cons c rest ih =>
    rw [rows] at h
    split at h
    · rcases List.mem_cons.mp h with rfl | hrest
      · simp
      · exact ih hrest
    · next hc =>
      cases hrows : rows rest with
      | nil => exact absurd hrows (rows_ne_nil rest)
      | cons first others =>
        rw [hrows] at h ih
        rcases List.mem_cons.mp h with rfl | hother
        · have hfirst := ih List.mem_cons_self
          simp [hfirst, Ne.symm hc]
        · exact ih (List.mem_cons_of_mem _ hother)

theorem exists_append_of_rows (h : text.rows = above ++ row :: below) :
    ∃ after, text = endRows above ++ (row ++ after) := by
  have hjoined := endRows_rows text
  rw [h, endRows_append, endRows_cons, ← List.append_assoc] at hjoined
  have hlength := congrArg List.length hjoined
  -- Both start the text with its added line feed, and the one up to the row is not the longer.
  have hprefix : endRows above ++ row <+: text := by
    refine List.prefix_of_prefix_length_le ⟨_, hjoined⟩ (List.prefix_append text ['\n']) ?_
    simp only [List.length_append, List.length_cons, List.length_nil] at hlength ⊢
    omega
  obtain ⟨after, hafter⟩ := hprefix
  exact ⟨after, by rw [← hafter, List.append_assoc]⟩

/-- The last row ends where the text does. -/
theorem byteCount_of_rows_concat (h : text.rows = above ++ [row]) :
    text.byteCount = byteCount (endRows above) + row.byteCount := by
  have hjoined := endRows_rows text
  rw [h, endRows_append, endRows_cons] at hjoined
  have hcount := congrArg byteCount hjoined
  simp only [endRows, byteCount_append, byteCount, List.flatMap_nil] at hcount ⊢
  omega

/-- A byte among ended rows lies in one of them, or on its line feed. -/
theorem exists_cut_of_lt_endRows {rows : List Text} {b : Nat} (h : b < byteCount (endRows rows)) :
    ∃ above row below column, rows = above ++ row :: below ∧ column ≤ row.byteCount ∧
      b = byteCount (endRows above) + column := by
  induction rows generalizing b with
  | nil => simp [endRows, byteCount] at h
  | cons first others ih =>
    by_cases hfirst : b ≤ first.byteCount
    · exact ⟨[], first, others, b, rfl, hfirst, by simp [endRows, byteCount]⟩
    · -- The byte lies past the first row and its line feed.
      have hone : Char.utf8Size '\n' = 1 := rfl
      rw [endRows_cons, byteCount_append, byteCount, hone] at h
      have hrest : b - (first.byteCount + 1) < byteCount (endRows others) := by omega
      obtain ⟨above, row, below, column, rfl, hcolumn, hb⟩ := ih hrest
      refine ⟨first :: above, row, below, column, rfl, hcolumn, ?_⟩
      rw [endRows_cons, byteCount_append, byteCount, hone]
      omega

/-- **Every byte lies in a row, or at the end of one.** -/
theorem exists_rows_cut {b : Nat} (h : b ≤ text.byteCount) :
    ∃ above row below column, text.rows = above ++ row :: below ∧ column ≤ row.byteCount ∧
      b = byteCount (endRows above) + column := by
  refine exists_cut_of_lt_endRows ?_
  have hone : Char.utf8Size '\n' = 1 := rfl
  rw [endRows_rows, byteCount_append, byteCount, byteCount, hone]
  omega

/-! ### Positions -/

theorem lineFeed_mem_bytes : lineFeed ∈ text.bytes ↔ '\n' ∈ text := by
  simp [bytes, Utf8.lineFeed_mem_encode]

/-- Ended rows lead to the start of the row after them. -/
theorem afterBytes_endRows {rows : List Text} (hrows : ∀ row ∈ rows, '\n' ∉ row) (k : Nat) :
    (⟨k, 0⟩ : Position).afterBytes (endRows rows).bytes = ⟨k + rows.length, 0⟩ := by
  induction rows generalizing k with
  | nil => rfl
  | cons first others ih =>
    have hfirst : lineFeed ∉ first.bytes := fun h => hrows first List.mem_cons_self (lineFeed_mem_bytes.mp h)
    have hothers := ih (fun row h => hrows row (List.mem_cons_of_mem _ h)) (k + 1)
    have hfeed : ∀ column, (⟨k, column⟩ : Position).afterBytes (String.utf8EncodeChar '\n') = ⟨k + 1, 0⟩ :=
      fun _ => rfl
    rw [endRows_cons, bytes_append, bytes_cons, Position.afterBytes_append, Position.afterBytes_append,
      Position.afterBytes_of_notMem _ hfirst, hfeed, hothers, List.length_cons]
    congr 1
    omega

/-- **The position of a byte in a row that is cut out** is the number of rows above it, and the column. -/
theorem positionOfByte_cut (h : text.rows = above ++ row :: below) {column : Nat} (hcolumn : column ≤ row.byteCount) :
    text.positionOfByte (byteCount (endRows above) + column) = ⟨above.length, column⟩ := by
  have hnone : ∀ r ∈ text.rows, '\n' ∉ r := fun _ => lineFeed_notMem_row
  rw [h] at hnone
  have habove : ∀ r ∈ above, '\n' ∉ r := fun r hr => hnone r (List.mem_append_left _ hr)
  have hrow : lineFeed ∉ row.bytes.take column := fun hmem =>
    hnone row (by simp) (lineFeed_mem_bytes.mp (List.mem_of_mem_take hmem))
  obtain ⟨after, htext⟩ := exists_append_of_rows h
  have htake : text.bytes.take (byteCount (endRows above) + column) =
      (endRows above).bytes ++ row.bytes.take column := by
    rw [htext, bytes_append, bytes_append, ← length_bytes, List.take_length_add_append,
      List.take_append_of_le_length (by rwa [length_bytes])]
  have hstart : Position.origin.afterBytes (endRows above).bytes = ⟨above.length, 0⟩ := by
    have hwalk := afterBytes_endRows habove 0
    rwa [Nat.zero_add] at hwalk
  rw [positionOfByte_eq_atByte, Position.atByte_eq_afterBytes, htake, Position.afterBytes_append, hstart,
    Position.afterBytes_of_notMem _ hrow, List.length_take, length_bytes, Nat.min_eq_left hcolumn, Nat.zero_add]

theorem positionOfByte_min (text : Text) (b : Nat) :
    text.positionOfByte (min b text.byteCount) = text.positionOfByte b := by
  simp only [positionOfByte, Nat.min_assoc, Nat.min_self]

theorem rowStart_cut (h : text.rows = above ++ row :: below) :
    text.rowStart above.length = byteCount (endRows above) := by
  have habove : text.rows.take above.length = above := by simp [h]
  rw [rowStart, habove]
  rfl

/-- The line feed that ends a row, or the end of the text, comes right after the bytes of the row. -/
theorem rowEnd_cut (h : text.rows = above ++ row :: below) :
    text.rowEnd above.length = byteCount (endRows above) + row.byteCount := by
  have hone : Char.utf8Size '\n' = 1 := rfl
  cases below with
  | nil =>
    rw [rowEnd, if_neg (by simp [rowCount, h]), byteCount_of_rows_concat h]
  | cons next below =>
    have hnext : text.rows = (above ++ [row]) ++ next :: below := by rw [h, List.append_assoc]; rfl
    have hstart := rowStart_cut hnext
    rw [List.length_append, List.length_singleton, endRows_append, endRows_cons, byteCount_append,
      byteCount_append] at hstart
    rw [rowEnd, if_pos (by simp [rowCount, h]), hstart]
    simp only [byteCount, endRows, List.flatMap_nil, hone]
    omega

theorem byteOfPosition_cut (h : text.rows = above ++ row :: below) (column : Nat) :
    text.byteOfPosition ⟨above.length, column⟩ = byteCount (endRows above) + min column row.byteCount := by
  have hlt : ¬text.rowCount ≤ above.length := by simp [rowCount, h]
  rw [byteOfPosition, if_neg hlt, rowStart_cut h, rowEnd_cut h, Nat.add_sub_cancel_left]

theorem byteOfPosition_of_rowCount_le {p : Position} (h : text.rowCount ≤ p.row) :
    text.byteOfPosition p = text.byteCount :=
  if_pos h

theorem byteOfPosition_positionOfByte (text : Text) (b : Nat) :
    text.byteOfPosition (text.positionOfByte b) = min b text.byteCount := by
  obtain ⟨above, row, below, column, hrows, hcolumn, hb⟩ := exists_rows_cut (Nat.min_le_right b text.byteCount)
  rw [← positionOfByte_min, hb, positionOfByte_cut hrows hcolumn, byteOfPosition_cut hrows, Nat.min_eq_left hcolumn]

/-- A position in an existing row is held at the end of its row. -/
theorem positionOfByte_byteOfPosition {p : Position} (h : text.rows[p.row]? = some row) :
    text.positionOfByte (text.byteOfPosition p) = ⟨p.row, min p.column row.byteCount⟩ := by
  obtain ⟨k, column⟩ := p
  obtain ⟨hlt, hrow⟩ := List.getElem?_eq_some_iff.mp h
  have hrows : text.rows = text.rows.take k ++ row :: text.rows.drop (k + 1) := by
    rw [← hrow, List.getElem_cons_drop, List.take_append_drop]
  have hlength : (text.rows.take k).length = k := List.length_take_of_le (Nat.le_of_lt hlt)
  have hbyte := byteOfPosition_cut hrows column
  have hposition := positionOfByte_cut hrows (Nat.min_le_right column row.byteCount)
  rw [hlength] at hbyte hposition
  rw [hbyte, hposition]

/-- A position below the last row is held at the end of the text, which is the end of its last row. -/
theorem positionOfByte_byteOfPosition_of_le {p : Position} (h : text.rowCount ≤ p.row) :
    text.positionOfByte (text.byteOfPosition p) =
      ⟨text.rowCount - 1, byteCount (text.rows.getLast (rows_ne_nil text))⟩ := by
  have hrows := (List.dropLast_concat_getLast (rows_ne_nil text)).symm
  rw [byteOfPosition_of_rowCount_le h, byteCount_of_rows_concat hrows, positionOfByte_cut hrows (Nat.le_refl _),
    List.length_dropLast]
  rfl

theorem order_positionOfByte {b b' : Nat} (h : b < b') (hle : b' ≤ text.byteCount) :
    (text.positionOfByte b).order (text.positionOfByte b') = .lt := by
  have htake : text.bytes.take b' = text.bytes.take b ++ (text.bytes.take b').drop b := by
    have hcut := List.take_append_drop b (text.bytes.take b')
    rw [List.take_take, Nat.min_eq_left (Nat.le_of_lt h)] at hcut
    exact hcut.symm
  have hsome : (text.bytes.take b').drop b ≠ [] := by
    rw [← List.length_pos_iff, List.length_drop, List.length_take, length_bytes]
    omega
  rw [positionOfByte_eq_atByte, positionOfByte_eq_atByte, Position.atByte_eq_afterBytes,
    Position.atByte_eq_afterBytes, htake, Position.afterBytes_append]
  exact Position.order_afterBytes _ hsome

/-! ### Characters -/

theorem byteOfChar_le_byteOfChar {m n : Nat} (h : m ≤ n) : text.byteOfChar m ≤ text.byteOfChar n := by
  have hcut := congrArg byteCount (List.take_append_drop m (text.take n))
  rw [List.take_take, Nat.min_eq_left h, byteCount_append] at hcut
  simp only [byteOfChar]
  omega

theorem byteOfChar_le_byteCount (n : Nat) : text.byteOfChar n ≤ text.byteCount := by
  have hcut := congrArg byteCount (List.take_append_drop n text)
  rw [byteCount_append] at hcut
  simp only [byteOfChar]
  omega

theorem byteOfChar_charOfByte_le (text : Text) (b : Nat) : text.byteOfChar (text.charOfByte b) ≤ b := by
  unfold byteOfChar
  induction text generalizing b with
  | nil => simp [byteCount]
  | cons c rest ih =>
    rw [charOfByte]
    split
    · next hb =>
      have hrest := ih (b - c.utf8Size)
      rw [List.take_succ_cons, byteCount]
      omega
    · simp [byteCount]

theorem charOfByte_le_charOfByte {b b' : Nat} (h : b ≤ b') : text.charOfByte b ≤ text.charOfByte b' := by
  induction text generalizing b b' with
  | nil => exact Nat.le_refl _
  | cons c rest ih =>
    rw [charOfByte, charOfByte]
    split
    · next hb =>
      rw [if_pos (Nat.le_trans hb h)]
      exact Nat.succ_le_succ (ih (by omega))
    · exact Nat.zero_le _

/-- Where the character of a byte starts is the last place between characters up to that byte. -/
theorem isGreatest_byteOfChar_charOfByte (text : Text) (b : Nat) :
    IsGreatest {x | (∃ before after : Text, text = before ++ after ∧ before.byteCount = x) ∧ x ≤ min b text.byteCount}
      (text.byteOfChar (text.charOfByte b)) := by
  constructor
  · refine ⟨⟨_, _, (List.take_append_drop (text.charOfByte b) text).symm, rfl⟩, ?_⟩
    exact Nat.le_min.mpr ⟨byteOfChar_charOfByte_le text b, byteOfChar_le_byteCount _⟩
  · rintro x ⟨⟨before, after, rfl, rfl⟩, hx⟩
    have hchar : before.length ≤ charOfByte (before ++ after) b := by
      rw [← charOfByte_append before after]
      exact charOfByte_le_charOfByte (Nat.le_trans hx (Nat.min_le_left _ _))
    calc before.byteCount = byteOfChar (before ++ after) before.length := (byteOfChar_append before after).symm
      _ ≤ byteOfChar (before ++ after) (charOfByte (before ++ after) b) := byteOfChar_le_byteOfChar hchar

/-! ### Revisions -/

/-- An insertion or a deletion at a character of a text. -/
inductive Revision where
  | insertion (start : Nat) (inserted : Text)
  | deletion (start count : Nat)

/-- The text after a revision. -/
def revise (text : Text) : Revision → Text
  | .insertion start inserted => text.insertAt start inserted
  | .deletion start count => text.deleteAt start count

/-- A revision leads from a text to another one. The text is cut at the character where the revision starts, or at its
end if it has no such character. What follows the cut is moved by an insertion, and loses its first characters by a
deletion. -/
inductive Revises (text : Text) : Revision → Text → Prop
  | insertion {start : Nat} {before after : Text} (inserted : Text) (htext : text = before ++ after)
    (hstart : before.length = min start text.length) :
    Revises text (.insertion start inserted) (before ++ inserted ++ after)
  | deletion {start count : Nat} {before gone after : Text} (htext : text = before ++ gone ++ after)
    (hstart : before.length = min start text.length)
    (hcount : gone.length = min count (text.length - before.length)) :
    Revises text (.deletion start count) (before ++ after)

/-- Revisions lead from a text to another one, each from where the ones before it have led. -/
inductive LeadsTo : Text → List Revision → Text → Prop
  | done (text : Text) : LeadsTo text [] text
  | step {text next last : Text} {revision : Revision} {revisions : List Revision}
    (first : Revises text revision next) (rest : LeadsTo next revisions last) :
    LeadsTo text (revision :: revisions) last

theorem revises_revise (text : Text) (revision : Revision) : Revises text revision (text.revise revision) := by
  cases revision with
  | insertion start inserted =>
    exact .insertion inserted (List.take_append_drop start text).symm (List.length_take ..)
  | deletion start count =>
    have hcut : text = text.take start ++ (text.drop start).take count ++ text.drop (start + count) := by
      rw [List.append_assoc, ← List.drop_drop, List.take_append_drop, List.take_append_drop]
    refine .deletion hcut (List.length_take ..) ?_
    rw [List.length_take, List.length_drop, List.length_take]
    omega

theorem Revises.eq_revise {revision : Revision} {next : Text} (h : Revises text revision next) :
    next = text.revise revision := by
  cases h with
  | @insertion start before after inserted htext hstart =>
    have htake : text.take start = before := by rw [List.take_eq_take_min, ← hstart, htext, List.take_left]
    have hdrop : text.drop start = after := by
      rw [← List.append_cancel_left_eq before, ← htext, ← htake, List.take_append_drop]
    rw [revise, insertAt, htake, hdrop]
  | @deletion start count before gone after htext hstart hcount =>
    have htake : text.take start = before := by
      rw [List.take_eq_take_min, ← hstart, htext, List.append_assoc, List.take_left]
    have hrest : text.drop start = gone ++ after := by
      rw [← List.append_cancel_left_eq before, ← List.append_assoc, ← htext, ← htake, List.take_append_drop]
    -- Either all of the count goes, or nothing is left after it.
    have hdrop : after.drop (count - gone.length) = after := by
      have hlength := congrArg List.length htext
      simp only [List.length_append] at hlength
      rcases Nat.eq_zero_or_pos (count - gone.length) with hnone | hsome
      · rw [hnone, List.drop_zero]
      · obtain rfl := List.length_eq_zero_iff.mp (show after.length = 0 by omega)
        exact List.drop_nil
    rw [revise, deleteAt, htake, ← List.drop_drop, hrest, List.drop_append, List.drop_of_length_le (by omega), hdrop,
      List.nil_append]

theorem leadsTo_iff {text last : Text} {revisions : List Revision} :
    LeadsTo text revisions last ↔ last = revisions.foldl revise text := by
  induction revisions generalizing text with
  | nil =>
    constructor
    · rintro ⟨⟩
      rfl
    · rintro rfl
      exact .done _
  | cons revision revisions ih =>
    constructor
    · rintro (_ | ⟨first, rest⟩)
      rw [ih.mp rest, first.eq_revise, List.foldl_cons]
    · rintro rfl
      exact .step (revises_revise _ revision) (ih.mpr rfl)

/-! ### Conversions -/

/-- **The conversions undo each other.** Take the text that any insertions and deletions lead to: there is exactly one,
the text that they compute. A byte has a position that leads back to it, and later bytes have later positions. A
position leads to a byte that leads back to it exactly if its row exists and is at least as long as its column; else the
end of its row comes back, or the end of the text if there is no such row. A character starts at a byte that leads back
to it. A byte leads to the character that starts at the last place between characters up to it. Offsets past the end
count as the end throughout. -/
theorem conversions_invert (source : Text) (revisions : List Revision) :
    let text := revisions.foldl revise source
    (∀ last, LeadsTo source revisions last ↔ last = text) ∧
    (∀ b, text.byteOfPosition (text.positionOfByte b) = min b text.byteCount) ∧
    (∀ b b', b < b' → b' ≤ text.byteCount → (text.positionOfByte b).order (text.positionOfByte b') = .lt) ∧
    (∀ p, text.positionOfByte (text.byteOfPosition p) = p ↔
      ∃ row, text.rows[p.row]? = some row ∧ p.column ≤ row.byteCount) ∧
    (∀ p row, text.rows[p.row]? = some row → row.byteCount < p.column →
      text.positionOfByte (text.byteOfPosition p) = ⟨p.row, row.byteCount⟩) ∧
    (∀ p, text.rows[p.row]? = none → text.byteOfPosition p = text.byteCount ∧
      text.positionOfByte (text.byteOfPosition p) =
        ⟨text.rowCount - 1, byteCount (text.rows.getLast (rows_ne_nil text))⟩) ∧
    (∀ n, text.charOfByte (text.byteOfChar n) = min n text.length) ∧
    (∀ b, IsGreatest
      {x | (∃ before after : Text, text = before ++ after ∧ before.byteCount = x) ∧ x ≤ min b text.byteCount}
      (text.byteOfChar (text.charOfByte b))) := by
  intro text
  refine ⟨fun _ => leadsTo_iff, byteOfPosition_positionOfByte text,
    fun b b' => order_positionOfByte, ?_, ?_, ?_, charOfByte_byteOfChar text,
    isGreatest_byteOfChar_charOfByte text⟩
  · intro p
    cases hrow : text.rows[p.row]? with
    | none =>
      have hrows : 0 < text.rowCount := List.length_pos_iff.mpr (rows_ne_nil text)
      have hbelow : text.rowCount ≤ p.row := List.getElem?_eq_none_iff.mp hrow
      rw [positionOfByte_byteOfPosition_of_le hbelow]
      refine iff_of_false (fun h => ?_) (by simp)
      have hlast := congrArg Position.row h
      simp only at hlast
      omega
    | some row =>
      rw [positionOfByte_byteOfPosition hrow]
      constructor
      · intro h
        have hcolumn : min p.column row.byteCount = p.column := congrArg Position.column h
        exact ⟨row, rfl, by omega⟩
      · rintro ⟨_, hsame, hcolumn⟩
        obtain rfl := Option.some.inj hsame
        rw [Nat.min_eq_left hcolumn]
  · intro p row hrow hcolumn
    rw [positionOfByte_byteOfPosition hrow, Nat.min_eq_right (Nat.le_of_lt hcolumn)]
  · intro p hrow
    have hbelow := List.getElem?_eq_none_iff.mp hrow
    exact ⟨byteOfPosition_of_rowCount_le hbelow, positionOfByte_byteOfPosition_of_le hbelow⟩

/-- Revisions that lead to `é⏎`: a byte inside the first character comes before the end of the text, column nine of the
first row is held at its end, and row five is held at the empty row after the line feed. -/
theorem conversions_invert_wide_character :
    let text := [Revision.insertion 0 ['é', '\n', 'x'], .deletion 2 9].foldl revise []
    LeadsTo [] [.insertion 0 ['é', '\n', 'x'], .deletion 2 9] ['é', '\n'] ∧ text = ['é', '\n'] ∧
      1 < 3 ∧ 3 ≤ text.byteCount ∧
      (text.positionOfByte 1).order (text.positionOfByte 3) = .lt ∧
      text.rows[0]? = some ['é'] ∧ byteCount ['é'] < 9 ∧ text.positionOfByte (text.byteOfPosition ⟨0, 9⟩) = ⟨0, 2⟩ ∧
      text.rows[5]? = none ∧ text.positionOfByte (text.byteOfPosition ⟨5, 0⟩) = ⟨1, 0⟩ := by
  intro text
  obtain ⟨hleads, -, horder, -, hheld, hnone, -⟩ :=
    conversions_invert [] [Revision.insertion 0 ['é', '\n', 'x'], .deletion 2 9]
  have htext : text = ['é', '\n'] := by decide
  have hlength : 3 ≤ text.byteCount := by decide
  have hrow : text.rows[0]? = some ['é'] := by decide
  have hbelow : text.rows[5]? = none := by decide
  exact ⟨(hleads _).mpr htext.symm, htext, by decide, hlength, horder 1 3 (by decide) hlength, hrow, by decide,
    hheld ⟨0, 9⟩ ['é'] hrow (by decide), hbelow, (hnone ⟨5, 0⟩ hbelow).2⟩

end Text

end LiveSyntax
