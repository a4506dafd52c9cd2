import LiveSyntax.Proofs.Utf8
import LiveSyntax.Text.Coordinates
import Mathlib.Data.List.Induction

/-!
# One account of positions

Three functions compute positions: `Position.atByte` reads them off the bytes before an offset,
`Text.positionOfByte` off the rows of the text, and `Position.advance` off the rows of what comes
between two places. All three walk over bytes: a line feed starts a row, any other byte is one more
column. `Position.afterBytes` is that walk, and the lemmas here reduce each of the three to it.

## Main results

- `Position.atByte_eq_afterBytes`: the position of a byte is the walk over the bytes before it.
- `Text.positionOfByte_eq_atByte`: counting by rows gives the same, also inside a character and past
  the end.
- `Position.advance_eq_held_afterBytes`: a text moves a position by the walk over its bytes, held at
  the greatest machine word.
- `Position.computations_agree`: the three computations agree, on any text and across any cut of it.
-/

namespace LiveSyntax

namespace Position

/-- The place after one more byte. -/
def nextByte (p : Position) (b : UInt8) : Position :=
  if b = Text.lineFeed then ⟨p.row + 1, 0⟩ else ⟨p.row, p.column + 1⟩

/-- The place after some bytes that start at `p`. -/
def afterBytes (p : Position) (bytes : List UInt8) : Position :=
  bytes.foldl nextByte p

theorem afterBytes_append (p : Position) (xs ys : List UInt8) :
    p.afterBytes (xs ++ ys) = (p.afterBytes xs).afterBytes ys :=
  List.foldl_append

/-- The row grows by one with every line feed. -/
theorem row_afterBytes (p : Position) (bytes : List UInt8) :
    (p.afterBytes bytes).row = p.row + bytes.count Text.lineFeed := by
  induction bytes generalizing p with
  | nil => rfl
  | cons b rest ih =>
    change ((p.nextByte b).afterBytes rest).row = _
    rw [ih, List.count_cons, nextByte]
    by_cases hb : b = Text.lineFeed
    · simp only [hb, if_true, beq_self_eq_true]
      omega
    · simp [hb]

/-- Without a line feed the walk stays in its row. -/
theorem afterBytes_of_notMem {bytes : List UInt8} (p : Position) (h : Text.lineFeed ∉ bytes) :
    p.afterBytes bytes = ⟨p.row, p.column + bytes.length⟩ := by
  induction bytes generalizing p with
  | nil => rfl
  | cons b rest ih =>
    obtain ⟨hb, hrest⟩ := not_or.mp (fun hor => h (List.mem_cons.mpr hor))
    change (p.nextByte b).afterBytes rest = _
    rw [ih (p.nextByte b) hrest, nextByte, if_neg (Ne.symm hb), List.length_cons]
    simp only [Position.mk.injEq, true_and]
    omega

/-- After a line feed the column does not depend on where the walk began. -/
theorem column_afterBytes_of_mem {bytes : List UInt8} (p q : Position)
    (h : Text.lineFeed ∈ bytes) : (p.afterBytes bytes).column = (q.afterBytes bytes).column := by
  induction bytes generalizing p q with
  | nil => simp at h
  | cons b rest ih =>
    change ((p.nextByte b).afterBytes rest).column = ((q.nextByte b).afterBytes rest).column
    by_cases hrest : Text.lineFeed ∈ rest
    · exact ih _ _ hrest
    · obtain rfl : Text.lineFeed = b := (List.mem_cons.mp h).resolve_right hrest
      rw [afterBytes_of_notMem _ hrest, afterBytes_of_notMem _ hrest]
      simp [nextByte]

/-- The column does not depend on the row where the walk began. -/
theorem column_afterBytes_congr {p q : Position} (h : p.column = q.column) (bytes : List UInt8) :
    (p.afterBytes bytes).column = (q.afterBytes bytes).column := by
  by_cases hmem : Text.lineFeed ∈ bytes
  · exact column_afterBytes_of_mem p q hmem
  · rw [afterBytes_of_notMem p hmem, afterBytes_of_notMem q hmem, h]

/-- The column is at most as far as there are bytes. -/
theorem column_afterBytes_le (p : Position) (bytes : List UInt8) :
    (p.afterBytes bytes).column ≤ p.column + bytes.length := by
  induction bytes generalizing p with
  | nil => exact Nat.le_refl _
  | cons b rest ih =>
    have hstep : (p.nextByte b).column ≤ p.column + 1 := by
      unfold nextByte
      split <;> simp
    have hrest := ih (p.nextByte b)
    change ((p.nextByte b).afterBytes rest).column ≤ _
    rw [List.length_cons]
    omega

/-- The bytes since the last line feed are the column of the walk. -/
theorem mk_count_takeWhile_reverse (bytes : List UInt8) :
    (⟨bytes.count Text.lineFeed, (bytes.reverse.takeWhile (· != Text.lineFeed)).length⟩ : Position) =
      origin.afterBytes bytes := by
  induction bytes using List.reverseRecOn with
  | nil => rfl
  | append_singleton rest b ih =>
    rw [afterBytes_append, ← ih]
    change _ = nextByte _ b
    rw [nextByte, List.count_append, List.reverse_append]
    by_cases hb : b = Text.lineFeed
    · simp [hb]
    · simp [hb]

/-- **Positions by bytes**: the position of a byte is reached by the walk over the bytes before it. -/
theorem atByte_eq_afterBytes (text : Text) (offset : Nat) :
    atByte text offset = origin.afterBytes (text.bytes.take offset) :=
  mk_count_takeWhile_reverse _

end Position

namespace Text

theorem bytes_cons (c : Char) (rest : Text) :
    bytes (c :: rest) = String.utf8EncodeChar c ++ bytes rest := rfl

theorem bytes_append (s t : Text) : bytes (s ++ t) = bytes s ++ bytes t :=
  List.flatMap_append

/-- Bytes taken past the first character. -/
theorem take_bytes_of_le {c : Char} {b : Nat} (rest : Text) (h : c.utf8Size ≤ b) :
    (bytes (c :: rest)).take b = String.utf8EncodeChar c ++ (bytes rest).take (b - c.utf8Size) := by
  rw [bytes_cons, List.take_append, String.length_utf8EncodeChar, List.take_of_length_le]
  rw [String.length_utf8EncodeChar]
  exact h

/-- Bytes taken out of the first character: they hold no line feed. -/
theorem take_bytes_of_lt {c : Char} {b : Nat} (rest : Text) (h : b < c.utf8Size) :
    (bytes (c :: rest)).take b = (String.utf8EncodeChar c).take b ∧
      lineFeed ∉ (String.utf8EncodeChar c).take b := by
  constructor
  · rw [bytes_cons, List.take_append_of_le_length]
    rw [String.length_utf8EncodeChar]
    exact Nat.le_of_lt h
  · intro hmem
    obtain rfl := Utf8.lineFeed_mem_encode.mp (List.mem_of_mem_take hmem)
    obtain rfl : b = 0 := Nat.lt_one_iff.mp h
    simp at hmem

/-- The line feeds among the bytes of a character. -/
theorem count_lineFeed_encode (c : Char) :
    (String.utf8EncodeChar c).count lineFeed = if c = '\n' then 1 else 0 := by
  split
  · next hc =>
    subst hc
    decide
  · next hc => exact List.count_eq_zero.mpr fun hmem => hc (Utf8.lineFeed_mem_encode.mp hmem)

/-- The line feeds before a byte, counted by characters and by bytes. -/
theorem rowOfByte_eq_count (text : Text) (b : Nat) :
    text.rowOfByte b = (text.bytes.take b).count lineFeed := by
  unfold rowOfByte
  induction text generalizing b with
  | nil => simp [charOfByte, bytes]
  | cons c rest ih =>
    rw [charOfByte]
    by_cases hb : c.utf8Size ≤ b
    · rw [if_pos hb, take_bytes_of_le rest hb, List.take_succ_cons, List.count_cons,
        List.count_append, count_lineFeed_encode, ih]
      simp [Nat.add_comm]
    · obtain ⟨htake, hfeed⟩ := take_bytes_of_lt rest (Nat.lt_of_not_le hb)
      rw [if_neg hb, htake, List.take_zero, List.count_nil, List.count_eq_zero.mpr hfeed]

theorem rowStart_zero (text : Text) : text.rowStart 0 = 0 := by
  simp [rowStart, byteCount]

theorem rowStart_cons_lineFeed (rest : Text) (row : Nat) :
    rowStart ('\n' :: rest) (row + 1) = rowStart rest row + 1 := by
  have hone : Char.utf8Size '\n' = 1 := rfl
  simp [rowStart, rows, byteCount, hone, Nat.add_comm]

theorem rowStart_cons_of_ne {c : Char} (rest : Text) (row : Nat) (hc : c ≠ '\n') :
    rowStart (c :: rest) (row + 1) = rowStart rest (row + 1) + c.utf8Size := by
  simp only [rowStart, rows, if_neg hc]
  cases hrows : rows rest with
  | nil => exact absurd hrows (rows_ne_nil rest)
  | cons first below => simp [byteCount, Nat.add_comm]

/-- The start of the row of a byte and its column make up the byte. -/
theorem rowStart_add_column (text : Text) (b : Nat) :
    text.rowStart ((text.bytes.take b).count lineFeed) +
      (Position.origin.afterBytes (text.bytes.take b)).column = min b text.byteCount := by
  induction text generalizing b with
  | nil => simp [bytes, rowStart_zero, Position.afterBytes, Position.origin, byteCount]
  | cons c rest ih =>
    have hlen := String.length_utf8EncodeChar c
    have hrest := ih (b - c.utf8Size)
    rw [byteCount]
    by_cases hb : c.utf8Size ≤ b
    · rw [take_bytes_of_le rest hb, Position.afterBytes_append, List.count_append,
        count_lineFeed_encode]
      by_cases hc : c = '\n'
      · subst hc
        have hone : Char.utf8Size '\n' = 1 := rfl
        have hwalk : Position.origin.afterBytes (String.utf8EncodeChar '\n') = ⟨1, 0⟩ := by decide
        have hcolumn : (⟨1, 0⟩ : Position).column = Position.origin.column := rfl
        rw [if_pos rfl, Nat.add_comm 1, rowStart_cons_lineFeed, hwalk,
          Position.column_afterBytes_congr hcolumn]
        omega
      · have hfeed : lineFeed ∉ String.utf8EncodeChar c :=
          fun hmem => hc (Utf8.lineFeed_mem_encode.mp hmem)
        rw [if_neg hc, Nat.zero_add, Position.afterBytes_of_notMem _ hfeed, hlen]
        -- A line feed further on resets the column; without one the character still counts.
        by_cases hmem : lineFeed ∈ (bytes rest).take (b - c.utf8Size)
        · obtain ⟨row, hrow⟩ : ∃ row, ((bytes rest).take (b - c.utf8Size)).count lineFeed = row + 1 :=
            Nat.exists_eq_succ_of_ne_zero (Nat.ne_of_gt (List.count_pos_iff.mpr hmem))
          rw [hrow] at hrest ⊢
          rw [rowStart_cons_of_ne rest row hc,
            Position.column_afterBytes_of_mem _ Position.origin hmem]
          omega
        · rw [List.count_eq_zero.mpr hmem, rowStart_zero, Position.afterBytes_of_notMem _ hmem] at *
          simp only [Position.origin] at *
          omega
    · obtain ⟨htake, hfeed⟩ := take_bytes_of_lt rest (Nat.lt_of_not_le hb)
      rw [htake, List.count_eq_zero.mpr hfeed, rowStart_zero, Position.afterBytes_of_notMem _ hfeed,
        List.length_take, hlen]
      simp only [Position.origin]
      omega

/-- The first row is part of the text. -/
theorem byteCount_head_rows_le {text first : Text} {below : List Text}
    (h : text.rows = first :: below) : first.byteCount ≤ text.byteCount := by
  induction text generalizing first below with
  | nil =>
    obtain ⟨rfl, -⟩ := List.cons.inj h
    exact Nat.le_refl _
  | cons c rest ih =>
    rw [rows] at h
    split at h
    · obtain ⟨rfl, -⟩ := List.cons.inj h
      exact Nat.zero_le _
    · cases hrows : rows rest with
      | nil => exact absurd hrows (rows_ne_nil rest)
      | cons row others =>
        rw [hrows] at h
        obtain ⟨rfl, -⟩ := List.cons.inj h
        exact Nat.add_le_add_left (ih hrows) _

/-- **Counting by rows agrees with counting by bytes**, also inside a character and past the end. -/
theorem positionOfByte_eq_atByte (text : Text) (b : Nat) :
    text.positionOfByte b = Position.atByte text b := by
  have htake : text.bytes.take (min b text.byteCount) = text.bytes.take b := by
    rw [← length_bytes, ← List.take_take, List.take_length]
  have hrow := rowOfByte_eq_count text (min b text.byteCount)
  have hcolumn := rowStart_add_column text b
  rw [htake] at hrow
  rw [Position.atByte_eq_afterBytes, positionOfByte]
  simp only [hrow]
  have hwalk := Position.row_afterBytes Position.origin (text.bytes.take b)
  generalize Position.origin.afterBytes (text.bytes.take b) = p at hwalk hcolumn ⊢
  obtain ⟨row, column⟩ := p
  simp only [Position.origin, Nat.zero_add] at hwalk hcolumn
  subst hwalk
  simp only [Position.mk.injEq, true_and]
  omega

/-- Where a part of a text ends is reached by the walk over that part. -/
theorem positionOfByte_append (before after : Text) :
    positionOfByte (before ++ after) before.byteCount = Position.origin.afterBytes before.bytes := by
  rw [positionOfByte_eq_atByte, Position.atByte_eq_afterBytes, bytes_append, ← length_bytes, List.take_left]

end Text

namespace Position

/-! ### Places held at the greatest word -/

/-- The place with its row and its column held at the greatest word. -/
def held (p : Position) : Position :=
  ⟨min p.row Offset.greatest, min p.column Offset.greatest⟩

theorem row_held_le (p : Position) : p.held.row ≤ Offset.greatest :=
  Nat.min_le_right _ _

theorem held_held (p : Position) : p.held.held = p.held := by
  simp only [held, Nat.min_assoc, Nat.min_self]

/-- One more byte forgets whether the place before it was held. -/
theorem held_nextByte_held (p : Position) (b : UInt8) :
    (p.held.nextByte b).held = (p.nextByte b).held := by
  unfold nextByte
  split
  · simp only [held, Position.mk.injEq, and_true]
    omega
  · simp only [held, Position.mk.injEq, Nat.min_assoc, Nat.min_self, true_and]
    omega

/-- **A walk may be held on the way**: once its end is held, it does not matter whether its start
was. -/
theorem held_afterBytes_held (p : Position) (bytes : List UInt8) :
    (p.held.afterBytes bytes).held = (p.afterBytes bytes).held := by
  induction bytes generalizing p with
  | nil => exact held_held p
  | cons b rest ih =>
    -- Both walks go on from a place that may be held, and there the two places are one.
    calc ((p.held.nextByte b).afterBytes rest).held
        = ((p.held.nextByte b).held.afterBytes rest).held := (ih _).symm
      _ = ((p.nextByte b).held.afterBytes rest).held := by rw [held_nextByte_held]
      _ = ((p.nextByte b).afterBytes rest).held := ih _

theorem held_afterBytes_origin {bytes : List UInt8} (h : bytes.length ≤ Offset.greatest) :
    (origin.afterBytes bytes).held = origin.afterBytes bytes := by
  have hrow := row_afterBytes origin bytes
  have hcolumn := column_afterBytes_le origin bytes
  have hlines : bytes.count Text.lineFeed ≤ bytes.length := List.count_le_length
  simp only [origin, Nat.zero_add] at hrow hcolumn ⊢
  rw [held, Nat.min_eq_left (by omega), Nat.min_eq_left (by omega)]

/-! ### Moving over a text -/

theorem advance_nil {p : Position} (hrow : p.row ≤ Offset.greatest) : p.advance [] = p.held := by
  simp only [advance, Text.rows, Text.byteCount, List.foldl_nil, Offset.addHeld, held,
    Nat.min_eq_left hrow, Nat.add_zero]

/-- The first character of a text moves the place by its bytes, and the rest goes on from there. -/
theorem advance_cons {p : Position} {c : Char} {rest : Text} (hrow : p.row ≤ Offset.greatest)
    (hrest : rest.byteCount ≤ Offset.greatest) :
    p.advance (c :: rest) = (p.afterBytes (String.utf8EncodeChar c)).held.advance rest := by
  cases hrows : rest.rows with
  | nil => exact absurd hrows (Text.rows_ne_nil rest)
  | cons first below =>
    have hfirst := Nat.le_trans (Text.byteCount_head_rows_le hrows) hrest
    by_cases hc : c = '\n'
    · -- The row that the line feed starts is not added to anything: it is because the rest fits a word that holding
      -- its length changes nothing.
      subst hc
      have hwalk : p.afterBytes (String.utf8EncodeChar '\n') = ⟨p.row + 1, 0⟩ := rfl
      simp only [hwalk, advance, Text.rows, if_true, hrows, List.foldl_cons, nextRow, held,
        Offset.addHeld, Text.byteCount, Nat.zero_min, Nat.zero_add, Nat.min_eq_left hfirst]
    · have hfeed : Text.lineFeed ∉ String.utf8EncodeChar c :=
        fun hmem => hc (Utf8.lineFeed_mem_encode.mp hmem)
      -- What the character adds to the column may be held before the rest of the row is added.
      have hcolumn : Offset.addHeld p.column (c.utf8Size + first.byteCount) =
          Offset.addHeld (min (p.column + c.utf8Size) Offset.greatest) first.byteCount := by
        unfold Offset.addHeld
        omega
      rw [afterBytes_of_notMem p hfeed, String.length_utf8EncodeChar]
      simp only [advance, Text.rows, if_neg hc, hrows, Text.byteCount, held, hcolumn,
        Nat.min_eq_left hrow]

/-- **A text moves a place by the walk over its bytes, held at the greatest word.** -/
theorem advance_eq_held_afterBytes {p : Position} {text : Text} (hrow : p.row ≤ Offset.greatest)
    (htext : text.byteCount ≤ Offset.greatest) :
    p.advance text = (p.afterBytes text.bytes).held := by
  induction text generalizing p with
  | nil => exact advance_nil hrow
  | cons c rest ih =>
    rw [Text.byteCount] at htext
    rw [advance_cons hrow (by omega), ih (row_held_le _) (by omega), held_afterBytes_held,
      Text.bytes_cons, afterBytes_append]

theorem advance_append {p : Position} {s t : Text} (hrow : p.row ≤ Offset.greatest)
    (hfits : (s ++ t).byteCount ≤ Offset.greatest) :
    p.advance (s ++ t) = (p.advance s).advance t := by
  have hparts := hfits
  rw [Text.byteCount_append] at hparts
  calc p.advance (s ++ t)
      = ((p.afterBytes s.bytes).afterBytes t.bytes).held := by
        rw [advance_eq_held_afterBytes hrow hfits, Text.bytes_append, afterBytes_append]
    _ = ((p.afterBytes s.bytes).held.afterBytes t.bytes).held := (held_afterBytes_held _ _).symm
    _ = (p.advance s).advance t := by
        rw [advance_eq_held_afterBytes hrow (by omega),
          advance_eq_held_afterBytes (row_held_le _) (by omega)]

theorem advance_origin {text : Text} (h : text.byteCount ≤ Offset.greatest) :
    origin.advance text = origin.afterBytes text.bytes := by
  rw [advance_eq_held_afterBytes (Nat.zero_le _) h, held_afterBytes_origin (by rwa [Text.length_bytes])]

/-- Inside a text that fits a word, moving over a part goes on with the walk. -/
theorem advance_afterBytes_origin {s t : Text} (hfits : (s ++ t).byteCount ≤ Offset.greatest) :
    (origin.afterBytes s.bytes).advance t = origin.afterBytes (s ++ t).bytes := by
  have hparts := hfits
  rw [Text.byteCount_append] at hparts
  rw [← advance_origin hfits, advance_append (Nat.zero_le _) hfits, advance_origin (by omega)]

theorem atByte_byteCount (text : Text) : atByte text text.byteCount = origin.afterBytes text.bytes := by
  rw [atByte_eq_afterBytes, ← Text.length_bytes, List.take_length]

/-! ### Agreement -/

/-- **The three computations agree.** The position of a byte by the rows of the text is its position by the bytes before
it, also inside a character and past the end. Where a text ends is where its second part leads from the end of its
first part. From any place, a text cut in two leads as far in two moves as in one, also where row or column is held at
the greatest word. What they agree on is the walk that a line feed takes to the next row and any other byte to the next
column. Texts are at most as long as the greatest word, and moves start in a row up to it. -/
theorem computations_agree :
    (∀ (text : Text) (b : Nat), text.positionOfByte b = atByte text b ∧
      atByte text b = origin.afterBytes (text.bytes.take b)) ∧
    (∀ s t : Text, (s ++ t).byteCount ≤ Offset.greatest →
      atByte (s ++ t) (s ++ t).byteCount = (atByte s s.byteCount).advance t) ∧
    (∀ (p : Position) (s t : Text), p.row ≤ Offset.greatest → (s ++ t).byteCount ≤ Offset.greatest →
      p.advance (s ++ t) = (p.advance s).advance t ∧ p.advance (s ++ t) = (p.afterBytes (s ++ t).bytes).held) := by
  refine ⟨fun text b => ⟨Text.positionOfByte_eq_atByte text b, atByte_eq_afterBytes text b⟩, ?_, ?_⟩
  · intro s t hfits
    rw [atByte_byteCount, atByte_byteCount, advance_afterBytes_origin hfits]
  · intro p s t hrow hfits
    exact ⟨advance_append hrow hfits, advance_eq_held_afterBytes hrow hfits⟩

/-- A text that ends in a line feed is followed by one that starts with another. In the last row, one column before the
last, `é` is held at the last column; the line feeds after it keep the row and start its column anew. -/
theorem computations_agree_last_place :
    Text.byteCount (['é', '\n'] ++ ['\n', 'x']) ≤ Offset.greatest ∧
    atByte (['é', '\n'] ++ ['\n', 'x']) 5 = ⟨2, 1⟩ ∧ (atByte ['é', '\n'] 3).advance ['\n', 'x'] = ⟨2, 1⟩ ∧
    advance ⟨Offset.greatest, Offset.greatest - 1⟩ ['é'] = ⟨Offset.greatest, Offset.greatest⟩ ∧
    advance ⟨Offset.greatest, Offset.greatest - 1⟩ (['é'] ++ ['\n', '\n', 'x']) =
      advance ⟨Offset.greatest, Offset.greatest⟩ ['\n', '\n', 'x'] ∧
    advance ⟨Offset.greatest, Offset.greatest - 1⟩ (['é'] ++ ['\n', '\n', 'x']) = ⟨Offset.greatest, 1⟩ := by
  obtain ⟨-, hend, hmoves⟩ := computations_agree
  have hfits : Text.byteCount (['é', '\n'] ++ ['\n', 'x']) ≤ Offset.greatest := by decide
  have hplace : atByte (['é', '\n'] ++ ['\n', 'x']) 5 = ⟨2, 1⟩ := by decide
  have hheld : advance ⟨Offset.greatest, Offset.greatest - 1⟩ ['é'] = ⟨Offset.greatest, Offset.greatest⟩ := by
    decide
  have hlast := hmoves ⟨Offset.greatest, Offset.greatest - 1⟩ ['é'] ['\n', '\n', 'x'] (Nat.le_refl _) (by decide)
  refine ⟨hfits, hplace, ?_, hheld, ?_, ?_⟩
  · exact (hend ['é', '\n'] ['\n', 'x'] hfits).symm.trans hplace
  · rw [hlast.1, hheld]
  · rw [hlast.2]
    decide

end Position

end LiveSyntax
