import LiveSyntax.Change.Edit

/-!
# Chains of edits

A chain of edits leads from one length of a source to another. `Edit.Chain` says so without machine words: every
edit fits the length that the ones before it leave, and lengths are exact. The check of a chain works with words. It
predicts the length after an edit by one sum, and holds the edit to its prediction by another. The two agree with each
other and with the exact length as long as no sum leaves the word, and then the check decides chains. At the first sum
that does leave the word the check stops and decides nothing.

## Main definitions

- `Edit.Fits`, `Edit.Misfit`: the edit fits a length, or is refused for its own sake.
- `Edit.Chain`: a list of edits leads from one length to another.
- `Edit.FailsAt`: the first edit of a list that does not fit.
- `Edit.SumsFit`: the sums that the check of a list computes stay within a word.

## Main results

- `Edit.checkChain_decides_chains`: what the check of a list says, if its sums fit.
- `Edit.validate_exact_until_overflow`: what the check of one edit says in any case, and when a check stops.
-/

namespace LiveSyntax.Edit

variable {e : Edit} {edits rest : List Edit} {length newLength final : Nat} {err : EditError}

/-- The ends of the edit follow its start, and what it replaces lies in a source of `length` bytes. -/
structure Fits (e : Edit) (length : Nat) : Prop where
  start_le_oldEnd : e.start ≤ e.oldEnd
  start_le_newEnd : e.start ≤ e.newEnd
  oldEnd_le : e.oldEnd ≤ length

/-- Why an edit does not fit. An inverted edit is called that, wherever it lies. -/
inductive Misfit (e : Edit) (length : Nat) : EditError → Prop
  | inverted (h : e.oldEnd < e.start ∨ e.newEnd < e.start) : Misfit e length (.inverted e.start e.oldEnd e.newEnd)
  | outOfRange (hold : e.start ≤ e.oldEnd) (hnew : e.start ≤ e.newEnd) (h : length < e.oldEnd) :
    Misfit e length (.outOfRange e.oldSpan length)

/-- The length after an edit, whatever the word size. -/
def exactLength (e : Edit) (length : Nat) : Nat :=
  length - (e.oldEnd - e.start) + (e.newEnd - e.start)

/-- The edits lead from one length to another: each fits the length that the ones before it leave. -/
inductive Chain : Nat → List Edit → Nat → Prop
  | nil (length : Nat) : Chain length [] length
  | cons {e : Edit} {rest : List Edit} {length final : Nat} (hfits : e.Fits length)
    (hrest : Chain (e.exactLength length) rest final) : Chain length (e :: rest) final

/-- Some edits lead to a length that the next one does not fit. -/
def FailsAt (length : Nat) (edits : List Edit) (err : EditError) : Prop :=
  ∃ before e after reached, edits = before ++ e :: after ∧ Chain length before reached ∧ Misfit e reached err

/-- No sum that the check of the edits computes exceeds a word. Where a chain has led to a length, and another edit
follows, these are the running sum, unless the edit is the last one, and the length after the edit, if it fits. -/
def SumsFit (length : Nat) (edits : List Edit) : Prop :=
  ∀ before e after reached, edits = before ++ e :: after → Chain length before reached →
    (after ≠ [] → reached + (e.newEnd - e.start) ≤ Offset.greatest) ∧
    (e.Fits reached → e.exactLength reached ≤ Offset.greatest)

/-! ### One edit -/

theorem fits_or_misfit (e : Edit) (length : Nat) : e.Fits length ∨ ∃ err, Misfit e length err := by
  by_cases hinverted : e.oldEnd < e.start ∨ e.newEnd < e.start
  · exact .inr ⟨_, .inverted hinverted⟩
  · obtain ⟨hold, hnew⟩ := not_or.mp hinverted
    by_cases hrange : length < e.oldEnd
    · exact .inr ⟨_, .outOfRange (Nat.le_of_not_lt hold) (Nat.le_of_not_lt hnew) hrange⟩
    · exact .inl ⟨Nat.le_of_not_lt hold, Nat.le_of_not_lt hnew, Nat.le_of_not_lt hrange⟩

theorem Misfit.not_fits (h : Misfit e length err) : ¬e.Fits length := by
  rintro ⟨hold, hnew, hrange⟩
  cases h <;> omega

/-- An edit that does not fit is refused, whatever length is expected after it. -/
theorem Misfit.validate_eq (h : Misfit e length err) (newLength : Nat) :
    e.validate length newLength = .error (.refused err) := by
  cases h with
  | inverted h => rw [validate, if_pos h]
  | outOfRange hold hnew h => rw [validate, if_neg (by omega), if_pos h]

theorem Misfit.unique {err' : EditError} (h : Misfit e length err) (h' : Misfit e length err') : err = err' := by
  have heq := (h.validate_eq 0).symm.trans (h'.validate_eq 0)
  exact EditFault.refused.inj (Except.error.inj heq)

/-- The order and the bounds guard the differences, and nothing guards the sum. -/
theorem Fits.lengthAfter_eq (h : e.Fits length) :
    e.lengthAfter length = if e.exactLength length ≤ Offset.greatest then some (e.exactLength length) else none := by
  obtain ⟨hold, hnew, hrange⟩ := h
  simp only [lengthAfter, Offset.difference?_of_le hold, Offset.difference?_of_le hnew,
    Offset.difference?_of_le (show e.oldEnd - e.start ≤ length by omega), Option.bind_eq_bind, Option.bind_some]
  rfl

theorem Fits.validate_eq (h : e.Fits length) (hsum : e.exactLength length ≤ Offset.greatest) (newLength : Nat) :
    e.validate length newLength =
      if e.exactLength length = newLength then .ok ()
      else .error (.refused (.lengthMismatch (e.exactLength length) newLength)) := by
  have hafter := h.lengthAfter_eq
  obtain ⟨hold, hnew, hrange⟩ := h
  rw [validate, if_neg (by omega), if_neg (by omega), hafter, if_pos hsum]

theorem Fits.validate_eq_overflow (h : e.Fits length) (hsum : Offset.greatest < e.exactLength length)
    (newLength : Nat) : e.validate length newLength = .error .overflow := by
  have hafter := h.lengthAfter_eq
  obtain ⟨hold, hnew, hrange⟩ := h
  rw [validate, if_neg (by omega), if_neg (by omega), hafter, if_neg (by omega)]

theorem Fits.validate_eq_ok_iff (h : e.Fits length) (hsum : e.exactLength length ≤ Offset.greatest) :
    e.validate length newLength = .ok () ↔ e.exactLength length = newLength := by
  rw [h.validate_eq hsum]
  split <;> simp [*]

theorem Fits.validate_eq_refused_iff (h : e.Fits length) (hsum : e.exactLength length ≤ Offset.greatest) :
    e.validate length newLength = .error (.refused err) ↔
      e.exactLength length ≠ newLength ∧ err = .lengthMismatch (e.exactLength length) newLength := by
  rw [h.validate_eq hsum]
  split <;> simp_all [eq_comm]

theorem validate_eq_overflow_iff :
    e.validate length newLength = .error .overflow ↔ e.Fits length ∧ Offset.greatest < e.exactLength length := by
  rcases e.fits_or_misfit length with hfits | ⟨err, hmisfit⟩
  · by_cases hsum : e.exactLength length ≤ Offset.greatest
    · rw [hfits.validate_eq hsum]
      split <;> simp [Nat.not_lt.mpr hsum]
    · simp [hfits.validate_eq_overflow (Nat.lt_of_not_le hsum), hfits, Nat.lt_of_not_le hsum]
  · simp [hmisfit.validate_eq, hmisfit.not_fits]

/-- Adding first and taking away first give the same length, if the greater of the two sums fits. -/
theorem Fits.runningLength_eq (h : e.Fits length) (hsum : length + (e.newEnd - e.start) ≤ Offset.greatest) :
    e.runningLength length = some (e.exactLength length) := by
  obtain ⟨hold, hnew, hrange⟩ := h
  rw [runningLength, Offset.sum?_of_le hsum, Option.map_some, exactLength]
  congr 1
  omega

theorem runningLength_eq_none_iff :
    e.runningLength length = none ↔ Offset.greatest < length + (e.newEnd - e.start) := by
  rw [runningLength, Option.map_eq_none_iff, Offset.sum?]
  split <;> simp <;> omega

theorem exactLength_le (e : Edit) (length : Nat) : e.exactLength length ≤ length + (e.newEnd - e.start) := by
  rw [exactLength]
  omega

/-! ### Lists of edits -/

theorem chain_nil_iff : Chain length [] final ↔ length = final := by
  constructor
  · intro h
    cases h
    rfl
  · rintro rfl
    exact .nil length

theorem chain_cons_iff :
    Chain length (e :: rest) final ↔ e.Fits length ∧ Chain (e.exactLength length) rest final := by
  constructor
  · rintro (_ | ⟨hfits, hrest⟩)
    exact ⟨hfits, hrest⟩
  · rintro ⟨hfits, hrest⟩
    exact .cons hfits hrest

theorem failsAt_nil : ¬FailsAt length [] err := by
  rintro ⟨before, e, after, reached, hedits, -⟩
  simp at hedits

theorem failsAt_cons_iff :
    FailsAt length (e :: rest) err ↔
      Misfit e length err ∨ (e.Fits length ∧ FailsAt (e.exactLength length) rest err) := by
  constructor
  · rintro ⟨before, e', after, reached, hedits, hchain, hmisfit⟩
    cases before with
    | nil =>
      obtain ⟨rfl, rfl⟩ := List.cons.inj hedits
      obtain rfl := chain_nil_iff.mp hchain
      exact .inl hmisfit
    | cons first before =>
      obtain ⟨rfl, rfl⟩ := List.cons.inj hedits
      obtain ⟨hfits, hrest⟩ := chain_cons_iff.mp hchain
      exact .inr ⟨hfits, before, e', after, reached, rfl, hrest, hmisfit⟩
  · rintro (hmisfit | ⟨hfits, before, e', after, reached, rfl, hchain, hmisfit⟩)
    · exact ⟨[], e, rest, length, rfl, .nil length, hmisfit⟩
    · exact ⟨e :: before, e', after, reached, rfl, .cons hfits hchain, hmisfit⟩

theorem sumsFit_nil : SumsFit length [] := by
  intro before e after reached hedits
  simp at hedits

theorem sumsFit_cons_iff :
    SumsFit length (e :: rest) ↔
      (rest ≠ [] → length + (e.newEnd - e.start) ≤ Offset.greatest) ∧
      (e.Fits length → e.exactLength length ≤ Offset.greatest ∧ SumsFit (e.exactLength length) rest) := by
  constructor
  · intro h
    obtain ⟨hrunning, hafter⟩ := h [] e rest length rfl (.nil length)
    refine ⟨hrunning, fun hfits => ⟨hafter hfits, ?_⟩⟩
    rintro before e' after reached rfl hchain
    exact h (e :: before) e' after reached rfl (.cons hfits hchain)
  · rintro ⟨hrunning, hrest⟩ before e' after reached hedits hchain
    cases before with
    | nil =>
      obtain ⟨rfl, rfl⟩ := List.cons.inj hedits
      obtain rfl := chain_nil_iff.mp hchain
      exact ⟨hrunning, fun hfits => (hrest hfits).1⟩
    | cons first before =>
      obtain ⟨rfl, rfl⟩ := List.cons.inj hedits
      obtain ⟨hfits, htail⟩ := chain_cons_iff.mp hchain
      exact (hrest hfits).2 before e' after reached rfl htail

theorem sumsFit_singleton_iff :
    SumsFit length [e] ↔ (e.Fits length → e.exactLength length ≤ Offset.greatest) := by
  simp [sumsFit_cons_iff, sumsFit_nil]

/-- One step of the check: an edit that fits, and is not the last one, hands on the exact length. -/
theorem checkChain_cons_of_fits (hrunning : length + (e.newEnd - e.start) ≤ Offset.greatest) (hfits : e.Fits length)
    (hrest : rest ≠ []) :
    checkChain length (e :: rest) newLength = checkChain (e.exactLength length) rest newLength := by
  have hvalid : e.validate length (e.exactLength length) = .ok () :=
    (hfits.validate_eq_ok_iff (Nat.le_trans (e.exactLength_le length) hrunning)).mpr rfl
  rw [checkChain, hfits.runningLength_eq hrunning]
  · simp only [hvalid]
  · exact hrest

theorem checkChain_cons_of_misfit (hrunning : rest ≠ [] → length + (e.newEnd - e.start) ≤ Offset.greatest)
    (h : Misfit e length err) : checkChain length (e :: rest) newLength = .error (.refused err) := by
  cases rest with
  | nil => exact h.validate_eq newLength
  | cons next rest =>
    rw [checkChain]
    · cases hnext : e.runningLength length with
      | none =>
        have hword := hrunning (List.cons_ne_nil _ _)
        have hsum := runningLength_eq_none_iff.mp hnext
        omega
      | some reached => simp only [h.validate_eq]
    · intro heq
      cases heq

theorem checkChain_cons_of_overflow (hrest : rest ≠ [])
    (hsum : Offset.greatest < length + (e.newEnd - e.start)) :
    checkChain length (e :: rest) newLength = .error .overflow := by
  rw [checkChain, runningLength_eq_none_iff.mpr hsum]
  exact hrest

theorem checkChain_eq_ok_iff (hne : edits ≠ []) (hsums : SumsFit length edits) :
    checkChain length edits newLength = .ok () ↔ Chain length edits newLength := by
  induction edits generalizing length with
  | nil => exact absurd rfl hne
  | cons e rest ih =>
    obtain ⟨hrunning, htail⟩ := sumsFit_cons_iff.mp hsums
    rw [chain_cons_iff]
    rcases e.fits_or_misfit length with hfits | ⟨err, hmisfit⟩
    · cases rest with
      | nil =>
        -- Only the last edit is held to the new length.
        rw [checkChain, hfits.validate_eq_ok_iff (htail hfits).1, chain_nil_iff]
        simp [hfits]
      | cons next rest =>
        rw [checkChain_cons_of_fits (hrunning (List.cons_ne_nil _ _)) hfits (List.cons_ne_nil _ _),
          ih (List.cons_ne_nil _ _) (htail hfits).2]
        simp [hfits]
    · simp [checkChain_cons_of_misfit hrunning hmisfit, hmisfit.not_fits]

theorem checkChain_eq_refused_iff (hne : edits ≠ []) (hsums : SumsFit length edits) :
    checkChain length edits newLength = .error (.refused err) ↔
      FailsAt length edits err ∨
      ∃ reached, Chain length edits reached ∧ reached ≠ newLength ∧ err = .lengthMismatch reached newLength := by
  induction edits generalizing length with
  | nil => exact absurd rfl hne
  | cons e rest ih =>
    obtain ⟨hrunning, htail⟩ := sumsFit_cons_iff.mp hsums
    simp only [failsAt_cons_iff, chain_cons_iff]
    rcases e.fits_or_misfit length with hfits | ⟨err', hmisfit⟩
    · have hnone : ¬Misfit e length err := fun h => h.not_fits hfits
      cases rest with
      | nil =>
        rw [checkChain, hfits.validate_eq_refused_iff (htail hfits).1]
        simp [hnone, hfits, failsAt_nil, chain_nil_iff]
      | cons next rest =>
        rw [checkChain_cons_of_fits (hrunning (List.cons_ne_nil _ _)) hfits (List.cons_ne_nil _ _),
          ih (List.cons_ne_nil _ _) (htail hfits).2]
        simp [hnone, hfits]
    · rw [checkChain_cons_of_misfit hrunning hmisfit]
      simp only [hmisfit.not_fits, false_and, or_false, exists_false, Except.error.injEq, EditFault.refused.injEq]
      exact ⟨fun h => h ▸ hmisfit, fun h => hmisfit.unique h⟩

/-- **The check stops exactly if one of its sums leaves the word.** An edit that does not fit is not looked at unless
its running sum fits, and one behind it is not looked at in any case. -/
theorem checkChain_eq_overflow_iff :
    checkChain length edits newLength = .error .overflow ↔ ¬SumsFit length edits := by
  induction edits generalizing length with
  | nil => simp [checkChain, sumsFit_nil]
  | cons e rest ih =>
    rw [sumsFit_cons_iff]
    by_cases hrunning : rest ≠ [] → length + (e.newEnd - e.start) ≤ Offset.greatest
    · rcases e.fits_or_misfit length with hfits | ⟨err, hmisfit⟩
      · cases rest with
        | nil =>
          rw [checkChain, validate_eq_overflow_iff]
          simp [hfits, sumsFit_nil]
        | cons next rest =>
          have hword := hrunning (List.cons_ne_nil _ _)
          have hexact := Nat.le_trans (e.exactLength_le length) hword
          rw [checkChain_cons_of_fits hword hfits (List.cons_ne_nil _ _), ih]
          simp [hfits, hword, hexact]
      · rw [checkChain_cons_of_misfit hrunning hmisfit]
        exact iff_of_false (by simp) (not_not_intro ⟨hrunning, fun hfits => absurd hfits hmisfit.not_fits⟩)
    · obtain ⟨hrest, hsum⟩ := Classical.not_imp.mp hrunning
      rw [checkChain_cons_of_overflow hrest (Nat.lt_of_not_le hsum)]
      exact iff_of_true rfl fun h => hrunning h.1

/-- **The check of a list decides chains.** As long as no sum exceeds a word, the check accepts a list of edits exactly
if it is a chain to the new length. Otherwise it names the first edit that does not fit the length which the ones before
it lead to, and says that it is inverted, or else out of the range of that length; and if all edits fit, it says that
they lead to another length. It does not stop short of an answer. -/
theorem checkChain_decides_chains (hne : edits ≠ []) (hsums : SumsFit length edits) (newLength : Nat) :
    (checkChain length edits newLength = .ok () ↔ Chain length edits newLength) ∧
    (∀ err, checkChain length edits newLength = .error (.refused err) ↔
      (∃ before e after reached, edits = before ++ e :: after ∧ Chain length before reached ∧
        Misfit e reached err) ∨
      ∃ reached, Chain length edits reached ∧ reached ≠ newLength ∧ err = .lengthMismatch reached newLength) ∧
    checkChain length edits newLength ≠ .error .overflow :=
  ⟨checkChain_eq_ok_iff hne hsums, fun _ => checkChain_eq_refused_iff hne hsums,
    fun h => checkChain_eq_overflow_iff.mp h hsums⟩

/-- The first edit makes a source of three bytes one of five, and the second one reaches to byte six. -/
theorem checkChain_decides_chains_second_past_end :
    let first : Edit := ⟨1, 2, 4, ⟨0, 1⟩, ⟨0, 2⟩, ⟨0, 4⟩⟩
    let second : Edit := ⟨4, 6, 4, ⟨0, 4⟩, ⟨0, 6⟩, ⟨0, 4⟩⟩
    [first, second] ≠ [] ∧ SumsFit 3 [first, second] ∧ Chain 3 [first] 5 ∧
      checkChain 3 [first, second] 3 = .error (.refused (.outOfRange ⟨4, 6⟩ 5)) := by
  intro first second
  have hne : [first, second] ≠ [] := List.cons_ne_nil _ _
  have hsums : SumsFit 3 [first, second] :=
    sumsFit_cons_iff.mpr ⟨fun _ => by decide, fun _ => ⟨by decide, sumsFit_singleton_iff.mpr fun _ => by decide⟩⟩
  have hchain : Chain 3 [first] 5 := .cons ⟨by decide, by decide, by decide⟩ (.nil 5)
  refine ⟨hne, hsums, hchain, ((checkChain_decides_chains hne hsums 3).2.1 _).mpr (.inl ?_)⟩
  exact ⟨[first], second, [], 5, rfl, hchain, .outOfRange (by decide) (by decide) (by decide)⟩

/-! ### Sums that leave the word -/

theorem validate_eq_ok_iff (hword : newLength ≤ Offset.greatest) :
    e.validate length newLength = .ok () ↔ e.Fits length ∧ e.exactLength length = newLength := by
  rcases e.fits_or_misfit length with hfits | ⟨err, hmisfit⟩
  · by_cases hsum : e.exactLength length ≤ Offset.greatest
    · simp [hfits.validate_eq_ok_iff hsum, hfits]
    · rw [hfits.validate_eq_overflow (Nat.lt_of_not_le hsum)]
      exact iff_of_false (by simp) fun h => hsum (h.2 ▸ hword)
  · simp [hmisfit.validate_eq, hmisfit.not_fits]

/-- **Validation is exact until a sum leaves the word.** Checked in words, an edit passes exactly if it fits and leads
to the new length. But there are edits about which the check says nothing, because it stops: those that fit and lead to
more bytes than a word can count. The check of a list stops exactly if one of the sums that it comes to leaves the
word, which may be the running sum of an edit that leads to few bytes, or of one that does not fit. -/
theorem validate_exact_until_overflow (e : Edit) (length : Nat) (edits : List Edit) :
    (∀ newLength ≤ Offset.greatest, e.validate length newLength = .ok () ↔
      e.Fits length ∧ e.exactLength length = newLength) ∧
    (∀ newLength, e.validate length newLength = .error .overflow ↔
      e.Fits length ∧ Offset.greatest < e.exactLength length) ∧
    (e.Fits length → (e.lengthAfter length = none ↔ Offset.greatest < e.exactLength length)) ∧
    ∀ newLength, checkChain length edits newLength = .error .overflow ↔
      ∃ before e after reached, edits = before ++ e :: after ∧ Chain length before reached ∧
        ((after ≠ [] ∧ Offset.greatest < reached + (e.newEnd - e.start)) ∨
          (e.Fits reached ∧ Offset.greatest < e.exactLength reached)) := by
  refine ⟨fun _ => validate_eq_ok_iff, fun _ => validate_eq_overflow_iff, fun hfits => ?_, fun newLength => ?_⟩
  · rw [hfits.lengthAfter_eq]
    split <;> simp <;> omega
  · rw [checkChain_eq_overflow_iff, SumsFit]
    simp only [Classical.not_forall, Classical.not_and_iff_not_or_not, Nat.not_le, exists_prop]

/-- An edit with words for offsets makes two bytes more than a word can count, so that its check stops; another one
makes three bytes five, and is accepted. -/
theorem validate_exact_until_overflow_at_word_size :
    let e : Edit := ⟨1, 1, 18446744073709551615, ⟨0, 1⟩, ⟨0, 1⟩, ⟨0, 18446744073709551615⟩⟩
    let small : Edit := ⟨1, 2, 4, ⟨0, 1⟩, ⟨0, 2⟩, ⟨0, 4⟩⟩
    e.Fits 2 ∧ e.exactLength 2 = Offset.greatest + 1 ∧ e.validate 2 0 = .error .overflow ∧
      5 ≤ Offset.greatest ∧ small.validate 3 5 = .ok () := by
  intro e small
  have hfits : e.Fits 2 := ⟨by decide, by decide, by decide⟩
  have hexact : e.exactLength 2 = Offset.greatest + 1 := by decide
  have hword : 5 ≤ Offset.greatest := by decide
  have hsmall : small.Fits 3 ∧ small.exactLength 3 = 5 := ⟨⟨by decide, by decide, by decide⟩, by decide⟩
  obtain ⟨-, hoverflow, -⟩ := validate_exact_until_overflow e 2 []
  obtain ⟨haccepts, -⟩ := validate_exact_until_overflow small 3 []
  exact ⟨hfits, hexact, (hoverflow 0).mpr ⟨hfits, by omega⟩, hword, (haccepts 5 hword).mpr hsmall⟩

/-- Words for offsets and lengths do not keep the sums within a word. The check of an insertion into two bytes stops
instead of saying that it does not lead to the empty source. The check of a list that leads from one byte to none stops
at the running sum of its first edit. -/
theorem check_of_words_overflows :
    let e : Edit := ⟨1, 1, 18446744073709551615, ⟨0, 1⟩, ⟨0, 1⟩, ⟨0, 18446744073709551615⟩⟩
    let first : Edit := ⟨0, 1, 18446744073709551615, ⟨0, 0⟩, ⟨0, 1⟩, ⟨0, 18446744073709551615⟩⟩
    let second : Edit := ⟨0, 18446744073709551615, 0, ⟨0, 0⟩, ⟨0, 18446744073709551615⟩, ⟨0, 0⟩⟩
    (e.newEnd ≤ Offset.greatest ∧ e.exactLength 2 = 18446744073709551616 ∧ e.validate 2 0 = .error .overflow) ∧
    Chain 1 [first, second] 0 ∧ checkChain 1 [first, second] 0 = .error .overflow := by
  intro e first second
  have hfits : e.Fits 2 := ⟨by decide, by decide, by decide⟩
  have hfirst : first.Fits 1 := ⟨by decide, by decide, by decide⟩
  have hlast : Chain (second.exactLength (first.exactLength 1)) [] 0 := chain_nil_iff.mpr (by decide)
  refine ⟨⟨by decide, by decide, validate_eq_overflow_iff.mpr ⟨hfits, by decide⟩⟩, ?_, ?_⟩
  · exact .cons hfirst (.cons ⟨by decide, by decide, by decide⟩ hlast)
  · exact checkChain_cons_of_overflow (List.cons_ne_nil _ _) (by decide)

end LiveSyntax.Edit
