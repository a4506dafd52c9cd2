import LiveSyntax.Text.Utf8
import Mathlib.Data.List.Basic

/-!
# UTF-8 forms and their readers

`Utf8.decode` and `Text.bytes` are inverse to each other: a byte string is read as a text exactly
when it is the UTF-8 form of that text. The argument goes by single characters. The `encode_*`
lemmas spell out the four lengths of a UTF-8 form in plain arithmetic, `character?_encode` reads such
a form back, and `encode_of_character?` shows that nothing else is read.

## Main results

- `Utf8.decode_eq_ok_iff`: decoding is the inverse of taking bytes.
- `Utf8.lineFeed_mem_encode`: only the line feed has the byte of the line feed in its form.
- `Utf8.bytes_lt_bytes_iff`: texts are ordered by their bytes as they are by their characters.
-/

namespace LiveSyntax.Utf8

/-- A character is at most the greatest code point. -/
theorem toNat_lt_limit (c : Char) : c.toNat < 0x110000 := by
  rcases c.valid with h | h <;> simp only [← Char.toNat_val] <;> omega

theorem encode_one {c : Char} (h : c.toNat < 0x80) :
    String.utf8EncodeChar c = [.ofNat c.toNat] := by
  unfold String.utf8EncodeChar
  simp only [Char.toNat_val]
  rw [if_pos (by omega)]

theorem encode_two {c : Char} (hge : 0x80 ≤ c.toNat) (hlt : c.toNat < 0x800) :
    String.utf8EncodeChar c = [.ofNat (c.toNat / 64 + 0xC0), .ofNat (c.toNat % 64 + 0x80)] := by
  unfold String.utf8EncodeChar
  simp only [Char.toNat_val]
  rw [if_neg (by omega), if_pos (by omega), Nat.mod_eq_of_lt (by omega : c.toNat / 64 < 0x20)]

theorem encode_three {c : Char} (hge : 0x800 ≤ c.toNat) (hlt : c.toNat < 0x10000) :
    String.utf8EncodeChar c = [.ofNat (c.toNat / 4096 + 0xE0), .ofNat (c.toNat / 64 % 64 + 0x80),
      .ofNat (c.toNat % 64 + 0x80)] := by
  unfold String.utf8EncodeChar
  simp only [Char.toNat_val]
  rw [if_neg (by omega), if_neg (by omega), if_pos (by omega),
    Nat.mod_eq_of_lt (by omega : c.toNat / 4096 < 0x10)]

theorem encode_four {c : Char} (hge : 0x10000 ≤ c.toNat) :
    String.utf8EncodeChar c = [.ofNat (c.toNat / 262144 + 0xF0), .ofNat (c.toNat / 4096 % 64 + 0x80),
      .ofNat (c.toNat / 64 % 64 + 0x80), .ofNat (c.toNat % 64 + 0x80)] := by
  have hlimit := toNat_lt_limit c
  unfold String.utf8EncodeChar
  simp only [Char.toNat_val]
  rw [if_neg (by omega), if_neg (by omega), if_neg (by omega),
    Nat.mod_eq_of_lt (by omega : c.toNat / 262144 < 0x08)]

theorem continuation?_ofNat {n : Nat} (h : n < 64) :
    continuation? (.ofNat (n + 0x80)) = some n := by
  have hto : (UInt8.ofNat (n + 0x80)).toNat = n + 0x80 := by
    rw [UInt8.toNat_ofNat']
    omega
  unfold continuation?
  rw [hto, if_pos (by omega), Nat.add_sub_cancel]

theorem eq_of_continuation? {b : UInt8} {n : Nat} (h : continuation? b = some n) :
    n < 64 ∧ b = .ofNat (n + 0x80) := by
  unfold continuation? at h
  split at h
  · next hb =>
    obtain rfl : b.toNat - 0x80 = n := by simpa using h
    refine ⟨by omega, ?_⟩
    rw [Nat.sub_add_cancel hb.1, UInt8.ofNat_toNat]
  · simp at h

theorem scalar?_toNat {least : Nat} {c : Char} (h : least ≤ c.toNat) :
    scalar? least c.toNat = some c := by
  have hvalid : c.toNat.isValidChar := c.valid
  unfold scalar?
  rw [dif_pos hvalid, if_pos h]
  rfl

theorem toNat_of_scalar? {least n : Nat} {c : Char} (h : scalar? least n = some c) :
    c.toNat = n ∧ least ≤ n := by
  unfold scalar? at h
  by_cases hvalid : n.isValidChar
  · rw [dif_pos hvalid] at h
    by_cases hle : least ≤ n
    · rw [if_pos hle] at h
      obtain rfl := Option.some.inj h
      exact ⟨rfl, hle⟩
    · rw [if_neg hle] at h
      cases h
  · rw [dif_neg hvalid] at h
    cases h

/-- The UTF-8 form of a character is read back, with its length, whatever follows it. -/
theorem character?_encode (c : Char) (rest : List UInt8) :
    character? (String.utf8EncodeChar c ++ rest) = some (c, c.utf8Size) := by
  have hlimit := toNat_lt_limit c
  have hsix : ∀ n : Nat, n % 64 < 64 := fun n => Nat.mod_lt n (by decide)
  rw [← String.length_utf8EncodeChar]
  by_cases h1 : c.toNat < 0x80
  · have hlead : (UInt8.ofNat c.toNat).toNat = c.toNat := by
      rw [UInt8.toNat_ofNat']
      omega
    simp only [encode_one h1, List.cons_append, List.nil_append, character?, hlead]
    rw [if_pos (by omega), scalar?_toNat (Nat.zero_le _)]
    rfl
  have hge1 := Nat.le_of_not_lt h1
  by_cases h2 : c.toNat < 0x800
  · have hlead : (UInt8.ofNat (c.toNat / 64 + 0xC0)).toNat = c.toNat / 64 + 0xC0 := by
      rw [UInt8.toNat_ofNat']
      omega
    have hvalue : (c.toNat / 64 + 0xC0 - 0xC0) * 64 + c.toNat % 64 = c.toNat := by omega
    simp only [encode_two hge1 h2, List.cons_append, List.nil_append, character?, hlead]
    rw [if_neg (by omega), if_pos (by omega)]
    simp only [List.getElem?_cons_zero, Option.bind_eq_bind, Option.bind_some,
      continuation?_ofNat (hsix _), hvalue, scalar?_toNat hge1]
    rfl
  have hge2 := Nat.le_of_not_lt h2
  by_cases h3 : c.toNat < 0x10000
  · have hlead : (UInt8.ofNat (c.toNat / 4096 + 0xE0)).toNat = c.toNat / 4096 + 0xE0 := by
      rw [UInt8.toNat_ofNat']
      omega
    have hvalue : ((c.toNat / 4096 + 0xE0 - 0xE0) * 64 + c.toNat / 64 % 64) * 64 +
        c.toNat % 64 = c.toNat := by omega
    simp only [encode_three hge2 h3, List.cons_append, List.nil_append, character?, hlead]
    rw [if_neg (by omega), if_neg (by omega), if_pos (by omega)]
    simp only [List.getElem?_cons_zero, List.getElem?_cons_succ, Option.bind_eq_bind,
      Option.bind_some, continuation?_ofNat (hsix _), hvalue, scalar?_toNat hge2]
    rfl
  · have hge3 := Nat.le_of_not_lt h3
    have hlead : (UInt8.ofNat (c.toNat / 262144 + 0xF0)).toNat = c.toNat / 262144 + 0xF0 := by
      rw [UInt8.toNat_ofNat']
      omega
    have hvalue : (((c.toNat / 262144 + 0xF0 - 0xF0) * 64 + c.toNat / 4096 % 64) * 64 +
        c.toNat / 64 % 64) * 64 + c.toNat % 64 = c.toNat := by omega
    simp only [encode_four hge3, List.cons_append, List.nil_append, character?, hlead]
    rw [if_neg (by omega), if_neg (by omega), if_neg (by omega), if_pos (by omega)]
    simp only [List.getElem?_cons_zero, List.getElem?_cons_succ, Option.bind_eq_bind,
      Option.bind_some, continuation?_ofNat (hsix _), hvalue, scalar?_toNat hge3]
    rfl

/-- A continuation byte read off the front of a byte string. -/
theorem eq_cons_of_continuation? (bytes : List UInt8) {n : Nat}
    (h : (bytes[0]? >>= continuation?) = some n) :
    n < 64 ∧ ∃ rest, bytes = .ofNat (n + 0x80) :: rest := by
  cases bytes with
  | nil => simp at h
  | cons b rest =>
    obtain ⟨hlt, rfl⟩ := eq_of_continuation? (by simpa using h)
    exact ⟨hlt, rest, rfl⟩

/-- What is read as a character is its UTF-8 form. Overlong forms fall to the least value that each
length asks for, which is where the `encode_*` lemmas begin. -/
theorem encode_of_character? {bytes : List UInt8} {c : Char} {size : Nat}
    (h : character? bytes = some (c, size)) :
    size = c.utf8Size ∧ bytes = String.utf8EncodeChar c ++ bytes.drop size := by
  rw [← String.length_utf8EncodeChar]
  cases bytes with
  | nil => simp [character?] at h
  | cons a rest =>
    simp only [character?] at h
    split at h
    · next ha =>
      obtain ⟨d, hd, hpair⟩ := Option.map_eq_some_iff.mp h
      obtain ⟨rfl, rfl⟩ := Prod.mk.inj hpair
      obtain ⟨hval, -⟩ := toNat_of_scalar? hd
      rw [encode_one (by omega), hval, UInt8.ofNat_toNat]
      exact ⟨rfl, rfl⟩
    · split at h
      · next ha =>
        obtain ⟨b, hb, h⟩ := Option.bind_eq_some_iff.mp h
        obtain ⟨d, hd, hpair⟩ := Option.map_eq_some_iff.mp h
        obtain ⟨rfl, rfl⟩ := Prod.mk.inj hpair
        obtain ⟨hval, hleast⟩ := toNat_of_scalar? hd
        obtain ⟨hlt, rest, rfl⟩ := eq_cons_of_continuation? _ hb
        have hlead : d.toNat / 64 + 0xC0 = a.toNat := by omega
        have hlow : d.toNat % 64 = b := by omega
        rw [encode_two (by omega) (by omega), hlead, hlow, UInt8.ofNat_toNat]
        exact ⟨rfl, rfl⟩
      · split at h
        · next ha =>
          obtain ⟨b, hb, h⟩ := Option.bind_eq_some_iff.mp h
          obtain ⟨e, he, h⟩ := Option.bind_eq_some_iff.mp h
          obtain ⟨d, hd, hpair⟩ := Option.map_eq_some_iff.mp h
          obtain ⟨rfl, rfl⟩ := Prod.mk.inj hpair
          obtain ⟨hval, hleast⟩ := toNat_of_scalar? hd
          obtain ⟨hlt, rest, rfl⟩ := eq_cons_of_continuation? _ hb
          obtain ⟨hlt', rest, rfl⟩ := eq_cons_of_continuation? rest he
          have hlead : d.toNat / 4096 + 0xE0 = a.toNat := by omega
          have hmid : d.toNat / 64 % 64 = b := by omega
          have hlow : d.toNat % 64 = e := by omega
          rw [encode_three (by omega) (by omega), hlead, hmid, hlow, UInt8.ofNat_toNat]
          exact ⟨rfl, rfl⟩
        · split at h
          · next ha =>
            obtain ⟨b, hb, h⟩ := Option.bind_eq_some_iff.mp h
            obtain ⟨e, he, h⟩ := Option.bind_eq_some_iff.mp h
            obtain ⟨f, hf, h⟩ := Option.bind_eq_some_iff.mp h
            obtain ⟨d, hd, hpair⟩ := Option.map_eq_some_iff.mp h
            obtain ⟨rfl, rfl⟩ := Prod.mk.inj hpair
            obtain ⟨hval, hleast⟩ := toNat_of_scalar? hd
            obtain ⟨hltb, rest, rfl⟩ := eq_cons_of_continuation? _ hb
            obtain ⟨hlte, rest, rfl⟩ := eq_cons_of_continuation? rest he
            obtain ⟨hltf, rest, rfl⟩ := eq_cons_of_continuation? rest hf
            have hlead : d.toNat / 262144 + 0xF0 = a.toNat := by omega
            have hhigh : d.toNat / 4096 % 64 = b := by omega
            have hmid : d.toNat / 64 % 64 = e := by omega
            have hlow : d.toNat % 64 = f := by omega
            rw [encode_four (by omega), hlead, hhigh, hmid, hlow, UInt8.ofNat_toNat]
            exact ⟨rfl, rfl⟩
          · simp at h

/-- What is read off the front of a byte string is its start. -/
theorem bytes_append_of_splitUpTo (fuel : Nat) (bytes : List UInt8) :
    (splitUpTo fuel bytes).1.bytes ++ (splitUpTo fuel bytes).2 = bytes := by
  induction fuel generalizing bytes with
  | zero => rfl
  | succ fuel ih =>
    simp only [splitUpTo]
    split
    · rfl
    · next c size h =>
      obtain ⟨-, hbytes⟩ := encode_of_character? h
      have hrest := ih (bytes.drop size)
      simp only [Text.bytes, List.flatMap_cons, List.append_assoc] at hrest ⊢
      rw [hrest]
      exact hbytes.symm

/-- A UTF-8 form is read to its end, if there is fuel for each character. -/
theorem splitUpTo_bytes (fuel : Nat) (text : Text) (h : text.length ≤ fuel) :
    splitUpTo fuel text.bytes = (text, []) := by
  induction text generalizing fuel with
  | nil => cases fuel <;> rfl
  | cons c rest ih =>
    cases fuel with
    | zero => simp at h
    | succ fuel =>
      have hbytes : Text.bytes (c :: rest) = String.utf8EncodeChar c ++ Text.bytes rest := rfl
      have hdrop : (String.utf8EncodeChar c ++ Text.bytes rest).drop c.utf8Size = Text.bytes rest := by
        rw [← String.length_utf8EncodeChar, List.drop_left]
      simp only [hbytes, splitUpTo, character?_encode, hdrop]
      rw [ih fuel (by simpa using h)]

/-- A text has at most as many characters as bytes. -/
theorem length_le_length_bytes (text : Text) : text.length ≤ text.bytes.length := by
  induction text with
  | nil => exact Nat.le_refl 0
  | cons c rest ih =>
    have hpos := c.utf8Size_pos
    simp only [Text.bytes, List.flatMap_cons, List.length_append, List.length_cons,
      String.length_utf8EncodeChar] at ih ⊢
    omega

/-- **Decoding is the inverse of taking bytes**: a byte string is read as a text exactly when it is
the UTF-8 form of that text. -/
theorem decode_eq_ok_iff {bytes : List UInt8} {text : Text} :
    decode bytes = .ok text ↔ text.bytes = bytes := by
  constructor
  · intro h
    have hsplit := bytes_append_of_splitUpTo bytes.length bytes
    unfold decode split at h
    split at h
    · next read hread =>
      rw [hread, List.append_nil] at hsplit
      cases h
      exact hsplit
    · cases h
  · rintro rfl
    unfold decode split
    rw [splitUpTo_bytes _ text (length_le_length_bytes text)]

/-- Only the line feed has the byte of the line feed in its form: every byte of a longer form is at
least `0x80`. -/
theorem lineFeed_mem_encode {c : Char} : Text.lineFeed ∈ String.utf8EncodeChar c ↔ c = '\n' := by
  have hlimit := toNat_lt_limit c
  constructor
  · intro h
    by_cases h1 : c.toNat < 0x80
    · rw [encode_one h1, List.mem_singleton, ← UInt8.toNat_inj, UInt8.toNat_ofNat'] at h
      have hten : Text.lineFeed.toNat = 10 := rfl
      apply Char.toNat_inj.mp
      change c.toNat = 10
      omega
    · exfalso
      have hsmall : ∀ n : Nat, 0x80 ≤ n → n < 0x100 → Text.lineFeed ≠ .ofNat n := by
        intro n hge hlt heq
        have hto := congrArg UInt8.toNat heq
        rw [UInt8.toNat_ofNat'] at hto
        have hten : Text.lineFeed.toNat = 10 := rfl
        omega
      by_cases h2 : c.toNat < 0x800
      · rw [encode_two (by omega) h2] at h
        simp only [List.mem_cons, List.not_mem_nil, or_false] at h
        rcases h with h | h <;> exact hsmall _ (by omega) (by omega) h
      · by_cases h3 : c.toNat < 0x10000
        · rw [encode_three (by omega) h3] at h
          simp only [List.mem_cons, List.not_mem_nil, or_false] at h
          rcases h with h | h | h <;> exact hsmall _ (by omega) (by omega) h
        · rw [encode_four (by omega)] at h
          simp only [List.mem_cons, List.not_mem_nil, or_false] at h
          rcases h with h | h | h | h <;> exact hsmall _ (by omega) (by omega) h
  · rintro rfl
    decide

/-! ### Order -/

theorem first_lt_first {m n : Nat} (hn : n < 0x100) (h : m < n) (rest other : List UInt8) :
    UInt8.ofNat m :: rest < UInt8.ofNat n :: other := by
  rw [List.cons_lt_cons_iff, UInt8.lt_iff_toNat_lt, UInt8.toNat_ofNat', UInt8.toNat_ofNat']
  left
  omega

/-- Digits compare by the first ones, and by the rest if these are equal. -/
theorem digit_lt_digit {m n base : Nat} {rest other : List UInt8} (hn : n + base < 0x100)
    (h : m < n ∨ m = n ∧ rest < other) : UInt8.ofNat (m + base) :: rest < UInt8.ofNat (n + base) :: other := by
  rcases h with hlt | ⟨rfl, hrest⟩
  · exact first_lt_first hn (Nat.add_lt_add_right hlt base) rest other
  · exact List.cons_lt_cons_iff.mpr (.inr ⟨rfl, hrest⟩)

/-- The first byte of a form tells its length, and longer forms have greater first bytes. -/
theorem exists_lead (c : Char) : ∃ lead rest, String.utf8EncodeChar c = .ofNat lead :: rest ∧
    (c.toNat < 0x80 → lead < 0x80) ∧ (c.toNat < 0x800 → lead < 0xE0) ∧ (c.toNat < 0x10000 → lead < 0xF0) ∧
    (0x80 ≤ c.toNat → 0xC0 ≤ lead) ∧ (0x800 ≤ c.toNat → 0xE0 ≤ lead) ∧ (0x10000 ≤ c.toNat → 0xF0 ≤ lead) ∧
    lead < 0x100 := by
  have hlimit := toNat_lt_limit c
  by_cases h1 : c.toNat < 0x80
  · exact ⟨_, _, encode_one h1, by omega⟩
  by_cases h2 : c.toNat < 0x800
  · exact ⟨_, _, encode_two (Nat.le_of_not_lt h1) h2, by omega⟩
  by_cases h3 : c.toNat < 0x10000
  · exact ⟨_, _, encode_three (Nat.le_of_not_lt h2) h3, by omega⟩
  · exact ⟨_, _, encode_four (Nat.le_of_not_lt h3), by omega⟩

/-- **The forms of two characters compare as the characters do**, whatever follows them: a longer form has a
greater first byte, and forms of one length are digits from the most significant one on. -/
theorem encode_append_lt {c d : Char} (h : c.toNat < d.toNat) (rest other : List UInt8) :
    String.utf8EncodeChar c ++ rest < String.utf8EncodeChar d ++ other := by
  have hlimit := toNat_lt_limit d
  by_cases hone : d.toNat < 0x80
  · rw [encode_one (by omega : c.toNat < 0x80), encode_one hone]
    exact first_lt_first (by omega) h _ _
  by_cases htwo : 0x80 ≤ c.toNat ∧ d.toNat < 0x800
  · rw [encode_two htwo.1 (by omega), encode_two (by omega) htwo.2]
    have hdigits : c.toNat / 64 < d.toNat / 64 ∨
        c.toNat / 64 = d.toNat / 64 ∧ c.toNat % 64 < d.toNat % 64 := by omega
    refine digit_lt_digit (by omega) (hdigits.imp_right (And.imp_right fun hlast => ?_))
    exact digit_lt_digit (by omega) (.inl hlast)
  by_cases hthree : 0x800 ≤ c.toNat ∧ d.toNat < 0x10000
  · rw [encode_three hthree.1 (by omega), encode_three (by omega) hthree.2]
    have hdigits : c.toNat / 4096 < d.toNat / 4096 ∨ c.toNat / 4096 = d.toNat / 4096 ∧
        (c.toNat / 64 % 64 < d.toNat / 64 % 64 ∨
          c.toNat / 64 % 64 = d.toNat / 64 % 64 ∧ c.toNat % 64 < d.toNat % 64) := by omega
    refine digit_lt_digit (by omega) (hdigits.imp_right (And.imp_right fun hmiddle => ?_))
    refine digit_lt_digit (by omega) (hmiddle.imp_right (And.imp_right fun hlast => ?_))
    exact digit_lt_digit (by omega) (.inl hlast)
  by_cases hfour : 0x10000 ≤ c.toNat
  · rw [encode_four hfour, encode_four (by omega)]
    have hdigits : c.toNat / 262144 < d.toNat / 262144 ∨ c.toNat / 262144 = d.toNat / 262144 ∧
        (c.toNat / 4096 % 64 < d.toNat / 4096 % 64 ∨ c.toNat / 4096 % 64 = d.toNat / 4096 % 64 ∧
          (c.toNat / 64 % 64 < d.toNat / 64 % 64 ∨
            c.toNat / 64 % 64 = d.toNat / 64 % 64 ∧ c.toNat % 64 < d.toNat % 64)) := by omega
    refine digit_lt_digit (by omega) (hdigits.imp_right (And.imp_right fun hsecond => ?_))
    refine digit_lt_digit (by omega) (hsecond.imp_right (And.imp_right fun hthird => ?_))
    refine digit_lt_digit (by omega) (hthird.imp_right (And.imp_right fun hlast => ?_))
    exact digit_lt_digit (by omega) (.inl hlast)
  -- The forms have different lengths.
  obtain ⟨lead, form, hc, hc'⟩ := exists_lead c
  obtain ⟨lead', form', hd, hd'⟩ := exists_lead d
  rw [hc, hd]
  exact first_lt_first (by omega) (by omega) _ _

theorem bytes_lt_bytes {s t : Text} (h : s < t) : s.bytes < t.bytes := by
  induction s generalizing t with
  | nil =>
    cases t with
    | nil => exact absurd h (List.not_lt_nil _)
    | cons d t =>
      obtain ⟨lead, rest, hlead, -⟩ := exists_lead d
      rw [Text.bytes, Text.bytes, List.flatMap_cons, hlead]
      exact List.nil_lt_cons _ _
  | cons c s ih =>
    cases t with
    | nil => exact absurd h (List.not_lt_nil _)
    | cons d t =>
      rw [Text.bytes, Text.bytes, List.flatMap_cons, List.flatMap_cons]
      rcases List.cons_lt_cons_iff.mp h with hlt | ⟨rfl, hrest⟩
      · exact encode_append_lt hlt _ _
      · exact List.append_left_lt (ih hrest)

/-- **Texts compare as their UTF-8 forms do**: by the first character, or byte, in which they differ. -/
theorem bytes_lt_bytes_iff {s t : Text} : s.bytes < t.bytes ↔ s < t := by
  refine ⟨fun h => ?_, bytes_lt_bytes⟩
  by_contra hnot
  rcases List.le_iff_lt_or_eq.mp (List.not_lt.mp hnot) with hgt | rfl
  · exact List.lt_asymm h (bytes_lt_bytes hgt)
  · exact List.lt_irrefl _ h

end LiveSyntax.Utf8
