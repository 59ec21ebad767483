import Userscript.Text.Utf8

/-!
# Texts written and read as UTF-8

The bytes of a text are read as that text: every character gives one well formed sequence, and
after it the decoder is where it was before.

## Main results

* `foldl_step_encodeChar` — the bytes of a character are one piece
* `decode_encode` — the bytes of a text hold that text
-/

namespace Userscript.Utf8

variable {ps : List Piece} {b low high : UInt8} {run : Bytes} {n value x : Nat}

/-! ### Single bytes -/

theorem toNat_ofNat_of_lt (h : n < 256) : (UInt8.ofNat n).toNat = n := by
  rw [UInt8.toNat_ofNat']
  exact Nat.mod_eq_of_lt h

theorem start_one (h : b.toNat < 0x80) :
    Decoder.start ps b = ⟨.char (.ofNat b.toNat) :: ps, none⟩ :=
  if_pos (UInt8.lt_iff_toNat_lt.2 h)

theorem not_lt_of_le_toNat {d : UInt8} (h : d.toNat ≤ b.toNat) : ¬ b < d := by
  rw [UInt8.lt_iff_toNat_lt]
  omega

theorem start_two (h : 0xC2 ≤ b.toNat) (h' : b.toNat < 0xE0) :
    Decoder.start ps b = ⟨ps, some ⟨[b], 1, 0x80, 0xBF, b.toNat - 0xC0⟩⟩ := by
  have hone : ¬ b < 0x80 := not_lt_of_le_toNat (by simp; omega)
  have hbad : ¬ b < 0xC2 := not_lt_of_le_toNat h
  have htwo : b < 0xE0 := UInt8.lt_iff_toNat_lt.2 h'
  simp only [Decoder.start, if_neg hone, if_neg hbad, if_pos htwo]

theorem start_three (h : 0xE0 ≤ b.toNat) (h' : b.toNat < 0xF0) :
    Decoder.start ps b = ⟨ps, some ⟨[b], 2, if b = 0xE0 then 0xA0 else 0x80,
      if b = 0xED then 0x9F else 0xBF, b.toNat - 0xE0⟩⟩ := by
  have hone : ¬ b < 0x80 := not_lt_of_le_toNat (by simp; omega)
  have hbad : ¬ b < 0xC2 := not_lt_of_le_toNat (by simp; omega)
  have htwo : ¬ b < 0xE0 := not_lt_of_le_toNat h
  have hthree : b < 0xF0 := UInt8.lt_iff_toNat_lt.2 h'
  simp only [Decoder.start, if_neg hone, if_neg hbad, if_neg htwo, if_pos hthree]

theorem start_four (h : 0xF0 ≤ b.toNat) (h' : b.toNat < 0xF5) :
    Decoder.start ps b = ⟨ps, some ⟨[b], 3, if b = 0xF0 then 0x90 else 0x80,
      if b = 0xF4 then 0x8F else 0xBF, b.toNat - 0xF0⟩⟩ := by
  have hone : ¬ b < 0x80 := not_lt_of_le_toNat (by simp; omega)
  have hbad : ¬ b < 0xC2 := not_lt_of_le_toNat (by simp; omega)
  have htwo : ¬ b < 0xE0 := not_lt_of_le_toNat (by simp; omega)
  have hthree : ¬ b < 0xF0 := not_lt_of_le_toNat h
  have hfour : b < 0xF5 := UInt8.lt_iff_toNat_lt.2 h'
  simp only [Decoder.start, if_neg hone, if_neg hbad, if_neg htwo, if_neg hthree, if_pos hfour]

/-- A byte that continues the open sequence and is not its last one. -/
theorem step_continue (hb : b.toNat = 0x80 + x) (hlow : low.toNat ≤ 0x80 + x)
    (hhigh : 0x80 + x ≤ high.toNat) :
    Decoder.step ⟨ps, some ⟨run, n + 2, low, high, value⟩⟩ b =
      ⟨ps, some ⟨b :: run, n + 1, 0x80, 0xBF, 64 * value + x⟩⟩ := by
  have hfits : low ≤ b ∧ b ≤ high := by
    rw [UInt8.le_iff_toNat_le, UInt8.le_iff_toNat_le, hb]
    exact ⟨hlow, hhigh⟩
  have hmore : ¬ n + 2 ≤ 1 := by omega
  have hvalue : b.toNat - 0x80 = x := by omega
  simp only [Decoder.step, if_pos hfits, if_neg hmore, hvalue]
  rfl

/-- The last byte of the open sequence. -/
theorem step_last (hb : b.toNat = 0x80 + x) (hlow : low.toNat ≤ 0x80 + x)
    (hhigh : 0x80 + x ≤ high.toNat) :
    Decoder.step ⟨ps, some ⟨run, 1, low, high, value⟩⟩ b =
      ⟨.char (.ofNat (64 * value + x)) :: ps, none⟩ := by
  have hfits : low ≤ b ∧ b ≤ high := by
    rw [UInt8.le_iff_toNat_le, UInt8.le_iff_toNat_le, hb]
    exact ⟨hlow, hhigh⟩
  have hvalue : b.toNat - 0x80 = x := by omega
  simp only [Decoder.step, if_pos hfits, Nat.le_refl, if_true, hvalue]

/-! ### Bounds of the bytes behind the first one -/

theorem toNat_continuation (n unit : Nat) :
    (UInt8.ofNat (0x80 + n / unit % 64)).toNat = 0x80 + n / unit % 64 :=
  toNat_ofNat_of_lt (by omega)

theorem toNat_low : (0x80 : UInt8).toNat = 0x80 := rfl

theorem toNat_high : (0xBF : UInt8).toNat = 0xBF := rfl

/-- The least second byte of a sequence, where shorter sequences are to be excluded. -/
theorem toNat_ite_le {d : UInt8} (hb : b.toNat = d.toNat → low.toNat ≤ 0x80 + x) :
    (if b = d then low else 0x80).toNat ≤ 0x80 + x := by
  split
  · next h => exact hb (h ▸ rfl)
  · rw [toNat_low]
    omega

/-- The greatest second byte of a sequence, where what is no character is to be excluded. -/
theorem le_toNat_ite {d : UInt8} (hb : b.toNat = d.toNat → 0x80 + x ≤ high.toNat) (hx : x < 64) :
    0x80 + x ≤ (if b = d then high else 0xBF).toNat := by
  split
  · next h => exact hb (h ▸ rfl)
  · rw [toNat_high]
    omega

theorem low_le (x : Nat) : (0x80 : UInt8).toNat ≤ 0x80 + x := Nat.le_add_right _ _

theorem le_high (x : Nat) : 0x80 + x % 64 ≤ (0xBF : UInt8).toNat := by
  rw [toNat_high]
  omega

/-! ### Sequences

The number of a character is put together from the bytes of its sequence. -/

theorem foldl_step_two (ps : List Piece) (h : 0x80 ≤ n) (h' : n < 0x800) :
    [UInt8.ofNat (0xC0 + n / 64), UInt8.ofNat (0x80 + n / 1 % 64)].foldl Decoder.step ⟨ps, none⟩ =
      ⟨.char (.ofNat n) :: ps, none⟩ := by
  have hb : (UInt8.ofNat (0xC0 + n / 64)).toNat = 0xC0 + n / 64 := toNat_ofNat_of_lt (by omega)
  have hvalue : 64 * (0xC0 + n / 64 - 0xC0) + n / 1 % 64 = n := by omega
  rw [List.foldl_cons, Decoder.step, start_two (by omega) (by omega), hb, List.foldl_cons,
    List.foldl_nil, step_last (toNat_continuation n 1) (low_le _) (le_high _), hvalue]

theorem foldl_step_three (ps : List Piece) (h : 0x800 ≤ n) (h' : n < 0x10000) (hpair : n < 0xD800 ∨ 0xDFFF < n) :
    [UInt8.ofNat (0xE0 + n / 4096), UInt8.ofNat (0x80 + n / 64 % 64),
        UInt8.ofNat (0x80 + n / 1 % 64)].foldl Decoder.step ⟨ps, none⟩ = ⟨.char (.ofNat n) :: ps, none⟩ := by
  have hb : (UInt8.ofNat (0xE0 + n / 4096)).toNat = 0xE0 + n / 4096 := toNat_ofNat_of_lt (by omega)
  -- What the second byte must not be would be a shorter sequence, or half of a pair.
  have hleast : (if UInt8.ofNat (0xE0 + n / 4096) = 0xE0 then (0xA0 : UInt8) else 0x80).toNat ≤
      0x80 + n / 64 % 64 := toNat_ite_le (by rw [hb]; simp; omega)
  have hmost : 0x80 + n / 64 % 64 ≤
      (if UInt8.ofNat (0xE0 + n / 4096) = 0xED then (0x9F : UInt8) else 0xBF).toNat :=
    le_toNat_ite (by rw [hb]; simp; omega) (by omega)
  have hvalue : 64 * (64 * (0xE0 + n / 4096 - 0xE0) + n / 64 % 64) + n / 1 % 64 = n := by omega
  rw [List.foldl_cons, Decoder.step, start_three (by omega) (by omega), hb, List.foldl_cons,
    step_continue (toNat_continuation n 64) hleast hmost, List.foldl_cons, List.foldl_nil,
    step_last (toNat_continuation n 1) (low_le _) (le_high _), hvalue]

theorem foldl_step_four (ps : List Piece) (h : 0x10000 ≤ n) (h' : n < 0x110000) :
    [UInt8.ofNat (0xF0 + n / 262144), UInt8.ofNat (0x80 + n / 4096 % 64), UInt8.ofNat (0x80 + n / 64 % 64),
        UInt8.ofNat (0x80 + n / 1 % 64)].foldl Decoder.step ⟨ps, none⟩ = ⟨.char (.ofNat n) :: ps, none⟩ := by
  have hb : (UInt8.ofNat (0xF0 + n / 262144)).toNat = 0xF0 + n / 262144 := toNat_ofNat_of_lt (by omega)
  -- Nor may the second byte make it a shorter sequence, or a number beyond the last character.
  have hleast : (if UInt8.ofNat (0xF0 + n / 262144) = 0xF0 then (0x90 : UInt8) else 0x80).toNat ≤
      0x80 + n / 4096 % 64 := toNat_ite_le (by rw [hb]; simp; omega)
  have hmost : 0x80 + n / 4096 % 64 ≤
      (if UInt8.ofNat (0xF0 + n / 262144) = 0xF4 then (0x8F : UInt8) else 0xBF).toNat :=
    le_toNat_ite (by rw [hb]; simp; omega) (by omega)
  have hvalue : 64 * (64 * (64 * (0xF0 + n / 262144 - 0xF0) + n / 4096 % 64) + n / 64 % 64) +
      n / 1 % 64 = n := by omega
  rw [List.foldl_cons, Decoder.step, start_four (by omega) (by omega), hb, List.foldl_cons,
    step_continue (toNat_continuation n 4096) hleast hmost, List.foldl_cons,
    step_continue (toNat_continuation n 64) (low_le _) (le_high _), List.foldl_cons, List.foldl_nil,
    step_last (toNat_continuation n 1) (low_le _) (le_high _), hvalue]

/-- The bytes of a character are one piece. -/
theorem foldl_step_encodeChar (ps : List Piece) (c : Char) :
    (encodeChar c).foldl Decoder.step ⟨ps, none⟩ = ⟨.char c :: ps, none⟩ := by
  have hvalid : c.toNat < 0xD800 ∨ 0xDFFF < c.toNat ∧ c.toNat < 0x110000 := c.valid
  have hchar : Char.ofNat c.toNat = c := Char.ofNat_toNat c
  unfold encodeChar
  dsimp only
  split
  · next hone =>
    have hb : (UInt8.ofNat c.toNat).toNat = c.toNat := toNat_ofNat_of_lt (by omega)
    rw [List.foldl_cons, List.foldl_nil, Decoder.step, start_one (by omega), hb, hchar]
  · split
    · next htwo =>
      rw [foldl_step_two ps (by omega) htwo, hchar]
    · split
      · next hthree =>
        rw [foldl_step_three ps (by omega) hthree (by omega), hchar]
      · next hfour =>
        rw [foldl_step_four ps (by omega) (by omega), hchar]

/-! ### Texts -/

theorem foldl_step_encode (ps : List Piece) (t : Text) :
    (encode t).foldl Decoder.step ⟨ps, none⟩ = ⟨(t.map Piece.char).reverse ++ ps, none⟩ := by
  induction t generalizing ps with
  | nil => rfl
  | cons c t ih =>
    rw [encode, List.flatMap_cons, List.foldl_append, foldl_step_encodeChar, ← encode, ih]
    simp

theorem pieces_encode (t : Text) : pieces (encode t) = t.map .char := by
  rw [pieces, foldl_step_encode]
  simp [Decoder.finish]

theorem firstFault_map_char (n : Nat) (t : Text) : firstFault n (t.map .char) = none := by
  induction t generalizing n with
  | nil => rfl
  | cons c t ih => exact ih _

/-- The bytes of a text hold that text. -/
theorem decode_encode (t : Text) : decode (encode t) = .ok t := by
  have hshown : (t.map Piece.char).map Piece.shown = t := by
    rw [List.map_map]
    exact List.map_id t
  rw [decode, pieces_encode]
  simp only [firstFault_map_char, hshown]

end Userscript.Utf8
