import Mathlib.Data.List.Basic
import Userscript.Json.Printer
import Userscript.Json.Reader

/-!
# Strings written and read back

A text is read back as it was written. Halves of surrogate pairs may come together when they are
read, so a wide text is read back as some text, and without fault.

## Main definitions

* `Json.Escaped` — what may stand between the quotes of a string

## Main results

* `string_escape` — a text is read back
* `exists_string_escapeWide` — a wide text is read back as some text
-/

namespace Userscript.Json

variable {whole rest t : Text} {seen : List CodePoint} {n : Nat} {a b c d e : Char}

/-! ### Units of four digits -/

theorem hexDigit?_digitChar (h : n < 16) : hexDigit? (Nat.digitChar n) = some n := by
  have hall : ∀ n : Fin 16, hexDigit? (Nat.digitChar n) = some n.val := by decide
  exact hall ⟨n, h⟩

theorem toDigits_of_lt (h : n < 16) : Nat.toDigits 16 n = [Nat.digitChar n] := by
  rw [Nat.toDigits_eq_if (by decide), if_pos h]

theorem toDigits_of_le (h : 16 ≤ n) :
    Nat.toDigits 16 n = Nat.toDigits 16 (n / 16) ++ [Nat.digitChar (n % 16)] := by
  rw [Nat.toDigits_eq_if (by decide), if_neg (by omega)]

/-- A unit is written with four digits. -/
theorem hex_of_lt (h : n < 0x10000) :
    Text.hex 4 n = [Nat.digitChar (n / 0x1000), Nat.digitChar (n / 0x100 % 16),
      Nat.digitChar (n / 0x10 % 16), Nat.digitChar (n % 16)] := by
  have hzero : Nat.digitChar 0 = '0' := rfl
  rw [Text.hex]
  -- Zeros are put in for the digits that the number does not have.
  by_cases h1 : n < 0x10
  · have h' : n / 0x1000 = 0 ∧ n / 0x100 % 16 = 0 ∧ n / 0x10 % 16 = 0 ∧ n % 16 = n := by omega
    rw [toDigits_of_lt h1, h'.1, h'.2.1, h'.2.2.1, h'.2.2.2, hzero]
    rfl
  · rw [toDigits_of_le (by omega)]
    by_cases h2 : n < 0x100
    · have h' : n / 0x1000 = 0 ∧ n / 0x100 % 16 = 0 ∧ n / 0x10 % 16 = n / 16 := by omega
      rw [toDigits_of_lt (by omega), h'.1, h'.2.1, h'.2.2, hzero]
      rfl
    · rw [toDigits_of_le (by omega)]
      by_cases h3 : n < 0x1000
      · have h' : n / 0x1000 = 0 ∧ n / 0x100 % 16 = n / 16 / 16 := by omega
        rw [toDigits_of_lt (by omega), h'.1, h'.2, hzero]
        rfl
      · have h' : n / 0x1000 = n / 16 / 16 / 16 ∧ n / 0x100 % 16 = n / 16 / 16 % 16 := by omega
        rw [toDigits_of_le (by omega), toDigits_of_lt (by omega), h'.1, h'.2]
        rfl

theorem unit?_of_lt (h : n < 0x10000) :
    unit? (Nat.digitChar (n / 0x1000)) (Nat.digitChar (n / 0x100 % 16))
      (Nat.digitChar (n / 0x10 % 16)) (Nat.digitChar (n % 16)) = some n := by
  rw [unit?, hexDigit?_digitChar (by omega), hexDigit?_digitChar (by omega),
    hexDigit?_digitChar (by omega), hexDigit?_digitChar (by omega)]
  simp only [Option.bind_eq_bind, Option.bind_some, Option.pure_def, Option.some.injEq]
  omega

/-! ### Escapes -/

/-- An escape of a unit that begins no pair is read as that unit. -/
theorem unicodeEscape_hex (h : n < 0x10000) (hhigh : isHigh n = false) (e : Char) (rest : Text) :
    unicodeEscape (Text.hex 4 n ++ e :: rest) = .ok (unitPoint n, 4) := by
  rw [hex_of_lt h]
  simp only [List.cons_append, List.nil_append, unicodeEscape, unit?_of_lt h, hhigh]

/-- The escapes of the two halves of a pair are read as one character. -/
theorem unicodeEscape_pair {high low : Nat} (hhigh : isHigh high) (hlow : isLow low) (e : Char)
    (rest : Text) :
    unicodeEscape (Text.hex 4 high ++ '\\' :: 'u' :: (Text.hex 4 low ++ e :: rest)) =
      .ok (.char (.ofNat (0x10000 + (high - 0xD800) * 0x400 + (low - 0xDC00))), 10) := by
  have hhigh' : high < 0x10000 := by
    simp only [isHigh, Bool.and_eq_true, decide_eq_true_eq] at hhigh
    omega
  have hlow' : low < 0x10000 := by
    simp only [isLow, Bool.and_eq_true, decide_eq_true_eq] at hlow
    omega
  rw [hex_of_lt hhigh', hex_of_lt hlow']
  simp only [List.cons_append, List.nil_append, unicodeEscape, unit?_of_lt hhigh',
    unit?_of_lt hlow', hhigh, hlow, if_true]

theorem string_unit {point : CodePoint} {taken : Nat} (h : unicodeEscape t = .ok (point, taken)) :
    string whole seen ('\\' :: 'u' :: t) = string whole (point :: seen) (t.drop taken) := by
  rw [string, h]

theorem string_short {e' : Char} (he : escaped? e = some e') (t : Text) :
    string whole seen ('\\' :: e :: t) = string whole (.char e' :: seen) t := by
  have hu : e ≠ 'u' := by
    rintro rfl
    cases he
  rw [string]
  · rw [he]
  · exact hu

theorem string_plain (hquote : c ≠ '"') (hescape : c ≠ '\\') (hcontrol : 0x20 ≤ c.toNat)
    (t : Text) : string whole seen (c :: t) = string whole (.char c :: seen) t := by
  rw [string]
  · rw [if_neg (by omega)]
  · exact hquote
  · exact fun h _ => hescape h
  · exact fun _ h _ => hescape h
  · exact fun _ _ h _ => hescape h

theorem string_quote (t : Text) :
    string whole seen ('"' :: t) = .ok (.ofPoints seen.reverse, t) := by
  rw [string]

/-! ### Texts -/

theorem not_surrogate (c : Char) : isHigh c.toNat = false ∧ isLow c.toNat = false := by
  have hvalid : c.toNat < 0xD800 ∨ 0xDFFF < c.toNat ∧ c.toNat < 0x110000 := c.valid
  simp only [isHigh, isLow, Bool.and_eq_false_iff, decide_eq_false_iff_not]
  omega

/-- A character of one unit is read back from its escape. -/
theorem string_escapeUnit_char (h : c.toNat < 0x10000) (e : Char) (t : Text) :
    string whole seen (escapeUnit c.toNat ++ e :: t) = string whole (.char c :: seen) (e :: t) := by
  have hpoint : unitPoint c.toNat = .char c := by
    rw [unitPoint, (not_surrogate c).1, (not_surrogate c).2, if_neg (by decide), Char.ofNat_toNat]
  rw [escapeUnit, List.cons_append, List.cons_append,
    string_unit (unicodeEscape_hex h (not_surrogate c).1 e t), hpoint, hex_of_lt h]
  rfl

/-- A character of two units is read back from the escapes of a surrogate pair. -/
theorem string_escapeUnit_pair (h : 0x10000 ≤ c.toNat) (e : Char) (t : Text) :
    string whole seen (escapeUnit (0xD800 + (c.toNat - 0x10000) / 0x400) ++
        escapeUnit (0xDC00 + (c.toNat - 0x10000) % 0x400) ++ e :: t) =
      string whole (.char c :: seen) (e :: t) := by
  have hvalid : c.toNat < 0xD800 ∨ 0xDFFF < c.toNat ∧ c.toNat < 0x110000 := c.valid
  have hhigh : isHigh (0xD800 + (c.toNat - 0x10000) / 0x400) := by
    simp only [isHigh, Bool.and_eq_true, decide_eq_true_eq]
    omega
  have hlow : isLow (0xDC00 + (c.toNat - 0x10000) % 0x400) := by
    simp only [isLow, Bool.and_eq_true, decide_eq_true_eq]
    omega
  have hchar : Char.ofNat (0x10000 + (0xD800 + (c.toNat - 0x10000) / 0x400 - 0xD800) * 0x400 +
      (0xDC00 + (c.toNat - 0x10000) % 0x400 - 0xDC00)) = c := by
    have hn : 0x10000 + (0xD800 + (c.toNat - 0x10000) / 0x400 - 0xD800) * 0x400 +
        (0xDC00 + (c.toNat - 0x10000) % 0x400 - 0xDC00) = c.toNat := by omega
    rw [hn, Char.ofNat_toNat]
  rw [escapeUnit, escapeUnit, List.append_assoc, List.cons_append, List.cons_append,
    List.cons_append, List.cons_append, string_unit (unicodeEscape_pair hhigh hlow e t), hchar,
    hex_of_lt (by omega), hex_of_lt (by omega)]
  rfl

/-- A character is read back, if something stands behind it. -/
theorem string_escapeChar (c e : Char) (t : Text) :
    string whole seen (escapeChar c ++ e :: t) = string whole (.char c :: seen) (e :: t) := by
  rw [escapeChar]
  split
  · next h => rcases h with rfl | rfl <;> exact string_short rfl _
  split
  · next h => subst h; exact string_short rfl _
  split
  · next h => subst h; exact string_short rfl _
  split
  · next h => subst h; exact string_short rfl _
  split
  · next h => subst h; exact string_short rfl _
  split
  · next h => subst h; exact string_short rfl _
  split
  · next hmarks _ _ _ _ _ hplain =>
    rw [not_or] at hmarks
    exact string_plain hmarks.1 hmarks.2 hplain.1 _
  split
  · next hone => exact string_escapeUnit_char hone e t
  · next htwo => exact string_escapeUnit_pair (Nat.not_lt.1 htwo) e t

theorem string_flatMap_escapeChar (t rest : Text) :
    string whole seen (t.flatMap escapeChar ++ '"' :: rest) =
      .ok (.ofPoints (seen.reverse ++ t.map .char), rest) := by
  induction t generalizing seen with
  | nil => simp [string_quote]
  | cons c t ih =>
    rw [List.flatMap_cons, List.append_assoc]
    -- Something stands behind the character, at least the closing quote.
    have hbehind : ∃ e u, t.flatMap escapeChar ++ '"' :: rest = e :: u :=
      List.exists_cons_of_ne_nil (by simp)
    obtain ⟨e, u, hu⟩ := hbehind
    rw [hu, string_escapeChar, ← hu, ih]
    simp

theorem ofPoints_map_char (t : Text) : WideText.ofPoints (t.map .char) = .proper (String.ofList t) := by
  have hmap : (t.map CodePoint.char).mapM CodePoint.char? = some t := by
    induction t with
    | nil => rfl
    | cons c t ih => simp [CodePoint.char?, ih]
  rw [WideText.ofPoints, hmap]

/-- A text is read back. -/
theorem string_escape (s : String) (rest : Text) :
    string whole [] ((WideText.proper s).points.flatMap escapePoint ++ '"' :: rest) =
      .ok (.proper s, rest) := by
  have hpoints : (WideText.proper s).points.flatMap escapePoint = s.toList.flatMap escapeChar := by
    rw [WideText.points, List.flatMap_map]
    rfl
  rw [hpoints, string_flatMap_escapeChar, List.reverse_nil, List.nil_append, ofPoints_map_char,
    String.ofList_toList]

/-! ### Wide texts -/

/-- What may stand between the quotes of a string. -/
inductive Escaped : Text → Prop
  | nil : Escaped []
  | plain {c : Char} {t : Text} (hquote : c ≠ '"') (hescape : c ≠ '\\') (hcontrol : 0x20 ≤ c.toNat)
    (ht : Escaped t) : Escaped (c :: t)
  | short {e e' : Char} {t : Text} (he : escaped? e = some e') (ht : Escaped t) :
    Escaped ('\\' :: e :: t)
  | unit {a b c d : Char} {n : Nat} {t : Text} (hn : unit? a b c d = some n) (ht : Escaped t) :
    Escaped ('\\' :: 'u' :: a :: b :: c :: d :: t)

/-- An escape is read with the next one or without it. -/
theorem unicodeEscape_cases (hn : unit? a b c d = some n) (ht : Escaped t) (rest : Text) :
    (∃ point, unicodeEscape (a :: b :: c :: d :: (t ++ '"' :: rest)) = .ok (point, 4)) ∨
      ∃ point a' b' c' d' t', Escaped t' ∧ t = '\\' :: 'u' :: a' :: b' :: c' :: d' :: t' ∧
        unicodeEscape (a :: b :: c :: d :: (t ++ '"' :: rest)) = .ok (point, 10) := by
  -- Only an escape of a low surrogate that follows at once is read together with this one.
  cases ht with
  | nil => exact .inl ⟨unitPoint n, by simp [unicodeEscape, hn]⟩
  | plain hquote hescape hcontrol ht =>
    refine .inl ⟨unitPoint n, ?_⟩
    simp only [List.cons_append, unicodeEscape, hn]
    split
    · exact absurd rfl hescape
    · rfl
  | short he ht =>
    refine .inl ⟨unitPoint n, ?_⟩
    simp only [List.cons_append, unicodeEscape, hn]
    split
    · next heq =>
      obtain ⟨rfl, -⟩ := List.cons.inj heq
      cases he
    · rfl
  | @unit a' b' c' d' m t' hm ht =>
    obtain ⟨e, u, hu⟩ : ∃ e u, t' ++ '"' :: rest = e :: u := List.exists_cons_of_ne_nil (by simp)
    simp only [List.cons_append, hu, unicodeEscape, hn]
    cases isHigh n with
    | false => exact .inl ⟨unitPoint n, rfl⟩
    | true =>
      cases hlow : isLow m with
      | false => exact .inl ⟨unitPoint n, by simp [hm, hlow]⟩
      | true => exact .inr ⟨_, a', b', c', d', t', ht, rfl, by simp [hm, hlow]; rfl⟩

/-- What may stand between quotes is read as some text. -/
theorem exists_string_of_escaped (ht : Escaped t) (rest : Text) :
    ∃ found, string whole seen (t ++ '"' :: rest) = .ok (found, rest) := by
  -- Two escapes may be read at once, so the induction is on the length of the text.
  induction hlength : t.length using Nat.strongRecOn generalizing t seen with
  | _ length ih =>
    subst hlength
    cases ht with
    | nil => exact ⟨_, string_quote rest⟩
    | plain hquote hescape hcontrol ht =>
      rw [List.cons_append, string_plain hquote hescape hcontrol]
      exact ih _ (by simp) ht rfl
    | short he ht =>
      rw [List.cons_append, List.cons_append, string_short he]
      exact ih _ (by simp only [List.length_cons]; omega) ht rfl
    | @unit a b c d n t hn ht =>
      simp only [List.cons_append]
      rcases unicodeEscape_cases hn ht rest with ⟨point, h⟩ | ⟨point, a', b', c', d', t', ht', rfl, h⟩
      · rw [string_unit h]
        exact ih _ (by simp; omega) ht rfl
      · rw [string_unit h]
        exact ih _ (by simp; omega) ht' rfl

theorem Escaped.plain_append {plain : Text} (ht : Escaped t)
    (h : ∀ c ∈ plain, c ≠ '"' ∧ c ≠ '\\' ∧ 0x20 ≤ c.toNat) : Escaped (plain ++ t) := by
  induction plain with
  | nil => exact ht
  | cons c plain ih =>
    have hc := h c List.mem_cons_self
    exact .plain hc.1 hc.2.1 hc.2.2 (ih fun d hd => h d (List.mem_cons_of_mem c hd))

theorem exists_digitChar_of_mem_hex {width : Nat} (h : c ∈ Text.hex width n) :
    ∃ k < 16, c = Nat.digitChar k := by
  have hdigits (n : Nat) : ∀ c ∈ Nat.toDigits 16 n, ∃ k < 16, c = Nat.digitChar k := by
    induction n using Nat.strongRecOn with
    | _ n ih =>
      intro c hc
      by_cases hn : n < 16
      · rw [toDigits_of_lt hn] at hc
        exact ⟨n, hn, List.mem_singleton.1 hc⟩
      · rw [toDigits_of_le (by omega)] at hc
        rcases List.mem_append.1 hc with hc | hc
        · exact ih (n / 16) (by omega) c hc
        · exact ⟨n % 16, by omega, List.mem_singleton.1 hc⟩
  rw [Text.hex] at h
  rcases List.mem_append.1 h with h | h
  · exact ⟨0, by decide, List.eq_of_mem_replicate h⟩
  · exact hdigits n c h

theorem plain_digitChar (h : n < 16) :
    Nat.digitChar n ≠ '"' ∧ Nat.digitChar n ≠ '\\' ∧ 0x20 ≤ (Nat.digitChar n).toNat := by
  have hall : ∀ n : Fin 16, Nat.digitChar n ≠ '"' ∧ Nat.digitChar n ≠ '\\' ∧
      0x20 ≤ (Nat.digitChar n).toNat := by decide
  exact hall ⟨n, h⟩

theorem Escaped.escapeUnit (ht : Escaped t) (n : Nat) : Escaped (escapeUnit n ++ t) := by
  have hdigit {c : Char} (h : c ∈ Text.hex 4 n) := exists_digitChar_of_mem_hex h
  have hlength : 4 ≤ (Text.hex 4 n).length := by
    rw [Text.hex, List.length_append, List.length_replicate]
    omega
  rw [Json.escapeUnit]
  -- The escape takes four digits; any others would be plain characters behind it.
  match hhex : Text.hex 4 n with
  | a :: b :: c :: d :: more =>
    rw [hhex] at hdigit
    obtain ⟨ka, hka, rfl⟩ := hdigit (by simp : a ∈ _)
    obtain ⟨kb, hkb, rfl⟩ := hdigit (by simp : b ∈ _)
    obtain ⟨kc, hkc, rfl⟩ := hdigit (by simp : c ∈ _)
    obtain ⟨kd, hkd, rfl⟩ := hdigit (by simp : d ∈ _)
    have hunit : ∃ m, unit? (Nat.digitChar ka) (Nat.digitChar kb) (Nat.digitChar kc)
        (Nat.digitChar kd) = some m := by
      rw [unit?, hexDigit?_digitChar hka, hexDigit?_digitChar hkb, hexDigit?_digitChar hkc,
        hexDigit?_digitChar hkd]
      exact ⟨_, rfl⟩
    obtain ⟨m, hm⟩ := hunit
    refine .unit hm (ht.plain_append fun e he => ?_)
    obtain ⟨k, hk, rfl⟩ := hdigit (by simp [he] : e ∈ _)
    exact plain_digitChar hk
  | [] | [_] | [_, _] | [_, _, _] => simp [hhex] at hlength

theorem Escaped.escapeChar (ht : Escaped t) (c : Char) : Escaped (escapeChar c ++ t) := by
  rw [Json.escapeChar]
  -- The cases are those of `escapeChar`, in their order.
  split
  · next h => rcases h with rfl | rfl <;> exact .short rfl ht
  split
  · exact .short (rfl : escaped? 'n' = _) ht
  split
  · exact .short (rfl : escaped? 'r' = _) ht
  split
  · exact .short (rfl : escaped? 't' = _) ht
  split
  · exact .short (rfl : escaped? 'b' = _) ht
  split
  · exact .short (rfl : escaped? 'f' = _) ht
  split
  · next hmarks _ _ _ _ _ hplain =>
    rw [not_or] at hmarks
    exact .plain hmarks.1 hmarks.2 hplain.1 ht
  split
  · exact ht.escapeUnit _
  · dsimp only
    rw [List.append_assoc]
    exact (ht.escapeUnit _).escapeUnit _

theorem escaped_points (ps : List CodePoint) : Escaped (ps.flatMap escapePoint) := by
  induction ps with
  | nil => exact .nil
  | cons p ps ih =>
    rw [List.flatMap_cons]
    cases p with
    | char c => exact ih.escapeChar c
    | half unit => exact ih.escapeUnit unit

/-- A wide text is read back as some text. -/
theorem exists_string_escapeWide (w : WideText) (rest : Text) :
    ∃ found, string whole seen (w.points.flatMap escapePoint ++ '"' :: rest) = .ok (found, rest) :=
  exists_string_of_escaped (escaped_points w.points) rest

theorem ne_return_of_unit? (h : unit? a b c d = some n) :
    '\r' ≠ a ∧ '\r' ≠ b ∧ '\r' ≠ c ∧ '\r' ≠ d := by
  have hnone : hexDigit? '\r' = none := rfl
  refine ⟨?_, ?_, ?_, ?_⟩ <;> rintro rfl <;> simp [unit?, hnone] at h

/-- A string holds no carriage return. -/
theorem Escaped.not_mem_return (ht : Escaped t) : '\r' ∉ t := by
  induction ht with
  | nil => simp
  | @plain c t hquote hescape hcontrol ht ih =>
    have hc : '\r' ≠ c := by
      rintro rfl
      exact absurd hcontrol (by decide)
    simp [hc, ih]
  | @short e e' t he ht ih =>
    have he : '\r' ≠ e := by
      rintro rfl
      cases he
    simp [he, ih]
  | unit hn ht ih =>
    have hne := ne_return_of_unit? hn
    simp [hne, ih]

end Userscript.Json
