import BrokerClient.Json.Lexer
import BrokerClient.Json.Printer
import Mathlib.Data.List.TakeDrop

/-!
# The words of JSON are read back

What `stringChars` and `intChars` write is read back by the lexer, whatever follows it: a string
ends at its own closing mark, a number where something follows that cannot go on with it. After a
value only the end of the text, a comma or a closing bracket stands.

A reader is told how many steps it may take, so each lemma says how many are enough: one for each
character of the text. What follows the word stays in the text and is handed back. For numbers this
matters, as a digit that follows would be read as one more digit; `Follows` is all that a number
needs to know of the rest.
-/

namespace BrokerClient.Json

open BrokerClient.Number BrokerClient.Text

/-! ## Strings -/

/-- A hexadecimal digit is read as the number that it was written for. -/
theorem hexValue?_hexDigit (n : Nat) : hexValue? (hexDigit n) = some (n % 16) := by
  have h : ∀ k < 16, hexValue? (Nat.digitChar k) = some k := by decide
  exact h (n % 16) (Nat.mod_lt n (by decide))

/-- The four digits with which a control character is written. -/
theorem readHex4_control {n : Nat} (h : n < 256) (rest : List Char) :
    readHex4 ('0' :: '0' :: hexDigit (n / 16) :: hexDigit n :: rest) = .ok (n, rest) := by
  have h0 : hexValue? '0' = some 0 := hexValue?_hexDigit 0
  simp only [readHex4, h0, hexValue?_hexDigit]
  rw [show ((0 * 16 + 0) * 16 + n / 16 % 16) * 16 + n % 16 = n by omega]

/-- The escape of a control character is read as that character: it is no half of a pair. -/
theorem readEscape_control {n : Nat} (h : n < 0x20) (rest : List Char) :
    readEscape ('u' :: '0' :: '0' :: hexDigit (n / 16) :: hexDigit n :: rest) =
      .ok (Char.ofNat n, rest) := by
  have ht : isTrailing n = false := by simp [isTrailing]; omega
  have hl : isLeading n = false := by simp [isLeading]; omega
  simp only [readEscape, readHex4_control (by omega : n < 256), bind, Except.bind, ht, hl]
  rfl

/-- An escape is read as its character, and the string goes on behind it. -/
theorem readString_escape {c : Char} {fuel : Nat} {escape rest tail s : List Char}
    (he : readEscape escape = .ok (c, rest)) (h : readString fuel rest = .ok (s, tail)) :
    readString (fuel + 1) ('\\' :: escape) = .ok (c :: s, tail) := by
  simp only [readString, he, h, bind, Except.bind]
  rfl

/-- A character that is written is read as itself, and the string goes on behind it. -/
theorem readString_escapeChar (c : Char) {fuel : Nat} {rest tail s : List Char}
    (h : readString fuel rest = .ok (s, tail)) :
    readString (fuel + 1) (escapeChar c ++ rest) = .ok (c :: s, tail) := by
  fun_cases escapeChar c with
  | case3 hq hb hc =>
    rw [List.singleton_append, readString, if_neg hq, if_neg hb, if_neg (by omega), h]
    rfl
  | case9 =>
    have he := readEscape_control (by omega : c.toNat < 0x20) rest
    rw [Char.ofNat_toNat] at he
    exact readString_escape he h
  | _ =>
    -- The character has an escape of its own, which is read as that character.
    subst_vars
    exact readString_escape rfl h

/-- Every character is written as one or more. -/
theorem length_escapeChar_pos (c : Char) : 0 < (escapeChar c).length := by
  fun_cases escapeChar c <;> exact Nat.zero_lt_succ _

/-- The characters of a string are read up to its closing mark. -/
theorem readString_body (s : List Char) {fuel : Nat} (h : (s.flatMap escapeChar).length < fuel)
    (rest : List Char) : readString fuel (s.flatMap escapeChar ++ '"' :: rest) = .ok (s, rest) := by
  induction s generalizing fuel with
  | nil =>
    obtain ⟨k, rfl⟩ := Nat.exists_eq_add_one.mpr h
    rfl
  | cons c s ih =>
    have hc := length_escapeChar_pos c
    rw [List.flatMap_cons, List.length_append] at h
    obtain ⟨k, rfl⟩ := Nat.exists_eq_add_one.mpr (by omega : 0 < fuel)
    rw [List.flatMap_cons, List.append_assoc]
    exact readString_escapeChar c (ih (by omega))

theorem stringChars_eq (s : String) :
    stringChars s = '"' :: (s.toList.flatMap escapeChar ++ ['"']) := rfl

/-! ## Numbers -/

/-- What may follow a value: the end of the text, a comma, or a closing bracket. -/
def Follows (rest : List Char) : Prop := ∀ c ∈ rest.head?, c = ',' ∨ c = ']' ∨ c = '\x7d'

theorem follows_nil : Follows [] := by
  intro c hc
  cases hc

/-- A comma or a closing bracket may follow a value, whatever comes behind it. -/
theorem follows_cons {c : Char} (h : c = ',' ∨ c = ']' ∨ c = '\x7d') (rest : List Char) :
    Follows (c :: rest) := by
  intro d hd
  cases hd
  exact h

/-- No digit follows a value. -/
theorem Follows.not_isDigit {c : Char} {rest : List Char} (h : Follows (c :: rest)) :
    c.isDigit = false := by
  rcases h c rfl with rfl | rfl | rfl <;> rfl

/-- Reading more digits makes no number smaller. -/
theorem le_ofDigitChars (ds : List Char) (n : Nat) : n ≤ Nat.ofDigitChars 10 ds n := by
  induction ds generalizing n with
  | nil => exact Nat.le_refl n
  | cons d ds ih =>
    rw [Nat.ofDigitChars_cons]
    exact Nat.le_trans (by omega) (ih _)

/-- The digits at the head of a text are taken while a word holds what they make. -/
theorem takeDigits_append {ds : List Char} (hd : ∀ c ∈ ds, c.isDigit = true) {rest : List Char}
    (hr : Follows rest) {n : Nat} (hn : Nat.ofDigitChars 10 ds n ≤ wordMax) (count : Nat) :
    takeDigits n count (ds ++ rest) = (Nat.ofDigitChars 10 ds n, count + ds.length, rest) := by
  induction ds generalizing n count with
  | nil =>
    cases rest with
    | nil => rfl
    | cons c rest => rw [List.nil_append, takeDigits, if_neg (by simp [hr.not_isDigit])]; rfl
  | cons d ds ih =>
    obtain ⟨hdigit, hds⟩ := List.forall_mem_cons.mp hd
    rw [Nat.ofDigitChars_cons] at hn ⊢
    have hle := le_ofDigitChars ds (10 * n + (d.toNat - '0'.toNat))
    have hv : n * 10 + digitValue d = 10 * n + (d.toNat - '0'.toNat) := by
      rw [Nat.mul_comm]
      rfl
    rw [List.cons_append, takeDigits, if_pos ⟨hdigit, by omega⟩, hv, ih hds hn, List.length_cons]
    simp only [Nat.add_assoc, Nat.add_comm 1]

/-- After a value there is neither a point nor an exponent, so the number is an integer. -/
theorem readFraction_follows {rest : List Char} (h : Follows rest) (negative : Bool) (n : Nat) :
    readFraction negative n rest = integer negative n rest := by
  cases rest with
  | nil => rfl
  | cons c rest => rcases h c rfl with rfl | rfl | rfl <;> rfl

/-- A number is written with one digit at least. -/
theorem natChars_cons (n : Nat) : ∃ c cs, natChars n = c :: cs ∧ c.isDigit = true := by
  obtain ⟨c, cs, hcs⟩ := List.exists_cons_of_ne_nil (Nat.toDigits_ne_nil (n := n) (b := 10))
  have hc : c ∈ Nat.toDigits 10 n := hcs ▸ List.mem_cons_self
  exact ⟨c, cs, hcs, Nat.isDigit_of_mem_toDigits (by decide) (by decide) hc⟩

/-- Only zero is written with a zero in front. -/
theorem toDigits_head {n : Nat} {c : Char} {cs : List Char} (h : Nat.toDigits 10 n = c :: cs)
    (hn : n ≠ 0) : c ≠ '0' := by
  induction n using Nat.strongRecOn generalizing cs with
  | ind n ih =>
    rcases Nat.lt_or_ge n 10 with hlt | hge
    · rw [Nat.toDigits_of_lt_base hlt] at h
      cases h
      exact fun hc => hn (Nat.digitChar_eq_zero.mp hc)
    · rw [Nat.toDigits_of_base_le (by decide) hge] at h
      obtain ⟨d, ds, hds⟩ :=
        List.exists_cons_of_ne_nil (Nat.toDigits_ne_nil (n := n / 10) (b := 10))
      rw [hds] at h
      cases h
      exact ih (n / 10) (by omega) hds (by omega)

/-- A number without its sign is read as it is written. -/
theorem readNumber_natChars {n : Nat} (hn : n ≤ wordMax) {rest : List Char} (hr : Follows rest)
    (negative : Bool) : readNumber negative (natChars n ++ rest) = integer negative n rest := by
  -- Zero is read on a branch of its own, where no digit may follow.
  by_cases hz : n = 0
  · subst hz
    rw [← readFraction_follows hr]
    cases rest with
    | nil => rfl
    | cons c rest =>
      show readNumber negative ('0' :: c :: rest) = _
      simp only [readNumber, if_pos, hr.not_isDigit]
      rfl
  -- The first digit is read apart from the others; together they have the value `n`.
  · obtain ⟨c, cs, hcs⟩ := List.exists_cons_of_ne_nil (Nat.toDigits_ne_nil (n := n) (b := 10))
    have hdigits : ∀ d ∈ c :: cs, d.isDigit = true := fun d hd =>
      Nat.isDigit_of_mem_toDigits (by decide) (by decide) (hcs ▸ hd)
    obtain ⟨hc, hds⟩ := List.forall_mem_cons.mp hdigits
    have hvalue : Nat.ofDigitChars 10 cs (digitValue c) = n := by
      have := Nat.ofDigitChars_ten_toDigits (n := n)
      rw [hcs, Nat.ofDigitChars_cons, Nat.mul_zero, Nat.zero_add] at this
      exact this
    have hnone : (spanDigits rest).1 = [] := by
      cases rest with
      | nil => rfl
      | cons d rest => simp [spanDigits, List.span_eq_takeWhile_dropWhile, hr.not_isDigit]
    rw [natChars, hcs, List.cons_append]
    simp only [readNumber, if_neg (toDigits_head hcs hz), if_pos hc,
      takeDigits_append hds hr (hvalue ▸ hn), hvalue, hnone]
    exact readFraction_follows hr negative n

/-- The least integer that 64 bits hold as a signed number. -/
def intMin : Int := -9223372036854775808

/-- The digits of a negative number of 64 bits are read as that number. -/
theorem integer_neg {n : Int} (hn : n < 0) (hmin : intMin ≤ n) (rest : List Char) :
    integer true n.natAbs rest = .ok (.int n, rest) := by
  have hmin : -9223372036854775808 ≤ n := hmin
  rw [integer, if_neg (by decide), if_neg (by omega), Int.ofNat_natAbs_of_nonpos (by omega),
    Int.neg_neg]

theorem integer_nonneg {n : Int} (hn : 0 ≤ n) (rest : List Char) :
    integer false n.natAbs rest = .ok (.int n, rest) := by
  rw [integer, if_pos (by decide), Int.natAbs_of_nonneg hn]

end BrokerClient.Json
