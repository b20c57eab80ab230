import TensorFiles.Json.Number
import TensorFiles.Json.Printer
import TensorFiles.Proofs.Text.Numeral
/-!
This module contains the reading of the numerals of integers as JSON numbers.
-/

namespace TensorFiles.Json

/--
A text that does not go on with a number that ends in front of it.
-/
structure EndsNumber (rest : List Char) : Prop where
  digit : ∀ c ∈ rest.head?, Text.isDigit c = false
  mark : ∀ c ∈ rest.head?, c ≠ '.' ∧ c ≠ 'e' ∧ c ≠ 'E'

namespace Number

variable {rest : List Char}

theorem digits?_encode (n : Nat) (h : EndsNumber rest)
    : Text.digits? (Numeral.encode n ++ rest) = some (Numeral.encode n, rest) := by
  have hall : ∀ c ∈ Numeral.encode n, Text.isDigit c = true :=
    fun _ => Numeral.isDigit_of_mem_encode
  have htake : rest.takeWhile Text.isDigit = [] := by
    cases rest with
    | nil => rfl
    | cons c rest => rw [List.takeWhile_cons, h.digit c rfl, if_neg (by decide)]
  have hdrop : rest.dropWhile Text.isDigit = rest := by
    cases rest with
    | nil => rfl
    | cons c rest => rw [List.dropWhile_cons, h.digit c rfl, if_neg (by decide)]
  unfold Text.digits?
  rw [List.takeWhile_append_of_pos hall, List.dropWhile_append_of_pos hall, htake, hdrop,
    List.append_nil]
  split
  . next heq => exact absurd heq (Numeral.encode_ne_nil n)
  . rfl

theorem whole?_encode (n : Nat) (h : EndsNumber rest)
    : whole? (Numeral.encode n ++ rest) = some (Numeral.encode n, rest) := by
  unfold whole?
  rw [digits?_encode n h]
  split
  . next heq =>
    -- only zero has a zero in front, and no other digit
    rw [Option.some.injEq, Prod.mk.injEq] at heq
    cases Nat.eq_zero_or_pos n with
    | inl hzero =>
      subst hzero
      have hshort : (Numeral.encode 0).length ≤ 1 :=
        Numeral.length_encode_le (by decide) (by decide)
      rw [heq.1] at hshort
      simp at hshort
    | inr hpos =>
      have hhead := Numeral.head?_encode_ne_zero hpos
      rw [heq.1] at hhead
      exact absurd rfl hhead
  . rfl

theorem fraction?_of_ends (h : EndsNumber rest) : fraction? rest = some ([], rest) := by
  unfold fraction?
  split
  . next cs => exact absurd rfl (h.mark '.' rfl).1
  . rfl

theorem exponent?_of_ends (h : EndsNumber rest) : exponent? rest = some (none, rest) := by
  cases rest with
  | nil => rfl
  | cons c cs =>
    obtain ⟨_, he, he'⟩ := h.mark c rfl
    have hmark : ¬ (c = 'e' ∨ c = 'E') := not_or.2 ⟨he, he'⟩
    unfold exponent?
    dsimp only
    rw [if_neg hmark]

theorem unsigned?_encode {negative : Bool} {n : Nat} {json : Json}
    (hdigits : ofDigits? negative (Numeral.encode n) = some json) (h : EndsNumber rest)
    : unsigned? negative (Numeral.encode n ++ rest) = some (json, rest) := by
  unfold unsigned?
  simp only [whole?_encode n h, fraction?_of_ends h, exponent?_of_ends h, hdigits, bind,
    Option.bind]
  rfl

theorem ofDigits?_encode {n : Nat} (h : n < wordBound)
    : ofDigits? false (Numeral.encode n) = some (.int n) := by
  unfold ofDigits?
  dsimp only
  rw [Numeral.ofDigits_encode, if_pos (by simpa using h)]

theorem ofDigits?_encode_of_negative {n : Nat} (hpos : 0 < n) (h : n ≤ wordBound / 2)
    : ofDigits? true (Numeral.encode n) = some (.int (-n)) := by
  unfold ofDigits?
  dsimp only
  rw [Numeral.ofDigits_encode, if_neg (by simp), if_pos (by simp [hpos, h])]

end Number

/--
An integer that fits a machine word, with or without a sign, is read back.
-/
theorem number?_printInt {n : Int} (hlow : -(wordBound / 2 : Nat) ≤ n) (hhigh : n < wordBound)
    {rest : List Char} (h : EndsNumber rest)
    : number? (printInt n ++ rest) = some (.int n, rest) := by
  cases n with
  | ofNat n =>
    have hread := Number.unsigned?_encode (Number.ofDigits?_encode (Int.ofNat_lt.1 hhigh)) h
    have hall : ∀ c ∈ Numeral.encode n, Text.isDigit c = true :=
      fun _ => Numeral.isDigit_of_mem_encode
    rw [Int.ofNat_eq_natCast, ← hread]
    unfold printInt number?
    split
    . next heq =>
      cases hcs : Numeral.encode n with
      | nil => exact absurd hcs (Numeral.encode_ne_nil n)
      | cons c cs =>
        dsimp only at heq
        rw [hcs, List.cons_append, List.cons.injEq] at heq
        rw [hcs, heq.1] at hall
        exact absurd (hall '-' List.mem_cons_self) (by decide)
    . rfl
  | negSucc n =>
    have hsmall : n + 1 ≤ wordBound / 2 := by omega
    exact Number.unsigned?_encode (Number.ofDigits?_encode_of_negative (Nat.succ_pos n) hsmall) h

end TensorFiles.Json
