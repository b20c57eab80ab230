import Mathlib.Data.List.Basic
import TensorFiles.Proofs.Text.Numeral
import TensorFiles.Text.Blank
import TensorFiles.Text.Split
/-!
This module contains the taking apart of texts that have been put together: trimming, the pieces
between separators, and what numerals are not mistaken for.
-/

namespace TensorFiles.Text

/--
No blank character is at either end.
-/
structure Trimmed (cs : List Char) : Prop where
  head : ∀ c ∈ cs.head?, isBlank c = false
  last : ∀ c ∈ cs.getLast?, isBlank c = false

theorem trimmed_of_ends {first last : Char} {cs : List Char} (hfirst : isBlank first = false)
    (hlast : isBlank last = false) : Trimmed (first :: cs ++ [last]) := by
  constructor
  . simpa using hfirst
  . rw [List.getLast?_concat]
    simpa using hlast

section

variable {p : Char → Bool}

theorem dropWhile_append_of_head {front cs : List Char} (hfront : ∀ c ∈ front, p c = true)
    (hhead : ∀ c ∈ cs.head?, p c = false) : (front ++ cs).dropWhile p = cs := by
  rw [List.dropWhile_append_of_pos hfront]
  cases cs with
  | nil => rfl
  | cons c cs => rw [List.dropWhile_cons, hhead c rfl, if_neg (by decide)]

theorem reverse_dropWhile_append {cs back : List Char} (hback : ∀ c ∈ back, p c = true)
    (hlast : ∀ c ∈ cs.getLast?, p c = false) : ((cs ++ back).reverse.dropWhile p).reverse = cs := by
  rw [List.reverse_append, dropWhile_append_of_head, List.reverse_reverse]
  . intro c hc
    exact hback c (List.mem_reverse.1 hc)
  . rw [List.head?_reverse]
    exact hlast

end

theorem trimStart_append {front cs : List Char} (hfront : ∀ c ∈ front, isBlank c = true)
    (hhead : ∀ c ∈ cs.head?, isBlank c = false) : trimStart (front ++ cs) = cs :=
  dropWhile_append_of_head hfront hhead

theorem trimEnd_append {cs back : List Char} (hback : ∀ c ∈ back, isBlank c = true)
    (hlast : ∀ c ∈ cs.getLast?, isBlank c = false) : trimEnd (cs ++ back) = cs :=
  reverse_dropWhile_append hback hlast

/--
Blanks around a text that has none at its ends are taken off.
-/
theorem Trimmed.trim_between {front cs back : List Char} (h : Trimmed cs) (hne : cs ≠ [])
    (hfront : ∀ c ∈ front, isBlank c = true) (hback : ∀ c ∈ back, isBlank c = true)
    : trim (front ++ (cs ++ back)) = cs := by
  have hhead : ∀ c ∈ (cs ++ back).head?, isBlank c = false := by
    rw [List.head?_append_of_ne_nil cs hne]
    exact h.head
  unfold trim
  rw [trimStart_append hfront hhead, trimEnd_append hback h.last]

theorem Trimmed.trim_append {cs : List Char} (h : Trimmed cs) (hne : cs ≠ []) {back : List Char}
    (hback : ∀ c ∈ back, isBlank c = true) : trim (cs ++ back) = cs :=
  h.trim_between hne (List.forall_mem_nil _) hback

theorem trim_of_isBlank {cs : List Char} (h : ∀ c ∈ cs, isBlank c = true) : trim cs = [] := by
  have hstart : trimStart (cs ++ []) = [] := trimStart_append h (by simp)
  rw [List.append_nil] at hstart
  unfold trim
  rw [hstart]
  rfl

theorem dropEnd?_eq_some_iff {ending cs rest : List Char}
    : dropEnd? ending cs = some rest ↔ cs = rest ++ ending := by
  unfold dropEnd?
  rw [Option.map_eq_some_iff]
  constructor
  . rintro ⟨back, hback, rfl⟩
    rw [dropStart?_eq_some_iff] at hback
    rw [← List.reverse_reverse ending, ← List.reverse_append, ← hback, List.reverse_reverse]
  . rintro rfl
    refine ⟨rest.reverse, ?_, List.reverse_reverse rest⟩
    rw [dropStart?_eq_some_iff, List.reverse_append]

theorem after?_append_self (pattern rest : List Char)
    : after? pattern (pattern ++ rest) = some rest := by
  unfold after?
  rw [dropStart?_eq_some_iff.2 rfl]

theorem after?_cons_of_dropStart? {pattern cs : List Char} {c : Char}
    (h : dropStart? pattern (c :: cs) = none) : after? pattern (c :: cs) = after? pattern cs := by
  rw [after?, h]

/--
A pattern is not found where its first character is missing.
-/
theorem after?_append_of_not_mem {first : Char} {more front : List Char} (h : first ∉ front)
    (rest : List Char) : after? (first :: more) (front ++ rest) = after? (first :: more) rest := by
  induction front with
  | nil => rfl
  | cons c front ih =>
    rw [List.mem_cons, not_or] at h
    have hnone : dropStart? (first :: more) (c :: (front ++ rest)) = none := by
      rw [dropStart?, if_neg h.1]
    rw [List.cons_append, after?_cons_of_dropStart? hnone, ih h.2]

/--
A text that is the same has the same first mark, behind the same beginning.
-/
theorem eq_of_append_cons {isMark : Char → Bool} {front front' rest rest' : List Char} {c d : Char}
    (hfront : ∀ x ∈ front, isMark x = false) (hfront' : ∀ x ∈ front', isMark x = false)
    (hc : isMark c = true) (hd : isMark d = true) (h : front ++ c :: rest = front' ++ d :: rest')
    : front = front' ∧ c = d := by
  have hsplit {front : List Char} {c : Char} (hfront : ∀ x ∈ front, isMark x = false)
      (hc : isMark c = true) (rest : List Char)
      : (front ++ c :: rest).takeWhile (!isMark ·) = front ∧
          (front ++ c :: rest).dropWhile (!isMark ·) = c :: rest := by
    have hpos : ∀ x ∈ front, (!isMark x) = true := fun x hx => by rw [hfront x hx]; rfl
    rw [List.takeWhile_append_of_pos hpos, List.dropWhile_append_of_pos hpos]
    simp [hc]
  obtain ⟨htake, hdrop⟩ := hsplit hfront hc rest
  obtain ⟨htake', hdrop'⟩ := hsplit hfront' hd rest'
  rw [h, htake'] at htake
  rw [h, hdrop', List.cons.injEq] at hdrop
  exact ⟨htake.symm, hdrop.1.symm⟩

theorem splitOn_ne_nil (sep : Char) (cs : List Char) : splitOn sep cs ≠ [] := by
  cases cs with
  | nil => simp [splitOn]
  | cons c cs =>
    unfold splitOn
    split
    . simp
    . split
      . simp
      . simp

theorem splitOn_append_sep (sep : Char) (front rest : List Char)
    : splitOn sep (front ++ sep :: rest) = splitOn sep front ++ splitOn sep rest := by
  induction front with
  | nil => simp [splitOn]
  | cons c front ih =>
    rw [List.cons_append]
    by_cases hc : c = sep
    . simp [splitOn, hc, ih]
    . obtain ⟨piece, pieces, hfront⟩ := List.exists_cons_of_ne_nil (splitOn_ne_nil sep front)
      simp [splitOn, hc, ih, hfront]

/--
Every text has a last piece.
-/
theorem not_mem_or_exists_last (sep : Char) (cs : List Char)
    : sep ∉ cs ∨ ∃ front last, sep ∉ last ∧ cs = front ++ sep :: last := by
  by_cases hsep : sep ∈ cs
  . obtain ⟨back, rest, hcs, hback⟩ := List.eq_append_cons_of_mem (List.mem_reverse.2 hsep)
    refine .inr ⟨rest.reverse, back.reverse, fun h => hback (List.mem_reverse.1 h), ?_⟩
    rw [← List.reverse_reverse cs, hcs]
    simp
  . exact .inl hsep

/--
Pieces that are joined with a separator are got back.
-/
theorem splitOn_intercalate {sep : Char} {piece : List Char} {pieces : List (List Char)}
    (h : ∀ p ∈ piece :: pieces, sep ∉ p)
    : splitOn sep ([sep].intercalate (piece :: pieces)) = piece :: pieces := by
  induction pieces generalizing piece with
  | nil =>
    rw [List.intercalate_singleton]
    exact splitOn_of_not_mem (h piece List.mem_cons_self)
  | cons next pieces ih =>
    rw [List.forall_mem_cons] at h
    rw [List.intercalate_cons_cons, List.append_assoc, List.singleton_append,
      splitOn_append_cons h.1, ih h.2]

/--
What follows each separator can be taken as the beginning of the next piece.
-/
theorem intercalate_append (sep more piece : List Char) (pieces : List (List Char))
    : (sep ++ more).intercalate (piece :: pieces)
        = sep.intercalate (piece :: pieces.map (more ++ ·)) := by
  induction pieces generalizing piece with
  | nil => simp
  | cons next pieces ih =>
    rw [List.intercalate_cons_cons, ih, List.map_cons, List.intercalate_cons_cons]
    cases pieces with
    | nil => simp
    | cons next' pieces => simp [List.intercalate_cons_cons]

/--
Each of the pieces in front has a separator behind it.
-/
theorem intercalate_append_cons (sep : List Char) (front : List (List Char)) (piece : List Char)
    (back : List (List Char))
    : sep.intercalate (front ++ piece :: back)
        = front.flatMap (· ++ sep) ++ sep.intercalate (piece :: back) := by
  induction front with
  | nil => rfl
  | cons first front ih =>
    obtain ⟨next, rest, hnext⟩ := List.exists_cons_of_ne_nil
      (List.append_ne_nil_of_right_ne_nil front (List.cons_ne_nil piece back))
    rw [List.cons_append, hnext, List.intercalate_cons_cons, ← hnext, ih, List.flatMap_cons,
      List.append_assoc (first ++ sep)]

theorem mem_intercalate {sep : List Char} {pieces : List (List Char)} {c : Char}
    (h : c ∈ sep.intercalate pieces) : c ∈ sep ∨ ∃ p ∈ pieces, c ∈ p := by
  induction pieces with
  | nil => simp at h
  | cons piece pieces ih =>
    cases pieces with
    | nil =>
      rw [List.intercalate_singleton] at h
      exact .inr ⟨piece, List.mem_cons_self, h⟩
    | cons next pieces =>
      rw [List.intercalate_cons_cons, List.mem_append, List.mem_append] at h
      rcases h with (h | h) | h
      . exact .inr ⟨piece, List.mem_cons_self, h⟩
      . exact .inl h
      . cases ih h with
        | inl h => exact .inl h
        | inr h =>
          obtain ⟨p, hp, hc⟩ := h
          exact .inr ⟨p, List.mem_cons_of_mem _ hp, hc⟩

theorem length_intercalate_le {sep : List Char} {pieces : List (List Char)} {size : Nat}
    (h : ∀ p ∈ pieces, p.length ≤ size)
    : (sep.intercalate pieces).length ≤ pieces.length * (size + sep.length) := by
  induction pieces with
  | nil => simp
  | cons piece pieces ih =>
    rw [List.forall_mem_cons] at h
    have hrest := ih h.2
    cases pieces with
    | nil =>
      rw [List.intercalate_singleton, List.length_singleton, Nat.one_mul]
      exact Nat.le_add_right_of_le h.1
    | cons next pieces =>
      rw [List.intercalate_cons_cons, List.length_append, List.length_append,
        List.length_cons (a := piece), Nat.succ_mul]
      omega

theorem le_length_intercalate {sep : List Char} {pieces : List (List Char)} {size : Nat}
    (h : ∀ p ∈ pieces, size ≤ p.length)
    : pieces.length * (size + sep.length) ≤ (sep.intercalate pieces).length + sep.length := by
  induction pieces with
  | nil => simp
  | cons piece pieces ih =>
    rw [List.forall_mem_cons] at h
    have hrest := ih h.2
    cases pieces with
    | nil =>
      rw [List.intercalate_singleton, List.length_singleton, Nat.one_mul]
      exact Nat.add_le_add_right h.1 _
    | cons next pieces =>
      rw [List.intercalate_cons_cons, List.length_append, List.length_append,
        List.length_cons (a := piece), Nat.succ_mul]
      omega

/--
What is left of a text that is trimmed is a piece of it.
-/
theorem isInfix_trim (cs : List Char) : trim cs <:+: cs := by
  have hend : trimEnd (trimStart cs) <+: trimStart cs := by
    rw [← List.reverse_suffix]
    unfold trimEnd
    rw [List.reverse_reverse]
    exact List.dropWhile_suffix _
  exact hend.isInfix.trans (List.dropWhile_suffix _).isInfix

theorem isSuffix_of_after? {pattern cs rest : List Char} (h : after? pattern cs = some rest)
    : rest <:+ cs := by
  induction cs with
  | nil =>
    unfold after? at h
    split at h
    . next rest' hrest =>
      rw [Option.some.injEq] at h
      rw [dropStart?_eq_some_iff] at hrest
      exact ⟨pattern, h ▸ hrest.symm⟩
    . simp at h
  | cons c cs ih =>
    unfold after? at h
    split at h
    . next rest' hrest =>
      rw [Option.some.injEq] at h
      rw [dropStart?_eq_some_iff] at hrest
      exact ⟨pattern, h ▸ hrest.symm⟩
    . exact (ih h).trans (List.suffix_cons c cs)

theorem isBlank_of_isDigit {c : Char} (h : isDigit c = true) : isBlank c = false := by
  unfold isDigit at h
  rw [Bool.and_eq_true, decide_eq_true_eq, decide_eq_true_eq] at h
  have hlow : 48 ≤ c.toNat := h.1
  have hhigh : c.toNat ≤ 57 := h.2
  unfold isBlank blankRanges
  simp only [List.any_cons, List.any_nil, Bool.or_eq_false_iff, Bool.and_eq_false_iff,
    decide_eq_false_iff_not, and_true]
  omega

theorem trimmed_encode (n : Nat) : Trimmed (Numeral.encode n) := by
  constructor
  . intro c hc
    exact isBlank_of_isDigit (Numeral.isDigit_of_mem_encode (List.mem_of_mem_head? hc))
  . intro c hc
    exact isBlank_of_isDigit (Numeral.isDigit_of_mem_encode (List.mem_of_mem_getLast? hc))

theorem not_mem_encode {n : Nat} {c : Char} (h : isDigit c = false) : c ∉ Numeral.encode n := by
  intro hc
  rw [Numeral.isDigit_of_mem_encode hc] at h
  simp at h

end TensorFiles.Text
