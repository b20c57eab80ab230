import TensorFiles.Json.Quoted
/-!
This module contains the round trip of texts through the quoted strings of JSON.
-/

namespace TensorFiles.Json

theorem shortEscape?_eq_some {c e : Char} (h : shortEscape? c = some e)
    : e ≠ 'u' ∧ ofShortEscape? e = some c := by
  have hall : ∀ p ∈ shortEscapes, p.1 ≠ 'u' ∧ ofShortEscape? p.1 = some p.2 := by decide
  obtain ⟨p, hp, rfl⟩ := Option.map_eq_some_iff.1 h
  have hc := List.find?_some hp
  rw [beq_iff_eq] at hc
  rw [← hc]
  exact hall p (List.mem_of_find?_eq_some hp)

theorem ne_of_shortEscape?_eq_none {c : Char} (h : shortEscape? c = none) : c ≠ '"' ∧ c ≠ '\\' := by
  constructor
  . rintro rfl
    simp [shortEscape?, shortEscapes] at h
  . rintro rfl
    simp [shortEscape?, shortEscapes] at h

/--
The two digits of a control character give its code point.
-/
theorem unit?_digits {c : Char} (h : c < ' ')
    : unit? '0' '0' (Nat.digitChar (c.toNat / 16)) (Nat.digitChar (c.toNat % 16)) = some c.toNat := by
  have hall : ∀ n < 32, unit? '0' '0' (Nat.digitChar (n / 16)) (Nat.digitChar (n % 16)) = some n := by
    decide
  exact hall c.toNat h

theorem unquote_escapeChar (c : Char) (rest : List Char)
    : unquote (escapeChar c ++ rest) = push c (unquote rest) := by
  unfold escapeChar
  split
  . next e he =>
    obtain ⟨hu, hof⟩ := shortEscape?_eq_some he
    rw [List.cons_append, List.cons_append, List.nil_append, unquote.eq_def]
    dsimp only
    rw [if_neg (by decide), if_pos rfl]
    split
    . next heq =>
      rw [List.cons.injEq] at heq
      exact absurd heq.1 hu
    . next heq =>
      rw [List.cons.injEq] at heq
      obtain ⟨rfl, rfl⟩ := heq
      rw [hof]
    . next heq => cases heq
  . next hnone =>
    obtain ⟨hquote, hslash⟩ := ne_of_shortEscape?_eq_none hnone
    split
    . next hcontrol =>
      have hunit := unit?_digits hcontrol
      have hsmall : c.toNat < 32 := hcontrol
      simp only [List.cons_append, List.nil_append]
      rw [unquote.eq_def]
      dsimp only
      rw [if_neg (by decide), if_pos rfl]
      simp only [hunit]
      rw [if_neg (by omega), if_neg (by omega), Char.ofNat_toNat]
    . next hplain =>
      rw [List.cons_append, List.nil_append, unquote.eq_def]
      dsimp only
      rw [if_neg hquote, if_neg hslash, if_neg hplain]

/--
A quoted text is read back from behind its opening quote, whatever follows it.
-/
theorem unquote_flatMap (cs rest : List Char)
    : unquote (cs.flatMap escapeChar ++ '"' :: rest) = some (cs, rest) := by
  induction cs with
  | nil =>
    rw [List.flatMap_nil, List.nil_append, unquote.eq_def]
    rfl
  | cons c cs ih =>
    rw [List.flatMap_cons, List.append_assoc, unquote_escapeChar, ih]
    rfl

end TensorFiles.Json
