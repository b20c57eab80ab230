import TensorFiles.Json.Parser
import TensorFiles.Json.Printer
import TensorFiles.Proofs.Text.Pieces
/-!
This module contains bounds on what is read from JSON texts and on what is written to them: an integer
that is read fits a machine word, and arrays and objects have no more elements than their texts have
characters.
-/

namespace TensorFiles.Json

/--
Values whose integers fit a machine word and whose arrays and objects have no more than `room`
elements.
-/
inductive Within (room : Nat) : Json → Prop where
  | null : Within room .null
  | bool (b : Bool) : Within room (.bool b)
  | int {n : Int} (h : n < wordBound) : Within room (.int n)
  | float (bits : Nat) : Within room (.float bits)
  | string (s : String) : Within room (.string s)
  | array {es : List Json} (hlength : es.length ≤ room) (h : ∀ e ∈ es, Within room e)
    : Within room (.array es)
  | object {fs : List (String × Json)} (hlength : fs.length ≤ room) (h : ∀ f ∈ fs, Within room f.2)
    : Within room (.object fs)

variable {room : Nat} {cs rest : List Char} {json : Json}

theorem length_skipBlanks_le (cs : List Char) : (skipBlanks cs).length ≤ cs.length :=
  (List.dropWhile_suffix _).length_le

theorem exists_of_push {c : Char} {r : Option (List Char × List Char)} {s : List Char}
    (h : push c r = some (s, rest)) : ∃ s', r = some (s', rest) := by
  unfold push at h
  rw [Option.map_eq_some_iff] at h
  obtain ⟨⟨s', rest'⟩, hr, h⟩ := h
  cases h
  exact ⟨s', hr⟩

theorem length_unquote_le {s : List Char} (h : unquote cs = some (s, rest))
    : rest.length ≤ cs.length := by
  fun_induction unquote cs generalizing s with
  | case2 _ =>
    cases h
    exact Nat.le_succ _
  | case5 _ _ _ _ _ _ _ _ _ _ _ _ _ _ _ _ ih =>
    obtain ⟨s', hr⟩ := exists_of_push h
    have := ih hr
    simp only [List.length_cons]
    omega
  | case9 _ _ _ _ _ _ _ _ _ _ ih =>
    obtain ⟨s', hr⟩ := exists_of_push h
    have := ih hr
    simp only [List.length_cons]
    omega
  | case10 _ _ _ _ _ _ ih =>
    obtain ⟨s', hr⟩ := exists_of_push h
    have := ih hr
    simp only [List.length_cons]
    omega
  | case14 _ _ _ _ _ ih =>
    obtain ⟨s', hr⟩ := exists_of_push h
    exact Nat.le_succ_of_le (ih hr)
  | _ => simp at h

theorem word?_bounds (h : word? cs = some (json, rest))
    : rest.length ≤ cs.length ∧ json.Within room := by
  unfold word? at h
  obtain ⟨⟨word, value⟩, hword, h⟩ := List.exists_of_findSome?_eq_some h
  rw [Option.map_eq_some_iff] at h
  obtain ⟨rest', hrest, h⟩ := h
  cases h
  rw [Text.dropStart?_eq_some_iff] at hrest
  rw [hrest, List.length_append]
  refine ⟨Nat.le_add_left _ _, ?_⟩
  simp only [words, List.mem_cons, List.not_mem_nil, or_false, Prod.mk.injEq] at hword
  rcases hword with ⟨_, rfl⟩ | ⟨_, rfl⟩ | ⟨_, rfl⟩
  . exact .null
  . exact .bool true
  . exact .bool false

namespace Number

theorem length_digits?_le {digits : List Char} (h : Text.digits? cs = some (digits, rest))
    : rest.length ≤ cs.length := by
  unfold Text.digits? at h
  split at h
  . simp at h
  . cases h
    exact (List.dropWhile_suffix _).length_le

theorem length_whole?_le {whole : List Char} (h : whole? cs = some (whole, rest))
    : rest.length ≤ cs.length := by
  unfold whole? at h
  split at h
  . simp at h
  . exact length_digits?_le h

theorem length_fraction?_le {fraction : List Char} (h : fraction? cs = some (fraction, rest))
    : rest.length ≤ cs.length := by
  unfold fraction? at h
  split at h
  . exact Nat.le_succ_of_le (length_digits?_le h)
  . cases h
    exact Nat.le_refl _

theorem length_exponent?_le {exponent : Option Int} (h : exponent? cs = some (exponent, rest))
    : rest.length ≤ cs.length := by
  unfold exponent? at h
  split at h
  . next c cs =>
    split at h
    . rw [Option.map_eq_some_iff] at h
      obtain ⟨⟨digits, rest'⟩, hdigits, h⟩ := h
      cases h
      have hle := length_digits?_le hdigits
      -- the sign of the exponent may be there or not
      split at hle <;> simp only [List.length_cons] at hle ⊢ <;> omega
    . cases h
      exact Nat.le_refl _
  . cases h
    exact Nat.le_refl _

theorem within_ofDecimal? {negative : Bool} {d : Decimal} (h : ofDecimal? negative d = some json)
    : json.Within room := by
  unfold ofDecimal? at h
  rw [Option.map_eq_some_iff] at h
  obtain ⟨bits, _, rfl⟩ := h
  exact .float _

theorem within_ofDigits? {negative : Bool} {digits : List Char}
    (h : ofDigits? negative digits = some json) : json.Within room := by
  unfold ofDigits? at h
  dsimp only at h
  split at h
  . next hsmall =>
    cases h
    simp only [Bool.and_eq_true, decide_eq_true_eq] at hsmall
    exact .int (Int.ofNat_lt.2 hsmall.2)
  . split at h
    . cases h
      apply Within.int
      unfold wordBound
      omega
    . exact within_ofDecimal? h

theorem unsigned?_bounds {negative : Bool} (h : unsigned? negative cs = some (json, rest))
    : rest.length ≤ cs.length ∧ json.Within room := by
  unfold unsigned? at h
  simp only [Option.bind_eq_bind, Option.bind_eq_some_iff] at h
  obtain ⟨⟨whole, cs₁⟩, hwhole, ⟨fraction, cs₂⟩, hfraction, ⟨exponent, cs₃⟩, hexponent, h⟩ := h
  have hle : cs₃.length ≤ cs.length :=
    Nat.le_trans (length_exponent?_le hexponent)
      (Nat.le_trans (length_fraction?_le hfraction) (length_whole?_le hwhole))
  dsimp only at h
  split at h
  . rw [Option.bind_eq_some_iff] at h
    obtain ⟨value, hvalue, h⟩ := h
    cases h
    exact ⟨hle, within_ofDigits? hvalue⟩
  . rw [Option.bind_eq_some_iff] at h
    obtain ⟨value, hvalue, h⟩ := h
    cases h
    exact ⟨hle, within_ofDecimal? hvalue⟩

end Number

theorem number?_bounds (h : number? cs = some (json, rest))
    : rest.length ≤ cs.length ∧ json.Within room := by
  unfold number? at h
  split at h
  . obtain ⟨hle, hwithin⟩ := Number.unsigned?_bounds h
    exact ⟨Nat.le_succ_of_le hle, hwithin⟩
  . exact Number.unsigned?_bounds h

/--
What is read with some fuel from a text of at most `room` characters is within that room.
-/
structure Bounded (room fuel : Nat) : Prop where
  value : ∀ depth cs json rest, cs.length ≤ room → value? fuel depth cs = some (json, rest) →
    rest.length ≤ cs.length ∧ json.Within room
  elements : ∀ depth cs es rest, cs.length ≤ room → elements? fuel depth cs = some (es, rest) →
    es.length + rest.length ≤ cs.length ∧ ∀ e ∈ es, e.Within room
  fields : ∀ depth cs fs rest, cs.length ≤ room → fields? fuel depth cs = some (fs, rest) →
    fs.length + rest.length ≤ cs.length ∧ ∀ f ∈ fs, f.2.Within room

variable {fuel depth : Nat}

theorem bounded_zero (room : Nat) : Bounded room 0 :=
  ⟨by simp [value?], by simp [elements?], by simp [fields?]⟩

/--
Behind a blank and a first character there is less room than before.
-/
theorem length_lt_of_skipBlanks {c : Char} (h : skipBlanks cs = c :: rest)
    : rest.length < cs.length := by
  have hle := length_skipBlanks_le cs
  rw [h, List.length_cons] at hle
  exact hle

theorem Bounded.value_succ (h : Bounded room fuel) (hroom : cs.length ≤ room)
    (hvalue : value? (fuel + 1) depth cs = some (json, rest))
    : rest.length ≤ cs.length ∧ json.Within room := by
  unfold value? at hvalue
  split at hvalue
  . next text hcs =>
    rw [Option.map_eq_some_iff] at hvalue
    obtain ⟨⟨s, rest'⟩, hs, hvalue⟩ := hvalue
    cases hvalue
    have := length_unquote_le hs
    have := length_lt_of_skipBlanks hcs
    exact ⟨by omega, .string _⟩
  . next text hcs =>
    have hlt := length_lt_of_skipBlanks hcs
    split at hvalue
    . simp at hvalue
    . next depth =>
      split at hvalue
      . next after hafter =>
        cases hvalue
        have := length_lt_of_skipBlanks hafter
        exact ⟨by omega, .array (Nat.zero_le _) (by simp)⟩
      . rw [Option.map_eq_some_iff] at hvalue
        obtain ⟨⟨es, rest'⟩, hes, hvalue⟩ := hvalue
        cases hvalue
        have hle := length_skipBlanks_le text
        obtain ⟨hlength, hall⟩ := h.elements depth _ es rest (by omega) hes
        exact ⟨by omega, .array (by omega) hall⟩
  . next text hcs =>
    have hlt := length_lt_of_skipBlanks hcs
    split at hvalue
    . simp at hvalue
    . next depth =>
      split at hvalue
      . next after hafter =>
        cases hvalue
        have := length_lt_of_skipBlanks hafter
        exact ⟨by omega, .object (Nat.zero_le _) (by simp)⟩
      . rw [Option.map_eq_some_iff] at hvalue
        obtain ⟨⟨fs, rest'⟩, hfs, hvalue⟩ := hvalue
        cases hvalue
        have hle := length_skipBlanks_le text
        obtain ⟨hlength, hall⟩ := h.fields depth _ fs rest (by omega) hfs
        exact ⟨by omega, .object (by omega) hall⟩
  . have hle := length_skipBlanks_le cs
    split at hvalue
    . next r hword =>
      rw [Option.some.injEq] at hvalue
      obtain ⟨hlength, hwithin⟩ := word?_bounds (hvalue ▸ hword)
      exact ⟨by omega, hwithin⟩
    . obtain ⟨hlength, hwithin⟩ := number?_bounds hvalue
      exact ⟨by omega, hwithin⟩

theorem Bounded.elements_succ (h : Bounded room fuel) {es : List Json} (hroom : cs.length ≤ room)
    (helements : elements? (fuel + 1) depth cs = some (es, rest))
    : es.length + rest.length ≤ cs.length ∧ ∀ e ∈ es, e.Within room := by
  unfold elements? at helements
  simp only [Option.bind_eq_bind, Option.bind_eq_some_iff] at helements
  obtain ⟨⟨e, after⟩, he, helements⟩ := helements
  obtain ⟨hlength, hwithin⟩ := h.value depth cs e after hroom he
  dsimp only at helements
  split at helements
  . next text htext =>
    have hlt := length_lt_of_skipBlanks htext
    rw [Option.map_eq_some_iff] at helements
    obtain ⟨⟨es', rest'⟩, hes, helements⟩ := helements
    dsimp only at helements
    cases helements
    obtain ⟨hmore, hall⟩ := h.elements depth text es' rest (by omega) hes
    rw [List.length_cons, List.forall_mem_cons]
    exact ⟨by omega, hwithin, hall⟩
  . next text htext =>
    have hlt := length_lt_of_skipBlanks htext
    cases helements
    rw [List.length_singleton, List.forall_mem_singleton]
    exact ⟨by omega, hwithin⟩
  . simp at helements

theorem Bounded.fields_succ (h : Bounded room fuel) {fs : List (String × Json)}
    (hroom : cs.length ≤ room) (hfields : fields? (fuel + 1) depth cs = some (fs, rest))
    : fs.length + rest.length ≤ cs.length ∧ ∀ f ∈ fs, f.2.Within room := by
  unfold fields? at hfields
  split at hfields
  . next text htext =>
    have hlt := length_lt_of_skipBlanks htext
    simp only [Option.bind_eq_bind, Option.bind_eq_some_iff] at hfields
    obtain ⟨⟨name, after⟩, hname, hfields⟩ := hfields
    have hle := length_unquote_le hname
    dsimp only at hfields
    split at hfields
    . next text' htext' =>
      have hlt' := length_lt_of_skipBlanks htext'
      rw [Option.bind_eq_some_iff] at hfields
      obtain ⟨⟨value, behind⟩, hvalue, hfields⟩ := hfields
      obtain ⟨hlength, hwithin⟩ := h.value depth text' value behind (by omega) hvalue
      dsimp only at hfields
      split at hfields
      . next text'' htext'' =>
        have hlt'' := length_lt_of_skipBlanks htext''
        rw [Option.map_eq_some_iff] at hfields
        obtain ⟨⟨fs', rest'⟩, hfs, hfields⟩ := hfields
        dsimp only at hfields
        cases hfields
        obtain ⟨hmore, hall⟩ := h.fields depth text'' fs' rest (by omega) hfs
        rw [List.length_cons, List.forall_mem_cons]
        exact ⟨by omega, hwithin, hall⟩
      . next text'' htext'' =>
        have hlt'' := length_lt_of_skipBlanks htext''
        cases hfields
        rw [List.length_singleton, List.forall_mem_singleton]
        exact ⟨by omega, hwithin⟩
      . simp at hfields
    . simp at hfields
  . simp at hfields

theorem bounded (room fuel : Nat) : Bounded room fuel := by
  induction fuel with
  | zero => exact bounded_zero room
  | succ fuel ih =>
    exact ⟨fun _ _ _ _ => ih.value_succ, fun _ _ _ _ => ih.elements_succ,
      fun _ _ _ _ => ih.fields_succ⟩

theorem within_of_parse? (h : parse? cs = some json) : json.Within cs.length := by
  unfold parse? at h
  split at h
  . next value rest hvalue =>
    split at h
    . cases h
      exact ((bounded cs.length (cs.length + 1)).value maxDepth cs json rest (Nat.le_refl _)
        hvalue).2
    . simp at h
  . simp at h

theorem length_lt_printFields (fs : List (String × Json))
    : fs.length < (printFields fs).length := by
  induction fs with
  | nil => decide
  | cons f fs ih =>
    rw [printFields, List.length_append, List.length_cons, List.length_cons]
    omega

theorem length_le_print_object (fs : List (String × Json))
    : fs.length ≤ (print (.object fs)).length := by
  cases fs with
  | nil => exact Nat.zero_le _
  | cons f fs =>
    have := length_lt_printFields fs
    rw [print, List.length_append, List.length_cons, List.length_cons]
    omega

end TensorFiles.Json
