import TensorFiles.Json.Parser
import TensorFiles.Json.Printer
import TensorFiles.Proofs.Json.Number
import TensorFiles.Proofs.Json.Quoted
/-!
This module contains the round trip of JSON values through their compact form: what is printed is
read back, as long as its numbers are integers and it is not too deep.
-/

namespace TensorFiles.Json

/--
Values without floats, with at most `depth` arrays and objects in each other.
-/
inductive Plain : Nat → Json → Prop where
  | null {depth : Nat} : Plain depth .null
  | bool {depth : Nat} (b : Bool) : Plain depth (.bool b)
  | int {depth : Nat} {n : Int} (hlow : -(wordBound / 2 : Nat) ≤ n) (hhigh : n < wordBound)
    : Plain depth (.int n)
  | string {depth : Nat} (s : String) : Plain depth (.string s)
  | array {depth : Nat} {es : List Json} (h : ∀ e ∈ es, Plain depth e)
    : Plain (depth + 1) (.array es)
  | object {depth : Nat} {fs : List (String × Json)} (h : ∀ f ∈ fs, Plain depth f.2)
    : Plain (depth + 1) (.object fs)

theorem Plain.nat {depth n : Nat} (h : n < wordBound) : Plain depth (.nat n) := by
  apply Plain.int
  . omega
  . exact Int.ofNat_lt.2 h

/--
A value is read back from the front of any text that its printed form does not run into.
-/
def ReadsBack (depth : Nat) (json : Json) : Prop :=
  ∀ fuel rest, (print json).length ≤ fuel → EndsNumber rest →
    value? fuel depth (print json ++ rest) = some (json, rest)

theorem endsNumber_cons {c : Char} (h : c ∈ [',', ']', '\x7d', ' ']) (rest : List Char)
    : EndsNumber (c :: rest) := by
  have hall : ∀ c ∈ [',', ']', '\x7d', ' '],
      Text.isDigit c = false ∧ c ≠ '.' ∧ c ≠ 'e' ∧ c ≠ 'E' := by
    simp only [List.forall_mem_cons, List.not_mem_nil, false_implies, implies_true, and_true]
    decide
  obtain ⟨hdigit, hmark⟩ := hall c h
  constructor
  . rintro _ ⟨⟩
    exact hdigit
  . rintro _ ⟨⟩
    exact hmark

theorem skipBlanks_cons {c : Char} (h : isBlank c = false) (rest : List Char)
    : skipBlanks (c :: rest) = c :: rest := by
  unfold skipBlanks
  rw [List.dropWhile_cons, h, if_neg (by decide)]

/--
A digit and a sign begin nothing but a number.
-/
theorem not_mem_of_isDigit {c : Char} (h : Text.isDigit c = true ∨ c = '-')
    : c ∉ [' ', '\n', '\t', '\r', '"', '[', ']', '\x7b', '\x7d', 'n', 't', 'f'] := by
  have hall : ∀ c ∈ [' ', '\n', '\t', '\r', '"', '[', ']', '\x7b', '\x7d', 'n', 't', 'f'],
      Text.isDigit c = false ∧ c ≠ '-' := by
    simp only [List.forall_mem_cons, List.not_mem_nil, false_implies, implies_true, and_true]
    decide
  intro hmem
  obtain ⟨hdigit, hsign⟩ := hall c hmem
  cases h with
  | inl h =>
    rw [hdigit] at h
    exact absurd h (by decide)
  | inr h => exact hsign h

theorem exists_printInt_eq_cons (n : Int)
    : ∃ c cs, printInt n = c :: cs ∧ (Text.isDigit c = true ∨ c = '-') := by
  cases n with
  | ofNat n =>
    have hall : ∀ c ∈ Numeral.encode n, Text.isDigit c = true :=
      fun _ => Numeral.isDigit_of_mem_encode
    obtain ⟨c, cs, hcs⟩ := List.exists_cons_of_ne_nil (Numeral.encode_ne_nil n)
    rw [hcs, List.forall_mem_cons] at hall
    exact ⟨c, cs, hcs, .inl hall.1⟩
  | negSucc n => exact ⟨_, _, rfl, .inr rfl⟩

/--
What the printed form of a value begins with is no blank and ends nothing.
-/
theorem exists_print_eq_cons {depth : Nat} {json : Json} (h : Plain depth json)
    : ∃ c cs, print json = c :: cs ∧ isBlank c = false ∧ c ≠ ']' ∧ c ≠ '\x7d' := by
  cases h with
  | null => exact ⟨_, _, rfl, by decide, by decide, by decide⟩
  | bool b => cases b <;> exact ⟨_, _, rfl, by decide, by decide, by decide⟩
  | @int _ n _ _ =>
    obtain ⟨c, cs, hcs, hdigit⟩ := exists_printInt_eq_cons n
    have hnot := not_mem_of_isDigit hdigit
    simp only [List.mem_cons, not_or] at hnot
    refine ⟨c, cs, hcs, ?_, ?_, ?_⟩
    . simp [isBlank, hnot]
    . simp [hnot]
    . simp [hnot]
  | string s => exact ⟨_, _, rfl, by decide, by decide, by decide⟩
  | @array _ es _ => cases es <;> exact ⟨_, _, rfl, by decide, by decide, by decide⟩
  | @object _ fs _ => cases fs <;> exact ⟨_, _, rfl, by decide, by decide, by decide⟩

theorem readsBack_int (depth : Nat) {n : Int} (hlow : -(wordBound / 2 : Nat) ≤ n)
    (hhigh : n < wordBound) : ReadsBack depth (.int n) := by
  intro fuel rest hfuel hrest
  obtain ⟨c, cs, hcs, hdigit⟩ := exists_printInt_eq_cons n
  have hnot := not_mem_of_isDigit hdigit
  have hnumber := number?_printInt hlow hhigh hrest
  have hprint : print (.int n) = printInt n := rfl
  rw [hprint] at hfuel ⊢
  rw [hcs, List.cons_append] at hnumber
  rw [hcs] at hfuel ⊢
  cases fuel with
  | zero => simp at hfuel
  | succ fuel =>
    have hblank : isBlank c = false := by
      simp only [List.mem_cons, not_or] at hnot
      simp [isBlank, hnot]
    have hword : word? (c :: (cs ++ rest)) = none := by
      simp only [List.mem_cons, not_or] at hnot
      simp [word?, words, Text.dropStart?, Ne.symm, hnot]
    rw [List.cons_append]
    unfold value?
    rw [skipBlanks_cons hblank]
    split
    . next heq => simp [(List.cons.inj heq).1] at hnot
    . next heq => simp [(List.cons.inj heq).1] at hnot
    . next heq => simp [(List.cons.inj heq).1] at hnot
    . rw [hword, hnumber]

theorem readsBack_string (depth : Nat) (s : String) : ReadsBack depth (.string s) := by
  intro fuel rest hfuel _
  cases fuel with
  | zero => simp [print, quote] at hfuel
  | succ fuel =>
    have hprint : print (.string s) ++ rest = '"' :: (s.toList.flatMap escapeChar ++ '"' :: rest) := by
      simp [print, quote]
    rw [hprint]
    unfold value?
    rw [skipBlanks_cons (by decide)]
    simp [unquote_flatMap]

theorem readsBack_word (depth : Nat) {json : Json} (h : (print json, json) ∈ words)
    : ReadsBack depth json := by
  intro fuel rest hfuel _
  simp only [words, List.mem_cons, Prod.mk.injEq, List.not_mem_nil, or_false] at h
  cases fuel with
  | zero => rcases h with ⟨_, rfl⟩ | ⟨_, rfl⟩ | ⟨_, rfl⟩ <;> simp [print] at hfuel
  | succ fuel =>
    rcases h with ⟨_, rfl⟩ | ⟨_, rfl⟩ | ⟨_, rfl⟩ <;>
      simp [print, value?, skipBlanks, isBlank, word?, words, Text.dropStart?]

theorem elements?_print {depth : Nat} {e : Json} {es : List Json}
    (h : ∀ e' ∈ e :: es, ReadsBack depth e') {fuel : Nat}
    (hfuel : (print e ++ printElements es).length ≤ fuel) (rest : List Char)
    : elements? fuel depth (print e ++ printElements es ++ rest) = some (e :: es, rest) := by
  induction es generalizing e fuel with
  | nil =>
    rw [printElements, List.length_append, List.length_singleton] at hfuel
    cases fuel with
    | zero => omega
    | succ fuel =>
      have hvalue := h e List.mem_cons_self fuel (']' :: rest) (by omega)
        (endsNumber_cons (by decide) rest)
      rw [printElements, List.append_assoc, List.singleton_append]
      unfold elements?
      simp only [hvalue, bind, Option.bind, skipBlanks_cons (show isBlank ']' = false by decide)]
  | cons e' es ih =>
    rw [List.forall_mem_cons] at h
    rw [printElements, List.length_append, List.cons_append, List.length_cons] at hfuel
    cases fuel with
    | zero => omega
    | succ fuel =>
      have hvalue := h.1 fuel (',' :: (print e' ++ printElements es ++ rest)) (by omega)
        (endsNumber_cons (by decide) _)
      have hrest := ih h.2 (show (print e' ++ printElements es).length ≤ fuel by omega)
      rw [printElements, List.append_assoc, List.cons_append, List.cons_append]
      unfold elements?
      simp only [hvalue, bind, Option.bind, skipBlanks_cons (show isBlank ',' = false by decide),
        hrest, Option.map_some]

theorem fields?_print {depth : Nat} {f : String × Json} {fs : List (String × Json)}
    (h : ∀ f' ∈ f :: fs, ReadsBack depth f'.2) {fuel : Nat}
    (hfuel : (printField f ++ printFields fs).length ≤ fuel) (rest : List Char)
    : fields? fuel depth (printField f ++ printFields fs ++ rest) = some (f :: fs, rest) := by
  have hfield (f : String × Json) (rest : List Char) : printField f ++ rest
      = '"' :: (f.1.toList.flatMap escapeChar ++ '"' :: ':' :: (print f.2 ++ rest)) := by
    obtain ⟨name, value⟩ := f
    simp [printField, quote]
  have hlength (f : String × Json) : (print f.2).length < (printField f).length := by
    have := congrArg List.length (hfield f [])
    simp only [List.append_nil, List.length_cons, List.length_append] at this
    omega
  induction fs generalizing f fuel with
  | nil =>
    have hlt := hlength f
    rw [printFields, List.length_append, List.length_singleton] at hfuel
    cases fuel with
    | zero => omega
    | succ fuel =>
      have hvalue := h f List.mem_cons_self fuel ('\x7d' :: rest) (by omega)
        (endsNumber_cons (by decide) rest)
      rw [printFields, List.append_assoc, List.singleton_append, hfield]
      unfold fields?
      simp only [skipBlanks_cons (show isBlank '"' = false by decide), unquote_flatMap, bind,
        Option.bind, skipBlanks_cons (show isBlank ':' = false by decide), hvalue,
        skipBlanks_cons (show isBlank '\x7d' = false by decide), String.ofList_toList]
  | cons f' fs ih =>
    have hlt := hlength f
    rw [List.forall_mem_cons] at h
    rw [printFields, List.length_append, List.cons_append, List.length_cons] at hfuel
    cases fuel with
    | zero => omega
    | succ fuel =>
      have hvalue := h.1 fuel (',' :: (printField f' ++ printFields fs ++ rest)) (by omega)
        (endsNumber_cons (by decide) _)
      have hrest := ih h.2 (show (printField f' ++ printFields fs).length ≤ fuel by omega)
      rw [printFields, List.append_assoc, List.cons_append, List.cons_append, hfield]
      unfold fields?
      simp only [skipBlanks_cons (show isBlank '"' = false by decide), unquote_flatMap, bind,
        Option.bind, skipBlanks_cons (show isBlank ':' = false by decide), hvalue,
        skipBlanks_cons (show isBlank ',' = false by decide), hrest, Option.map_some,
        String.ofList_toList]

theorem readsBack_array {depth : Nat} {es : List Json} (hplain : ∀ e ∈ es, Plain depth e)
    (h : ∀ e ∈ es, ReadsBack depth e) : ReadsBack (depth + 1) (.array es) := by
  intro fuel rest hfuel _
  cases es with
  | nil =>
    cases fuel with
    | zero => simp [print] at hfuel
    | succ fuel => simp [print, value?, skipBlanks, isBlank]
  | cons e es =>
    rw [print, List.cons_append, List.length_cons] at hfuel
    cases fuel with
    | zero => omega
    | succ fuel =>
      have helements := elements?_print h (show (print e ++ printElements es).length ≤ fuel by omega)
        rest
      obtain ⟨c, cs, hcs, hblank, hne, _⟩ := exists_print_eq_cons (hplain e List.mem_cons_self)
      rw [print, List.cons_append, List.cons_append]
      rw [hcs, List.cons_append, List.cons_append] at helements ⊢
      unfold value?
      rw [skipBlanks_cons (by decide)]
      simp only [skipBlanks_cons hblank]
      split
      . next heq => exact absurd (List.cons.inj heq).1 hne
      . rw [helements]
        rfl

theorem readsBack_object {depth : Nat} {fs : List (String × Json)}
    (h : ∀ f ∈ fs, ReadsBack depth f.2) : ReadsBack (depth + 1) (.object fs) := by
  intro fuel rest hfuel _
  cases fs with
  | nil =>
    cases fuel with
    | zero => simp [print] at hfuel
    | succ fuel => simp [print, value?, skipBlanks, isBlank]
  | cons f fs =>
    rw [print, List.cons_append, List.length_cons] at hfuel
    cases fuel with
    | zero => omega
    | succ fuel =>
      have hfields := fields?_print h (show (printField f ++ printFields fs).length ≤ fuel by omega)
        rest
      have hfirst : ∃ cs, printField f = '"' :: cs := by
        obtain ⟨name, value⟩ := f
        exact ⟨_, rfl⟩
      obtain ⟨cs, hcs⟩ := hfirst
      rw [print, List.cons_append, List.cons_append]
      rw [hcs, List.cons_append, List.cons_append] at hfields ⊢
      unfold value?
      rw [skipBlanks_cons (by decide)]
      simp only [skipBlanks_cons (show isBlank '"' = false by decide)]
      split
      . next heq => exact absurd (List.cons.inj heq).1 (by decide)
      . rw [hfields]
        rfl

theorem readsBack_of_plain {depth : Nat} {json : Json} (h : Plain depth json)
    : ReadsBack depth json := by
  induction h with
  | null => exact readsBack_word _ (by simp [print, words])
  | bool b =>
    cases b with
    | false => exact readsBack_word _ (by simp [print, words])
    | true => exact readsBack_word _ (by simp [print, words])
  | int hlow hhigh => exact readsBack_int _ hlow hhigh
  | string s => exact readsBack_string _ s
  | array h ih => exact readsBack_array h ih
  | object _ ih => exact readsBack_object ih

/--
A printed value is what the whole text stands for, also with blanks behind it.
-/
theorem parse?_print {json : Json} (h : Plain maxDepth json) {blanks : List Char}
    (hblanks : ∀ c ∈ blanks, c = ' ') : parse? (print json ++ blanks) = some json := by
  have hends : EndsNumber blanks := by
    cases blanks with
    | nil => constructor <;> simp
    | cons c blanks =>
      rw [List.forall_mem_cons] at hblanks
      rw [hblanks.1]
      exact endsNumber_cons (by decide) blanks
  have hvalue := readsBack_of_plain h ((print json ++ blanks).length + 1) blanks
    (by
      rw [List.length_append]
      omega) hends
  have hskip : skipBlanks blanks = [] := by
    have hall : ∀ c ∈ blanks, isBlank c = true := by
      intro c hc
      rw [hblanks c hc]
      decide
    unfold skipBlanks
    rw [← List.append_nil blanks, List.dropWhile_append_of_pos hall]
    rfl
  unfold parse?
  rw [hvalue]
  simp [hskip]

theorem print_inj {json json' : Json} (h : Plain maxDepth json) (h' : Plain maxDepth json')
    (heq : print json = print json') : json = json' := by
  have hread := parse?_print h (List.forall_mem_nil _)
  have hread' := parse?_print h' (List.forall_mem_nil _)
  rw [heq, hread', Option.some.injEq] at hread
  exact hread.symm

end TensorFiles.Json
