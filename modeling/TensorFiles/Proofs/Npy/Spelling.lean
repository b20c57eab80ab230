import Mathlib.Data.Bool.AllAny
import TensorFiles.Npy.Header
import TensorFiles.Proofs.Result
import TensorFiles.Proofs.Text.Pieces
/-!
This module contains the ways to write a header: its entries in any order, with any blanks around
keys, values and dimensions, with either quote around the element type, and with or without a comma
behind the last dimension and the last entry. The same header is read from all of them.
-/

namespace TensorFiles.Npy

open Text

/--
Any number of blank characters.
-/
structure Blanks where
  chars : List Char
  isBlank : ∀ c ∈ chars, Text.isBlank c = true

namespace Blanks

def spaces (count : Nat) : Blanks where
  chars := List.replicate count ' '
  isBlank := by
    intro c hc
    rw [List.eq_of_mem_replicate hc]
    decide

theorem not_mem (b : Blanks) {c : Char} (h : Text.isBlank c = false) : c ∉ b.chars := by
  intro hc
  rw [b.isBlank c hc] at h
  simp at h

end Blanks

/--
The order of bytes, as the sign in front of the code of an element type tells it.
-/
inductive ByteOrder where
  | little
  | big
  | irrelevant
  | native
  | unmarked
  deriving DecidableEq

def ByteOrder.sign : ByteOrder → List Char
  | .little => ['<']
  | .big => ['>']
  | .irrelevant => ['|']
  | .native => ['=']
  | .unmarked => []

inductive Quote where
  | single
  | double

def Quote.mark : Quote → Char
  | .single => '\''
  | .double => '"'

theorem Quote.isBlank_mark (q : Quote) : isBlank q.mark = false := by
  cases q <;> decide

theorem Quote.mark_not_mem (q : Quote) : q.mark ∉ [',', '\x7d', '(', ')'] := by
  cases q <;> decide

/--
A dimension with the blanks around it.
-/
structure Dim where
  before : Blanks
  size : Nat
  behind : Blanks
  size_lt : size < wordBound

def Dim.text (d : Dim) : List Char :=
  d.before.chars ++ (Numeral.encode d.size ++ d.behind.chars)

inductive Field where
  | descr
  | order
  | shape
  deriving DecidableEq

def Field.key : Field → String
  | .descr => "descr"
  | .order => "fortran_order"
  | .shape => "shape"

/--
The characters at which keys and the words between quotes end.
-/
def isMark (c : Char) : Bool :=
  c ∈ ['\'', ':', ',', '\x7d']

theorem isMark_of_mem_key (field : Field) : ∀ c ∈ field.key.toList, isMark c = false := by
  cases field <;> exact List.all_iff_forall_prop.1 (by decide)

theorem Blanks.isMark_of_mem (b : Blanks) : ∀ c ∈ b.chars, isMark c = false := by
  have hmarks : ∀ c ∈ ['\'', ':', ',', '\x7d'], Text.isBlank c = false :=
    List.all_iff_forall_prop.1 (by decide)
  intro c hc
  apply decide_eq_false
  intro hmark
  exact b.not_mem (hmarks c hmark) hc

/--
The blanks around the key and the value of an entry.
-/
structure Margins where
  beforeKey : Blanks
  behindKey : Blanks
  beforeValue : Blanks
  behindValue : Blanks

/--
Pieces with commas between them. With an ending there is one more comma, and blanks behind it.
-/
def commaSeparated (pieces : List (List Char)) (ending : Option Blanks) : List Char :=
  [','].intercalate (pieces ++ ending.toList.map Blanks.chars)

/--
A header, and a way to write it.
-/
structure Spelling where
  dtype : DType
  code : String
  code_eq : typeCode? dtype = some code
  order : ByteOrder
  quote : Quote
  dims : List Dim
  dimsEnding : Option Blanks
  fields : List Field
  fields_perm : fields.Perm [.descr, .order, .shape]
  margins : Field → Margins
  fieldsEnding : Option Blanks
  before : Blanks
  behind : Blanks

namespace Spelling

variable (s : Spelling)

def shape : List Nat := s.dims.map Dim.size

/--
The code of the element type with the sign of the order of its bytes.
-/
def signed : List Char := s.order.sign ++ s.code.toList

def value : Field → List Char
  | .descr => s.quote.mark :: s.signed ++ [s.quote.mark]
  | .order => "False".toList
  | .shape => '(' :: commaSeparated (s.dims.map Dim.text) s.dimsEnding ++ [')']

def entry (field : Field) : List Char :=
  let margins := s.margins field
  margins.beforeKey.chars ++ '\'' :: field.key.toList ++ '\'' :: margins.behindKey.chars ++
    ':' :: margins.beforeValue.chars ++ s.value field ++ margins.behindValue.chars

def text : List Char :=
  s.before.chars ++ '\x7b' :: commaSeparated (s.fields.map s.entry) s.fieldsEnding ++
    '\x7d' :: s.behind.chars

end Spelling

theorem mem_commaSeparated {pieces : List (List Char)} {ending : Option Blanks} {c : Char}
    (h : c ∈ commaSeparated pieces ending)
    : c = ',' ∨ isBlank c = true ∨ ∃ p ∈ pieces, c ∈ p := by
  cases mem_intercalate h with
  | inl hcomma => exact .inl (List.mem_singleton.1 hcomma)
  | inr hpiece =>
    obtain ⟨p, hp, hc⟩ := hpiece
    rw [List.mem_append] at hp
    cases hp with
    | inl hp => exact .inr (.inr ⟨p, hp, hc⟩)
    | inr hp =>
      obtain ⟨b, _, rfl⟩ := List.mem_map.1 hp
      exact .inr (.inl (b.isBlank c hc))

/--
Each piece has a comma behind it, or what closes the whole.
-/
theorem exists_commaSeparated_eq (front : List (List Char)) (piece : List Char)
    (back : List (List Char)) (ending : Option Blanks) (close : Char) (rest : List Char)
    : ∃ c more, (c = ',' ∨ c = close) ∧
        commaSeparated (front ++ piece :: back) ending ++ close :: rest
          = front.flatMap (· ++ [',']) ++ (piece ++ c :: more) := by
  unfold commaSeparated
  rw [List.append_assoc, List.cons_append, intercalate_append_cons]
  cases back ++ ending.toList.map Blanks.chars with
  | nil =>
    rw [List.intercalate_singleton]
    exact ⟨close, rest, .inr rfl, List.append_assoc _ _ _⟩
  | cons next back =>
    rw [List.intercalate_cons_cons]
    refine ⟨',', [','].intercalate (next :: back) ++ close :: rest, .inl rfl, ?_⟩
    simp only [List.append_assoc, List.cons_append, List.nil_append]

section Values

/--
What can stand as a value: no blank is at its ends, nothing in it ends it, and no key is found in it.
-/
structure IsValue (value : List Char) : Prop where
  trimmed : Trimmed value
  ne_nil : value ≠ []
  level : ∀ rest, Header.untilEnd? 0 (value ++ rest) = (Header.untilEnd? 0 rest).map (value ++ ·)
  passed : '\'' ∉ value ∨ ∃ word, value = '\'' :: (word ++ ['\'']) ∧
    (∀ c ∈ word, isMark c = false) ∧ ∀ field : Field, word ≠ field.key.toList

/--
Nothing ends a value between parentheses. Outside of them a comma and a brace do.
-/
theorem untilEnd?_append {depth : Nat} {text : List Char} (rest : List Char)
    (hlevel : '(' ∉ text ∧ ')' ∉ text) (hend : depth = 0 → ',' ∉ text ∧ '\x7d' ∉ text)
    : Header.untilEnd? depth (text ++ rest) = (Header.untilEnd? depth rest).map (text ++ ·) := by
  induction text with
  | nil => simp
  | cons c text ih =>
    simp only [List.mem_cons, not_or] at hlevel hend
    have hgoes : ¬ (depth = 0 ∧ (c = ',' ∨ c = '\x7d')) := by
      rintro ⟨hdepth, rfl | rfl⟩
      . exact (hend hdepth).1.1 rfl
      . exact (hend hdepth).2.1 rfl
    rw [List.cons_append, Header.untilEnd?, if_neg hgoes, if_neg (Ne.symm hlevel.1.1),
      if_neg (Ne.symm hlevel.2.1)]
    dsimp only
    rw [ih ⟨hlevel.1.2, hlevel.2.2⟩ fun hdepth => ⟨(hend hdepth).1.2, (hend hdepth).2.2⟩,
      Option.map_map]
    rfl

theorem untilEnd?_parentheses {inner : List Char} (hlevel : '(' ∉ inner ∧ ')' ∉ inner)
    (rest : List Char)
    : Header.untilEnd? 0 ('(' :: inner ++ [')'] ++ rest)
        = (Header.untilEnd? 0 rest).map ('(' :: inner ++ [')'] ++ ·) := by
  have hclose : Header.untilEnd? 1 (')' :: rest) = (Header.untilEnd? 0 rest).map (')' :: ·) := rfl
  have hopen : Header.untilEnd? 0 ('(' :: (inner ++ ')' :: rest))
      = (Header.untilEnd? 1 (inner ++ ')' :: rest)).map ('(' :: ·) := rfl
  rw [List.append_assoc, List.cons_append, List.singleton_append, hopen,
    untilEnd?_append _ hlevel (by simp), hclose, Option.map_map, Option.map_map]
  congr 1
  funext cs
  simp

/--
The two characters of a code are letters and digits.
-/
theorem exists_code_eq {dtype : DType} {code : String} (h : typeCode? dtype = some code)
    : ∃ c d, code.toList = [c, d] ∧ c ∉ ['<', '>', '|', '='] ∧
        ∀ mark ∈ ['\'', ':', ',', '\x7d', '(', ')', '"'], mark ∉ [c, d] := by
  cases dtype <;> cases h <;>
    exact ⟨_, _, rfl, by decide, List.all_iff_forall_prop.1 (by decide)⟩

namespace Spelling

variable (s : Spelling)

theorem not_mem_signed {mark : Char} (h : mark ∈ ['\'', ':', ',', '\x7d', '(', ')', '"'])
    : mark ∉ s.signed := by
  obtain ⟨c, d, hcode, _, hmarks⟩ := exists_code_eq s.code_eq
  have hsign : ∀ order : ByteOrder, ∀ mark ∈ ['\'', ':', ',', '\x7d', '(', ')', '"'],
      mark ∉ order.sign := by
    intro order
    cases order <;> exact List.all_iff_forall_prop.1 (by decide)
  unfold signed
  rw [List.mem_append, not_or, hcode]
  exact ⟨hsign s.order mark h, hmarks mark h⟩

theorem isMark_of_mem_signed : ∀ c ∈ s.signed, isMark c = false := by
  intro c hc
  apply decide_eq_false
  intro hmark
  exact s.not_mem_signed (List.mem_append_left ['(', ')', '"'] hmark) hc

theorem signed_ne_key (field : Field) : s.signed ≠ field.key.toList := by
  obtain ⟨c, d, hcode, _⟩ := exists_code_eq s.code_eq
  have hsign : s.order.sign.length ≤ 1 := by
    cases s.order <;> decide
  have hkey : 5 ≤ field.key.toList.length := by
    cases field <;> decide
  intro h
  have hlength := congrArg List.length h
  unfold signed at hlength
  rw [List.length_append, hcode] at hlength
  simp only [List.length_cons, List.length_nil] at hlength
  omega

theorem not_mem_dims {c : Char} (hdigit : isDigit c = false) (hblank : isBlank c = false)
    (hcomma : c ≠ ',') : c ∉ commaSeparated (s.dims.map Dim.text) s.dimsEnding := by
  intro hc
  rcases mem_commaSeparated hc with h | h | ⟨p, hp, hc⟩
  . exact hcomma h
  . rw [hblank] at h
    simp at h
  . obtain ⟨d, _, rfl⟩ := List.mem_map.1 hp
    unfold Dim.text at hc
    rw [List.mem_append, List.mem_append] at hc
    rcases hc with hc | hc | hc
    . exact d.before.not_mem hblank hc
    . exact not_mem_encode hdigit hc
    . exact d.behind.not_mem hblank hc

theorem isValue_descr : IsValue (s.value .descr) := by
  have hmarks : ∀ c ∈ [',', '\x7d', '(', ')'], c ∉ s.value .descr := by
    intro c hc
    have hne : c ≠ s.quote.mark := fun h => s.quote.mark_not_mem (h ▸ hc)
    have hsigned : c ∉ s.signed := by
      apply s.not_mem_signed
      exact List.mem_cons_of_mem _ (List.mem_cons_of_mem _ (List.mem_append_left ['"'] hc))
    simp [value, hne, hsigned]
  constructor
  . exact trimmed_of_ends s.quote.isBlank_mark s.quote.isBlank_mark
  . simp [value]
  . intro rest
    apply untilEnd?_append
    . exact ⟨hmarks '(' (by decide), hmarks ')' (by decide)⟩
    . exact fun _ => ⟨hmarks ',' (by decide), hmarks '\x7d' (by decide)⟩
  . cases hquote : s.quote with
    | single =>
      refine .inr ⟨s.signed, ?_, s.isMark_of_mem_signed, s.signed_ne_key⟩
      unfold value
      rw [hquote]
      rfl
    | double =>
      have hsigned : '\'' ∉ s.signed := s.not_mem_signed (by decide)
      left
      simp [value, hquote, Quote.mark, hsigned]

theorem isValue_order : IsValue "False".toList := by
  refine ⟨?_, by decide, ?_, .inl (by decide)⟩
  . have hends : "False".toList = 'F' :: ['a', 'l', 's'] ++ ['e'] := rfl
    rw [hends]
    exact trimmed_of_ends (by decide) (by decide)
  . exact fun rest => untilEnd?_append rest (by decide) (by decide)

theorem isValue_shape : IsValue (s.value .shape) := by
  have hinner : ∀ c ∈ ['(', ')', '\''],
      c ∉ commaSeparated (s.dims.map Dim.text) s.dimsEnding := by
    intro c hc
    have hother : ∀ c ∈ ['(', ')', '\''], isDigit c = false ∧ isBlank c = false ∧ c ≠ ',' :=
      List.all_iff_forall_prop.1 (by decide)
    obtain ⟨hdigit, hblank, hcomma⟩ := hother c hc
    exact s.not_mem_dims hdigit hblank hcomma
  constructor
  . exact trimmed_of_ends (by decide) (by decide)
  . simp [value]
  . exact untilEnd?_parentheses ⟨hinner '(' (by decide), hinner ')' (by decide)⟩
  . left
    have := hinner '\'' (by decide)
    simp [value, this]

theorem isValue (field : Field) : IsValue (s.value field) := by
  cases field with
  | descr => exact s.isValue_descr
  | order => exact isValue_order
  | shape => exact s.isValue_shape

end Spelling

end Values

section Search

/--
A key between quotes, as it is searched for.
-/
def quoted (field : Field) : List Char :=
  '\'' :: (field.key.toList ++ ['\''])

theorem quoted_eq (field : Field) : quoted field = ['\''] ++ field.key.toList ++ ['\''] := rfl

variable {field : Field}

theorem after?_quoted {front : List Char} (h : '\'' ∉ front) (rest : List Char)
    : after? (quoted field) (front ++ rest) = after? (quoted field) rest :=
  after?_append_of_not_mem h rest

/--
A key does not begin at a quote if another word follows it, or another mark.
-/
theorem after?_quote {front : List Char} {c : Char} (hfront : ∀ x ∈ front, isMark x = false)
    (hc : isMark c = true) (hne : front ≠ field.key.toList ∨ c ≠ '\'') (rest : List Char)
    : after? (quoted field) ('\'' :: (front ++ c :: rest)) = after? (quoted field) (c :: rest) := by
  have hnone : dropStart? (quoted field) ('\'' :: (front ++ c :: rest)) = none := by
    rw [Option.eq_none_iff_forall_ne_some]
    intro behind h
    rw [dropStart?_eq_some_iff, quoted, List.cons_append, List.append_assoc,
      List.singleton_append, List.cons.injEq] at h
    obtain ⟨hword, hmark⟩ := eq_of_append_cons hfront (isMark_of_mem_key field) hc (by decide) h.2
    exact hne.elim (fun hne => hne hword) (fun hne => hne hmark)
  have hquote : '\'' ∉ front := fun hmem => absurd (hfront _ hmem) (by decide)
  rw [after?_cons_of_dropStart? hnone, after?_quoted hquote]

theorem after?_value {value : List Char} (hvalue : IsValue value) (behind : Blanks) {c : Char}
    (hc : c = ',' ∨ c = '\x7d') (rest : List Char)
    : after? (quoted field) (value ++ (behind.chars ++ c :: rest)) = after? (quoted field) rest := by
  have hmark : isMark c = true ∧ c ≠ '\'' := by
    rcases hc with rfl | rfl <;> decide
  have hend : '\'' ∉ [c] := by
    rw [List.mem_singleton]
    exact Ne.symm hmark.2
  have hlast : after? (quoted field) (c :: rest) = after? (quoted field) rest :=
    after?_quoted hend rest
  rcases hvalue.passed with hquote | ⟨word, rfl, hword, hne⟩
  . have hbehind : '\'' ∉ behind.chars := behind.not_mem (by decide)
    rw [after?_quoted hquote, after?_quoted hbehind, hlast]
  . rw [List.cons_append, List.append_assoc, List.singleton_append,
      after?_quote hword (by decide) (.inl (hne field)),
      after?_quote behind.isMark_of_mem hmark.1 (.inr hmark.2), hlast]

namespace Spelling

variable (s : Spelling)

theorem entry_append (field : Field) (rest : List Char)
    : s.entry field ++ rest
        =
      (s.margins field).beforeKey.chars ++ '\'' :: (field.key.toList ++ '\'' ::
        ((s.margins field).behindKey.chars ++ ':' :: ((s.margins field).beforeValue.chars ++
          (s.value field ++ ((s.margins field).behindValue.chars ++ rest))))) := by
  simp only [entry, List.append_assoc, List.cons_append]

/--
In the search for a key the entries of other keys are passed over.
-/
theorem after?_entry {other : Field} (hne : other ≠ field) {c : Char}
    (hc : c = ',' ∨ c = '\x7d') (rest : List Char)
    : after? (quoted field) (s.entry other ++ c :: rest) = after? (quoted field) rest := by
  have hkey : other.key.toList ≠ field.key.toList := by
    revert hne
    cases other <;> cases field <;> decide
  have hfront : '\'' ∉ (s.margins other).beforeKey.chars := Blanks.not_mem _ (by decide)
  have hcolon : '\'' ∉ ':' :: (s.margins other).beforeValue.chars := by
    rw [List.mem_cons, not_or]
    exact ⟨by decide, Blanks.not_mem _ (by decide)⟩
  -- Behind the first quote stands another word, and behind the second one no quote but a colon.
  rw [entry_append, after?_quoted hfront,
    after?_quote (isMark_of_mem_key other) (by decide) (.inl hkey),
    after?_quote (Blanks.isMark_of_mem _) (by decide) (.inr (by decide)), ← List.cons_append,
    after?_quoted hcolon, after?_value (s.isValue other) _ hc]

theorem after?_entries {front : List Field} (h : field ∉ front) (rest : List Char)
    : after? (quoted field) ((front.map s.entry).flatMap (· ++ [',']) ++ rest)
        = after? (quoted field) rest := by
  induction front with
  | nil => rfl
  | cons other front ih =>
    rw [List.mem_cons, not_or] at h
    rw [List.map_cons, List.flatMap_cons, List.append_assoc, List.append_assoc,
      List.singleton_append, s.after?_entry (Ne.symm h.1) (.inl rfl), ih h.2]

theorem exists_text_eq (field : Field)
    : ∃ (front : List Field) (c : Char) (more : List Char), field ∉ front ∧ (c = ',' ∨ c = '\x7d') ∧
        s.text = s.before.chars ++ ['\x7b'] ++ ((front.map s.entry).flatMap (· ++ [',']) ++
          (s.entry field ++ c :: more)) := by
  have hmem : field ∈ s.fields := by
    rw [s.fields_perm.mem_iff]
    cases field <;> decide
  have hnodup : s.fields.Nodup := s.fields_perm.nodup_iff.2 (by decide)
  obtain ⟨front, back, hfields⟩ := List.append_of_mem hmem
  rw [hfields, List.nodup_append] at hnodup
  have hfront : field ∉ front :=
    fun hmem => hnodup.2.2 field hmem field List.mem_cons_self rfl
  obtain ⟨c, more, hc, heq⟩ := exists_commaSeparated_eq (front.map s.entry) (s.entry field)
    (back.map s.entry) s.fieldsEnding '\x7d' s.behind.chars
  refine ⟨front, c, more, hfront, hc, ?_⟩
  rw [text, hfields, List.map_append, List.map_cons, List.append_assoc, List.cons_append, heq,
    List.append_assoc, List.singleton_append]

/--
What follows a key is its value, with the margins of the entry around it.
-/
theorem exists_after?_text (field : Field)
    : ∃ c more, (c = ',' ∨ c = '\x7d') ∧
        after? (quoted field) s.text
          = some ((s.margins field).behindKey.chars ++ ':' :: ((s.margins field).beforeValue.chars ++
              (s.value field ++ ((s.margins field).behindValue.chars ++ c :: more)))) := by
  obtain ⟨front, c, more, hfront, hc, htext⟩ := s.exists_text_eq field
  have hopen : '\'' ∉ s.before.chars ++ ['\x7b'] := by
    rw [List.mem_append, not_or]
    exact ⟨s.before.not_mem (by decide), by decide⟩
  have hbefore : '\'' ∉ (s.margins field).beforeKey.chars := Blanks.not_mem _ (by decide)
  refine ⟨c, more, hc, ?_⟩
  rw [htext, after?_quoted hopen, s.after?_entries hfront, entry_append, after?_quoted hbefore]
  have hkey := after?_append_self (quoted field)
  simp only [quoted, List.cons_append, List.append_assoc] at hkey
  exact hkey _

/--
Each value is found by its key.
-/
theorem entry_text (field : Field) : Header.entry field.key s.text = .ok (s.value field) := by
  obtain ⟨c, more, hc, hafter⟩ := s.exists_after?_text field
  have hvalue := s.isValue field
  generalize s.value field = value at hafter hvalue ⊢
  generalize s.margins field = margins at hafter
  have hcolon : ∀ rest, trimStart (margins.behindKey.chars ++ ':' :: rest) = ':' :: rest := by
    intro rest
    apply trimStart_append margins.behindKey.isBlank
    simp only [List.head?_cons, Option.mem_some_iff]
    rintro _ rfl
    decide
  have hstart : ∀ rest, trimStart (margins.beforeValue.chars ++ (value ++ rest)) = value ++ rest := by
    intro rest
    apply trimStart_append margins.beforeValue.isBlank
    rw [List.head?_append_of_ne_nil value hvalue.ne_nil]
    exact hvalue.trimmed.head
  have hlast : Header.untilEnd? 0 (c :: more) = some [] := by
    rcases hc with rfl | rfl <;> rfl
  have hbehind : Header.untilEnd? 0 (margins.behindValue.chars ++ c :: more)
      = some margins.behindValue.chars := by
    rw [untilEnd?_append, hlast, Option.map_some, List.append_nil]
    . exact ⟨Blanks.not_mem _ (by decide), Blanks.not_mem _ (by decide)⟩
    . exact fun _ => ⟨Blanks.not_mem _ (by decide), Blanks.not_mem _ (by decide)⟩
  unfold Header.entry
  rw [← quoted_eq, hafter]
  simp only [hcolon, hstart, hvalue.level, hbehind, Option.map_some,
    hvalue.trimmed.trim_append hvalue.ne_nil margins.behindValue.isBlank]

end Spelling

end Search

section Reading

theorem ofTypeCode?_toList {dtype : DType} {code : String} (h : typeCode? dtype = some code)
    : ofTypeCode? code.toList = some dtype := by
  cases dtype <;> cases h <;> rfl

theorem unquote_between (q : Quote) {word : List Char} (hne : word ≠ []) (hsingle : '\'' ∉ word)
    (hdouble : '"' ∉ word) : Header.unquote (q.mark :: word ++ [q.mark]) = word := by
  have hmark : ∀ c ∈ [q.mark], (c == '\'' || c == '"') = true := by
    cases q <;> exact List.all_iff_forall_prop.1 (by decide)
  have hword : ∀ c ∈ word, (c == '\'' || c == '"') = false := by
    intro c hc
    have hother : c ≠ '\'' ∧ c ≠ '"' := ⟨fun h => hsingle (h ▸ hc), fun h => hdouble (h ▸ hc)⟩
    simp [hother]
  have hhead : ∀ c ∈ (word ++ [q.mark]).head?, (c == '\'' || c == '"') = false := by
    rw [List.head?_append_of_ne_nil word hne]
    exact fun c hc => hword c (List.mem_of_mem_head? hc)
  have hlast : ∀ c ∈ word.getLast?, (c == '\'' || c == '"') = false :=
    fun c hc => hword c (List.mem_of_mem_getLast? hc)
  have hdrop := dropWhile_append_of_head hmark hhead
  unfold Header.unquote
  dsimp only
  rw [List.cons_append, ← List.singleton_append, hdrop, reverse_dropWhile_append hmark hlast]

theorem trim_text_dim (d : Dim) : trim d.text = Numeral.encode d.size :=
  (trimmed_encode d.size).trim_between (Numeral.encode_ne_nil d.size) d.before.isBlank
    d.behind.isBlank

/--
The pieces between commas that are not blank are those that were put together.
-/
theorem pieces_commaSeparated (dims : List Dim) (ending : Option Blanks)
    : ((splitOn ',' (commaSeparated (dims.map Dim.text) ending)).map trim).filter (· != [])
        = (dims.map Dim.size).map Numeral.encode := by
  have hcomma : ∀ p ∈ dims.map Dim.text ++ ending.toList.map Blanks.chars, ',' ∉ p := by
    intro p hp
    rw [List.mem_append, List.mem_map, List.mem_map] at hp
    rcases hp with ⟨d, _, rfl⟩ | ⟨b, _, rfl⟩
    . unfold Dim.text
      rw [List.mem_append, List.mem_append, not_or, not_or]
      exact ⟨d.before.not_mem (by decide), not_mem_encode (by decide),
        d.behind.not_mem (by decide)⟩
    . exact b.not_mem (by decide)
  have hdims : (((dims.map Dim.text).map trim).filter (· != []))
      = (dims.map Dim.size).map Numeral.encode := by
    simp only [List.map_map, Function.comp_def, trim_text_dim]
    rw [List.filter_eq_self]
    intro p hp
    obtain ⟨d, _, rfl⟩ := List.mem_map.1 hp
    simp [Numeral.encode_ne_nil]
  have hending : ((ending.toList.map Blanks.chars).map trim).filter (· != []) = [] := by
    cases ending with
    | none => rfl
    | some b => simp [trim_of_isBlank b.isBlank]
  unfold commaSeparated
  cases hpieces : dims.map Dim.text ++ ending.toList.map Blanks.chars with
  | nil =>
    rw [List.append_eq_nil_iff, List.map_eq_nil_iff] at hpieces
    rw [hpieces.1]
    rfl
  | cons piece pieces =>
    rw [hpieces] at hcomma
    rw [splitOn_intercalate hcomma, ← hpieces, List.map_append, List.filter_append, hdims, hending,
      List.append_nil]

namespace Spelling

variable (s : Spelling)

/--
The header that is spelled.
-/
def header : Header where
  dtype := s.dtype
  shape := s.shape
  swapped := decide (s.order = .big ∧ 1 < s.dtype.size)

theorem parseDescr_signed
    : Header.parseDescr s.signed = .ok (s.dtype, s.header.swapped) := by
  obtain ⟨c, d, hcode, hsign, _⟩ := exists_code_eq s.code_eq
  have hdtype := ofTypeCode?_toList s.code_eq
  rw [hcode] at hdtype
  unfold Header.parseDescr signed header
  rw [hcode]
  cases s.order <;> simp [ByteOrder.sign, hdtype, hsign]

theorem parseShape_value : Header.parseShape (s.value .shape) = .ok s.shape := by
  have hinner : (dropStart? ['('] (s.value .shape)).bind (dropEnd? [')'])
      = some (commaSeparated (s.dims.map Dim.text) s.dimsEnding) := by
    rw [Option.bind_eq_some_iff]
    exact ⟨_, dropStart?_eq_some_iff.2 rfl, dropEnd?_eq_some_iff.2 rfl⟩
  unfold Header.parseShape
  rw [hinner]
  dsimp only
  rw [pieces_commaSeparated, mapM_eq_ok_iff, List.forall₂_map_left_iff, shape,
    List.forall₂_same]
  intro n hn
  obtain ⟨d, _, rfl⟩ := List.mem_map.1 hn
  rw [Numeral.decode_encode d.size_lt]

/--
However a header is spelled, it is read.
-/
theorem parse_text : Header.parse s.text = .ok s.header := by
  have hdescr := s.entry_text .descr
  have horder := s.entry_text .order
  have hshape := s.entry_text .shape
  have hunquote : Header.unquote (s.value .descr) = s.signed := by
    apply unquote_between
    . obtain ⟨c, d, hcode, _⟩ := exists_code_eq s.code_eq
      simp [signed, hcode]
    . exact s.not_mem_signed (by decide)
    . exact s.not_mem_signed (by decide)
  unfold Field.key at hdescr horder hshape
  unfold Header.parse
  rw [hdescr, horder, hshape]
  simp only [bind, Except.bind, hunquote, parseDescr_signed, parseShape_value]
  rfl

/--
The same spelling without blanks at the ends.
-/
def bare : Spelling :=
  { s with before := .spaces 0, behind := .spaces 0 }

theorem trim_text : trim s.text = s.bare.text := by
  have htrim : Trimmed s.bare.text ∧ s.bare.text ≠ [] := by
    have hends : s.bare.text
        = '\x7b' :: commaSeparated (s.fields.map s.entry) s.fieldsEnding ++ ['\x7d'] := rfl
    rw [hends]
    exact ⟨trimmed_of_ends (by decide) (by decide), by simp⟩
  have htext : s.text = s.before.chars ++ (s.bare.text ++ s.behind.chars) := by
    have hentry : s.bare.entry = s.entry := rfl
    unfold text
    rw [hentry]
    simp [bare, Blanks.spaces]
  rw [htext, htrim.1.trim_between htrim.2 s.before.isBlank s.behind.isBlank]

end Spelling

end Reading

/--
However a header is spelled, its element type and its shape are read. Its bytes are taken as swapped
if the sign says so and the elements have more than one.
-/
theorem parse_spelled (s : Spelling)
    : ∃ swapped, Header.parse s.text = .ok ⟨s.dtype, s.shape, swapped⟩ ∧
        (swapped = true ↔ s.order = .big ∧ 1 < s.dtype.size) :=
  ⟨s.header.swapped, s.parse_text, decide_eq_true_iff⟩

/--
The shape first, blanks around everything, and double quotes.
-/
def roomy : Spelling where
  dtype := .u16
  code := "u2"
  code_eq := rfl
  order := .big
  quote := .double
  dims := [⟨.spaces 1, 2, .spaces 2, by decide⟩, ⟨.spaces 1, 1, .spaces 0, by decide⟩]
  dimsEnding := some (.spaces 1)
  fields := [.shape, .descr, .order]
  fields_perm := by decide
  margins := fun _ => ⟨.spaces 1, .spaces 1, .spaces 2, .spaces 1⟩
  fieldsEnding := none
  before := .spaces 1
  behind := .spaces 3

example : roomy.text
    = (" \x7b 'shape' :  ( 2  , 1, ) , 'descr' :  \">u2\" , 'fortran_order' :  False " ++
        "\x7d   ").toList := by
  decide +kernel

end TensorFiles.Npy
