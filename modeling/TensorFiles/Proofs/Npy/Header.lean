import TensorFiles.Proofs.Npy.Spelling
/-!
This module contains the round trip of headers: the dictionary that is written for an element type
and a shape is one of the spellings that are read as these.
-/

namespace TensorFiles.Npy.Header

open Text

/--
The text of a shape between its parentheses.
-/
def innerText : List Nat → List Char
  | [d] => Numeral.encode d ++ [',']
  | shape => [',', ' '].intercalate (shape.map Numeral.encode)

theorem toList_shapeText (shape : List Nat)
    : (shapeText shape).toList = '(' :: innerText shape ++ [')'] := by
  unfold shapeText innerText
  split
  . simp [number]
  . simp [String.toList_intercalate, number, Function.comp_def]

theorem not_mem_innerText {c : Char} (hdigit : isDigit c = false) (hcomma : c ≠ ',')
    (hspace : c ≠ ' ') (shape : List Nat) : c ∉ innerText shape := by
  intro h
  unfold innerText at h
  split at h
  . rw [List.mem_append, List.mem_singleton] at h
    cases h with
    | inl h => exact not_mem_encode hdigit h
    | inr h => exact hcomma h
  . cases mem_intercalate h with
    | inl h => simp [hcomma, hspace] at h
    | inr h =>
      obtain ⟨p, hp, hc⟩ := h
      obtain ⟨d, _, rfl⟩ := List.mem_map.1 hp
      exact not_mem_encode hdigit hc

theorem toList_dictionary (descr : String) (shape : List Nat)
    : (dictionary descr shape).toList
        =
      "\x7b'descr': '".toList ++ descr.toList ++ "', 'fortran_order': False, 'shape': ".toList ++
        (shapeText shape).toList ++ ", \x7d".toList := by
  simp [dictionary]

/--
The dimensions of a shape as they are written: a space in front of each but the first.
-/
def dims : (shape : List Nat) → (∀ d ∈ shape, d < wordBound) → List Dim
  | [], _ => []
  | d :: rest, h =>
    ⟨.spaces 0, d, .spaces 0, h d List.mem_cons_self⟩ ::
      rest.pmap (fun d hd => ⟨.spaces 1, d, .spaces 0, hd⟩)
        (fun d hd => h d (List.mem_cons_of_mem _ hd))

/--
How a dictionary is written. There is a comma behind a single dimension and behind the last entry.
-/
def spelling {dtype : DType} {code : String} (hcode : typeCode? dtype = some code) (shape : List Nat)
    (hshape : ∀ d ∈ shape, d < wordBound) : Spelling where
  dtype := dtype
  code := code
  code_eq := hcode
  order := if dtype.size = 1 then .irrelevant else .little
  quote := .single
  dims := dims shape hshape
  dimsEnding := if shape.length = 1 then some (.spaces 0) else none
  fields := [.descr, .order, .shape]
  fields_perm := .refl _
  margins := fun field =>
    ⟨.spaces (if field = .descr then 0 else 1), .spaces 0, .spaces 1, .spaces 0⟩
  fieldsEnding := some (.spaces 1)
  before := .spaces 0
  behind := .spaces 0

theorem map_size_dims {shape : List Nat} (h : ∀ d ∈ shape, d < wordBound)
    : (dims shape h).map Dim.size = shape := by
  cases shape with
  | nil => rfl
  | cons d rest => simp [dims, List.map_pmap]

theorem commaSeparated_dims {shape : List Nat} (h : ∀ d ∈ shape, d < wordBound)
    : commaSeparated ((dims shape h).map Dim.text)
        (if shape.length = 1 then some (.spaces 0) else none) = innerText shape := by
  match shape with
  | [] => rfl
  | [d] => simp [dims, innerText, commaSeparated, Dim.text, Blanks.spaces, List.intercalate_cons_cons]
  | d :: d' :: rest =>
    have hmap : (dims (d :: d' :: rest) h).map Dim.text
        = Numeral.encode d :: ((d' :: rest).map Numeral.encode).map ([' '] ++ ·) := by
      simp [dims, Dim.text, Blanks.spaces, List.map_pmap, List.pmap_eq_map]
    have hlength : ¬ (d :: d' :: rest).length = 1 := by simp
    have hspaced := intercalate_append [','] [' '] (Numeral.encode d)
      ((d' :: rest).map Numeral.encode)
    unfold commaSeparated innerText
    rw [hmap, if_neg hlength]
    simpa using hspaced.symm

theorem text_spelling {dtype : DType} {code : String} (hcode : typeCode? dtype = some code)
    {shape : List Nat} (hshape : ∀ d ∈ shape, d < wordBound)
    : (spelling hcode shape hshape).text
        = (dictionary ((if dtype.size = 1 then "|" else "<") ++ code) shape).toList := by
  have hsign : (if dtype.size = 1 then ByteOrder.irrelevant else .little).sign
      = (if dtype.size = 1 then "|" else "<").toList := by
    split
    . rfl
    . rfl
  have hdescr : (spelling hcode shape hshape).value .descr
      = '\'' :: ((if dtype.size = 1 then "|" else "<").toList ++ code.toList) ++ ['\''] := by
    rw [← hsign]
    rfl
  have hshapeText : (spelling hcode shape hshape).value .shape = (shapeText shape).toList := by
    rw [toList_shapeText, ← commaSeparated_dims hshape]
    rfl
  have hentry (field : Field) : (spelling hcode shape hshape).entry field
      = List.replicate (if field = .descr then 0 else 1) ' ' ++ '\'' :: field.key.toList ++
          '\'' :: [] ++ ':' :: [' '] ++ (spelling hcode shape hshape).value field ++ [] := rfl
  have htext : (spelling hcode shape hshape).text
      = [] ++ '\x7b' :: commaSeparated ([.descr, .order, .shape].map
          (spelling hcode shape hshape).entry) (some (.spaces 1)) ++ '\x7d' :: [] := rfl
  have horder : (spelling hcode shape hshape).value .order = "False".toList := rfl
  rw [htext, toList_dictionary]
  simp [commaSeparated, hentry, hdescr, horder, hshapeText, Field.key, Blanks.spaces,
    List.intercalate_cons_cons]

/--
The dictionary of an element type and a shape is read back as these.
-/
theorem parse_dictionary {dtype : DType} {descr : String} (h : descr? dtype = some descr)
    {shape : List Nat} (hshape : ∀ d ∈ shape, d < wordBound)
    : parse (dictionary descr shape).toList = .ok ⟨dtype, shape, false⟩ := by
  unfold descr? at h
  rw [Option.map_eq_some_iff] at h
  obtain ⟨code, hcode, rfl⟩ := h
  have hheader : (spelling hcode shape hshape).header = ⟨dtype, shape, false⟩ := by
    unfold Spelling.header Spelling.shape spelling
    simp only [map_size_dims, Header.mk.injEq, true_and, decide_eq_false_iff_not]
    split
    . simp
    . simp
  rw [← text_spelling hcode hshape, Spelling.parse_text, hheader]

end TensorFiles.Npy.Header
