import TensorFiles.Gguf.Save
import TensorFiles.Proofs.Text.Pieces
/-!
This module contains the paths that files are saved under. A path gains the extension of its format
unless it has it, and with the extension the format is told from the path again.
-/

namespace TensorFiles

namespace Path

/--
The last character of a path belongs to a name.
-/
structure EndsInName (path : String) : Prop where
  nonempty : path ≠ ""
  last : path.toList.getLast? ≠ some '/'

theorem endsInName_iff_of_not_mem {path : String} (h : '/' ∉ path.toList)
    : EndsInName path ↔ path.toList ≠ [] := by
  constructor
  . rintro ⟨hne, _⟩ hnil
    apply hne
    apply String.toList_inj.1
    exact hnil
  . intro hne
    constructor
    . rintro rfl
      exact hne rfl
    . intro hlast
      exact h (List.mem_of_mem_getLast? hlast)

theorem endsInName_iff_of_append {path : String} {front last : List Char}
    (hpath : path.toList = front ++ '/' :: last) (h : '/' ∉ last)
    : EndsInName path ↔ last ≠ [] := by
  constructor
  . rintro ⟨_, hend⟩ rfl
    apply hend
    rw [hpath]
    simp
  . intro hne
    constructor
    . rintro rfl
      simp at hpath
    . rw [hpath, List.getLast?_append_cons, List.getLast?_cons_of_ne_nil hne]
      intro hlast
      exact h (List.mem_of_mem_getLast? hlast)

theorem fileName?_of_getLast? {path : String} {name : List Char} (hlength : 2 < name.length)
    (h : (Text.splitOn '/' path.toList).getLast? = some name) : fileName? path = some name := by
  have hlong {short : List Char} (hshort : short.length ≤ 2) : name ≠ short := by
    rintro rfl
    omega
  obtain ⟨front, hfront⟩ := List.getLast?_eq_some_iff.1 h
  have hnames : (names path).getLast? = some name := by
    unfold names
    rw [hfront, List.filter_append, List.filter_cons_of_pos, List.filter_nil, List.getLast?_concat]
    simp [hlong]
  unfold fileName?
  rw [hnames]
  dsimp only
  rw [if_neg (hlong (by decide))]

/--
What is appended to a path is appended to its last name, which may have been empty.
-/
theorem exists_fileName?_append (path : String) {more : List Char} (hslash : '/' ∉ more)
    (hlength : 2 < more.length)
    : ∃ stem, fileName? (path ++ String.ofList more) = some (stem ++ more) ∧
        (stem ≠ [] ↔ EndsInName path) := by
  have htext : (path ++ String.ofList more).toList = path.toList ++ more := by simp
  have hlong (stem : List Char) : 2 < (stem ++ more).length := by
    rw [List.length_append]
    omega
  cases Text.not_mem_or_exists_last '/' path.toList with
  | inl hnone =>
    refine ⟨path.toList, fileName?_of_getLast? (hlong _) ?_, (endsInName_iff_of_not_mem hnone).symm⟩
    rw [htext, Text.splitOn_of_not_mem (by simp [hnone, hslash])]
    rfl
  | inr hsome =>
    obtain ⟨front, last, hlast, hpath⟩ := hsome
    refine ⟨last, fileName?_of_getLast? (hlong _) ?_, (endsInName_iff_of_append hpath hlast).symm⟩
    have hpiece : Text.splitOn '/' (last ++ more) = [last ++ more] := by
      apply Text.splitOn_of_not_mem
      simp [hlast, hslash]
    rw [htext, hpath, List.append_assoc, List.cons_append, Text.splitOn_append_sep, hpiece,
      List.getLast?_concat]

section

variable {stem extension : List Char}

/--
The extension of a name is what follows its last dot, if anything is in front of the dot.
-/
theorem splitName_append (hdot : '.' ∉ extension)
    : splitName (stem ++ '.' :: extension)
        = if stem = [] then ('.' :: extension, none) else (stem, some extension) := by
  have hall : ∀ c ∈ extension.reverse, (c != '.') = true := by
    intro c hc
    rw [bne_iff_ne]
    rintro rfl
    exact hdot (List.mem_reverse.1 hc)
  have hname : (stem ++ '.' :: extension).reverse = extension.reverse ++ '.' :: stem.reverse := by
    simp
  have hlast : ((stem ++ '.' :: extension).reverse.takeWhile (· != '.')).reverse = extension := by
    rw [hname, List.takeWhile_append_of_pos hall]
    simp
  have hlength : (stem ++ '.' :: extension).length = stem.length + 1 + extension.length := by
    rw [List.length_append, List.length_cons]
    omega
  have hstem : (stem ++ '.' :: extension).take
      ((stem ++ '.' :: extension).length - extension.length - 1) = stem := by
    apply List.take_left'
    omega
  unfold splitName
  dsimp only
  rw [hlast, hstem]
  split
  . next h =>
    have hnil : stem = [] := by
      rcases h with h | h
      . omega
      . exact h
    rw [if_pos hnil, hnil]
    rfl
  . next h => rw [if_neg (fun hnil => h (.inr hnil))]

end

/--
Of the paths that an extension is appended to, those that end in a name have that extension.
-/
theorem hasExtension_append_iff {path extension : String} (hslash : '/' ∉ extension.toList)
    (hdot : '.' ∉ extension.toList) (hlength : 2 ≤ extension.toList.length)
    (hlower : extension.toList.map Char.toLower = extension.toList)
    : hasExtension extension (path ++ "." ++ extension) = true ↔ EndsInName path := by
  have htext : path ++ "." ++ extension = path ++ String.ofList ('.' :: extension.toList) := by
    apply String.toList_inj.1
    simp
  have hmore : '/' ∉ '.' :: extension.toList := by simp [hslash]
  have hlong : 2 < ('.' :: extension.toList).length := Nat.lt_succ_of_le hlength
  obtain ⟨stem, hname, hstem⟩ := exists_fileName?_append path hmore hlong
  rw [← hstem]
  unfold hasExtension extension?
  rw [htext, hname, Option.bind_some, splitName_append hdot]
  by_cases hnil : stem = []
  . simp [hnil]
  . simp [hnil, hlower]

theorem append_ne_self (path extension : String) : path ++ "." ++ extension ≠ path := by
  intro h
  have hlength := congrArg (fun s => s.toList.length) h
  simp only [String.toList_append, List.length_append] at hlength
  have hdot : ".".toList.length = 1 := rfl
  omega

end Path

namespace FileFormat

variable {format format' : FileFormat} {path : String}

theorem extension_inj (h : format.extension = format'.extension) : format = format' := by
  cases format <;> cases format' <;> simp_all [extension]

theorem eq_of_hasExtension (h : Path.hasExtension format.extension path = true)
    (h' : Path.hasExtension format'.extension path = true) : format = format' := by
  unfold Path.hasExtension at h h'
  split at h
  . next e he =>
    rw [he] at h'
    apply extension_inj
    apply String.toList_inj.1
    exact (beq_iff_eq.1 h).symm.trans (beq_iff_eq.1 h')
  . simp at h

theorem ofPath?_eq_some_iff
    : ofPath? path = some format ↔ Path.hasExtension format.extension path = true := by
  unfold ofPath?
  constructor
  . exact List.find?_some (p := fun f : FileFormat => Path.hasExtension f.extension path)
  . intro h
    have hmem : format ∈ all := by
      cases format <;> decide
    cases hfound : all.find? (fun f => Path.hasExtension f.extension path) with
    | none => exact absurd h (List.find?_eq_none.1 hfound format hmem)
    | some found =>
      have hhas := List.find?_some hfound
      rw [eq_of_hasExtension hhas h]

theorem hasExtension_append_iff
    : Path.hasExtension format.extension (path ++ "." ++ format.extension) = true
        ↔ Path.EndsInName path := by
  apply Path.hasExtension_append_iff
  all_goals cases format <;> decide

theorem normalize_eq_self_iff : format.normalize path = path ↔ ofPath? path = some format := by
  rw [ofPath?_eq_some_iff]
  unfold normalize Path.withExtension
  split
  . next h => simp [h]
  . next h => simp [h, Path.append_ne_self]

/--
The format of a path that a file is saved under is told, if there is a name to extend or the format
was told already.
-/
theorem ofPath?_normalize_iff
    : ofPath? (format.normalize path) = some format
        ↔ Path.EndsInName path ∨ ofPath? path = some format := by
  rw [ofPath?_eq_some_iff, ofPath?_eq_some_iff]
  unfold normalize Path.withExtension
  split
  . next h => simp [h]
  . next h => simp [h, hasExtension_append_iff]

/--
A path that ends in a name is saved under a path from which the format is told, and which is then
left as it is; containers and all other files get their extensions in the same way.
-/
theorem ofPath?_normalize
    : (∀ (format : FileFormat) (path : String), Path.EndsInName path →
        ofPath? (format.normalize path) = some format ∧
        format.normalize (format.normalize path) = format.normalize path ∧
        (format.normalize path = path ↔ ofPath? path = some format)) ∧
      ∀ path, Gguf.containerPath path = FileFormat.gguf.normalize path := by
  constructor
  . intro format path hends
    have htold : ofPath? (format.normalize path) = some format :=
      ofPath?_normalize_iff.2 (.inl hends)
    exact ⟨htold, normalize_eq_self_iff.2 htold, normalize_eq_self_iff⟩
  . intro path
    rfl

theorem ofPath?_normalize_stepUp
    : Path.EndsInName "x/.." ∧ FileFormat.npy.normalize "x/.." = "x/...npy" ∧
        ofPath? "x/...npy" = some .npy := by
  have hends : Path.EndsInName "x/.." := ⟨by decide, by decide⟩
  have hnormalize : FileFormat.npy.normalize "x/.." = "x/...npy" := by decide +kernel
  obtain ⟨htold, _, _⟩ := ofPath?_normalize.1 .npy "x/.." hends
  rw [hnormalize] at htold
  exact ⟨hends, hnormalize, htold⟩

end FileFormat

end TensorFiles
