import TensorFiles.Proofs.Json.RoundTrip
import TensorFiles.Proofs.Result
import TensorFiles.Proofs.Table
import TensorFiles.SafeTensors.Header
/-!
This module contains the round trip of headers through JSON: the table of strings and the entries
are read back from the fields they are written as, unless a tensor has the name of the table.
-/

namespace TensorFiles.SafeTensors

theorem mapM_map_eq_some {f : α → β} {g : β → Option α} (l : List α)
    (h : ∀ a ∈ l, g (f a) = some a) : (l.map f).mapM g = some l := by
  induction l with
  | nil => rfl
  | cons a l ih =>
    rw [List.forall_mem_cons] at h
    rw [List.map_cons, List.mapM_cons, h.1, ih h.2]
    rfl

namespace Entry

theorem ofJson?_toJson (e : Entry) : ofJson? e.toJson = some e := by
  have hshape : shape? (.array (e.shape.map .nat)) = some e.shape :=
    mapM_map_eq_some e.shape (fun _ _ => rfl)
  have hparts : ofParts? (.string e.type.name) (.array (e.shape.map .nat))
      (.array [.nat e.start, .nat e.stop]) = some e := by
    unfold ofParts?
    simp [type?, hshape, range?, nat?, Json.nat]
  simp [ofJson?, toJson, Json.fieldsNamed, hparts]

theorem plain_toJson {e : Entry} (hdims : ∀ d ∈ e.shape, d < wordBound) (hstart : e.start < wordBound)
    (hstop : e.stop < wordBound) (depth : Nat) : Json.Plain (depth + 2) e.toJson := by
  apply Json.Plain.object
  simp only [List.forall_mem_cons, List.not_mem_nil, false_implies, implies_true, and_true]
  refine ⟨.string _, .array ?_, .array ?_⟩
  . rw [List.forall_mem_map]
    exact fun d hd => .nat (hdims d hd)
  . simp only [List.forall_mem_cons, List.not_mem_nil, false_implies, implies_true, and_true]
    exact ⟨.nat hstart, .nat hstop⟩

end Entry

namespace Header

/--
The field of the table of strings, if it has any.
-/
def tableFields (metadata : Table String) : List (String × Json) :=
  if metadata.isEmpty then
    []
  else
    [(metadataKey, .object (metadata.entries.map (fun e => (e.1, .string e.2))))]

variable {metadata : Table String} {entries : List (String × Entry)}

theorem toJson_eq (metadata : Table String) (entries : List (String × Entry))
    : toJson metadata entries
        = .object (tableFields metadata ++ entries.map (fun e => (e.1, e.2.toJson))) :=
  rfl

theorem metadata?_tableFields (metadata : Table String)
    : metadata? ((tableFields metadata).map (·.2)) = some metadata := by
  unfold tableFields
  split
  . next hempty =>
    have hentries : metadata.entries = [] := by
      unfold Table.isEmpty at hempty
      exact List.isEmpty_iff.1 hempty
    exact congrArg some (Table.ext hentries.symm)
  . simp only [List.map_cons, List.map_nil, metadata?]
    rw [mapM_map_eq_some]
    . exact congrArg some metadata.insertAll_entries
    . exact fun _ _ => rfl

theorem fieldsNamed_toJson (metadata : Table String) (entries : List (String × Entry))
    : Json.fieldsNamed metadataKey
        (tableFields metadata ++ entries.map (fun e => (e.1, e.2.toJson)))
          = (tableFields metadata).map (·.2)
            ++ (entries.filter (fun e => e.1 == metadataKey)).map (·.2.toJson) := by
  have htable : (tableFields metadata).filter (fun f => f.1 == metadataKey)
      = tableFields metadata := by
    unfold tableFields
    split <;> simp
  unfold Json.fieldsNamed
  rw [List.filter_append, htable, List.filter_map, List.map_append, List.map_map]
  rfl

theorem ofJson?_toJson (hnames : ∀ e ∈ entries, e.1 ≠ metadataKey)
    : ofJson? (toJson metadata entries) = some ⟨metadata, Table.ofList entries⟩ := by
  have htable : ∀ f ∈ tableFields metadata, f.1 = metadataKey := by
    unfold tableFields
    split <;> simp
  have hothers : ∀ f ∈ entries.map (fun e => (e.1, e.2.toJson)), f.1 ≠ metadataKey := by
    rw [List.forall_mem_map]
    exact hnames
  have hnamed : entries.filter (fun e => e.1 == metadataKey) = [] :=
    List.filter_eq_nil_iff.2 (fun e he => by simpa using hnames e he)
  have hrest : (tableFields metadata ++ entries.map (fun e => (e.1, e.2.toJson))).filter
      (fun f => f.1 != metadataKey) = entries.map (fun e => (e.1, e.2.toJson)) := by
    rw [List.filter_append, List.filter_eq_nil_iff.2 (by simpa using htable),
      List.filter_eq_self.2 (fun f hf => by simpa using hothers f hf), List.nil_append]
  rw [toJson_eq]
  unfold ofJson?
  simp only [fieldsNamed_toJson, hnamed, hrest, List.map_nil, List.append_nil,
    metadata?_tableFields]
  rw [Option.bind_eq_bind, Option.bind_some, mapM_map_eq_some]
  . rfl
  . intro e _
    rw [Entry.ofJson?_toJson]
    rfl

theorem metadata?_entry_cons (e : Entry) (values : List Json)
    : metadata? (e.toJson :: values) = none := by
  cases values with
  | nil => simp [metadata?, Entry.toJson, string?]
  | cons value values => rfl

/--
An entry with the name of the table of strings is taken for the table, or for a second one.
-/
theorem ofJson?_toJson_of_mem (h : metadataKey ∈ entries.map (·.1))
    : ofJson? (toJson metadata entries) = none := by
  obtain ⟨e, he, hname⟩ := List.mem_map.1 h
  have hmem : e ∈ entries.filter (fun e => e.1 == metadataKey) :=
    List.mem_filter.2 ⟨he, beq_iff_eq.2 hname⟩
  have hnone : metadata? ((tableFields metadata).map (·.2)
      ++ (entries.filter (fun e => e.1 == metadataKey)).map (·.2.toJson)) = none := by
    cases hnamed : entries.filter (fun e => e.1 == metadataKey) with
    | nil =>
      rw [hnamed] at hmem
      simp at hmem
    | cons e' named =>
      unfold tableFields
      split
      . exact metadata?_entry_cons e'.2 _
      . rfl
  rw [toJson_eq]
  unfold ofJson?
  simp only [fieldsNamed_toJson, hnone]
  rfl

theorem plain_toJson
    (hentries : ∀ e ∈ entries, ∀ d ∈ e.2.shape, d < wordBound)
    (hranges : ∀ e ∈ entries, e.2.start < wordBound ∧ e.2.stop < wordBound)
    : Json.Plain Json.maxDepth (toJson metadata entries) := by
  rw [toJson_eq]
  apply Json.Plain.object
  intro f hf
  rw [List.mem_append, List.mem_map] at hf
  rcases hf with hf | ⟨e, he, rfl⟩
  . unfold tableFields at hf
    split at hf
    . simp at hf
    . rw [List.mem_singleton] at hf
      rw [hf]
      apply Json.Plain.object
      rw [List.forall_mem_map]
      exact fun _ _ => .string _
  . obtain ⟨hstart, hstop⟩ := hranges e he
    exact Entry.plain_toJson (hentries e he) hstart hstop 124

end Header

end TensorFiles.SafeTensors
