import TensorFiles.Enumeration
import TensorFiles.Proofs.Bytes.Order
import TensorFiles.Proofs.Table
/-!
This module contains the laws of enumerated maps: whatever the order in which the entries are
listed, the names that are sorted and looked up give the entries of one table.
-/

namespace TensorFiles.Enumeration

/--
The map that is listed.
-/
def table (e : Enumeration α) : Table α :=
  Table.ofList e.entries

variable {e : Enumeration α}

theorem find?_eq_some_iff {key : String} {value : α}
    : e.find? key = some value ↔ (key, value) ∈ e.entries := by
  obtain ⟨entries, hnodup⟩ := e
  unfold find?
  dsimp only
  induction entries with
  | nil => simp
  | cons entry rest ih =>
    obtain ⟨k, v⟩ := entry
    rw [List.map_cons, List.nodup_cons] at hnodup
    by_cases hk : k = key
    . subst hk
      have hnot : (k, value) ∉ rest := fun hmem => hnodup.1 (List.mem_map.2 ⟨_, hmem, rfl⟩)
      simp only [List.find?_cons, decide_true, Option.map_some, Option.some.injEq, List.mem_cons,
        Prod.mk.injEq, true_and, hnot, or_false]
      exact eq_comm
    . simp [hk, Ne.symm hk, ih hnodup.2]

theorem find?_table (e : Enumeration α) (key : String) : e.table.find? key = e.find? key := by
  apply Option.ext
  intro value
  rw [find?_eq_some_iff]
  refine (Table.find?_insertAll e.nodup .empty).trans ?_
  simp

theorem sortedKeys_perm (e : Enumeration α) : e.sortedKeys.Perm (e.entries.map (·.1)) :=
  List.mergeSort_perm _ _

/--
The names are in strictly increasing byte order.
-/
theorem pairwise_sortedKeys (e : Enumeration α)
    : e.sortedKeys.Pairwise (fun a b => Utf8.encode a < Utf8.encode b) := by
  have hle : e.sortedKeys.Pairwise (fun a b => a ≤ b) := by
    have htrans : ∀ a b c : String, decide (Utf8.encode a ≤ Utf8.encode b) →
        decide (Utf8.encode b ≤ Utf8.encode c) → decide (Utf8.encode a ≤ Utf8.encode c) := by
      simp only [decide_eq_true_eq, Utf8.encode_le_encode_iff]
      exact fun _ _ _ => String.le_trans
    have htotal : ∀ a b : String,
        decide (Utf8.encode a ≤ Utf8.encode b) || decide (Utf8.encode b ≤ Utf8.encode a) := by
      simp only [Bool.or_eq_true, decide_eq_true_eq, Utf8.encode_le_encode_iff]
      exact String.le_total
    have hsorted := List.pairwise_mergeSort htrans htotal (e.entries.map (·.1))
    exact hsorted.imp (fun h => Utf8.encode_le_encode_iff.1 (of_decide_eq_true h))
  have hne : e.sortedKeys.Pairwise (fun a b => a ≠ b) := e.sortedKeys_perm.nodup_iff.2 e.nodup
  refine hle.imp₂ ?_ hne
  intro a b hab hdistinct
  rw [Utf8.encode_lt_encode_iff]
  exact Decidable.byContradiction fun hlt =>
    hdistinct (String.le_antisymm hab (String.not_lt.1 hlt))

theorem mem_sortedEntries {entry : String × α} : entry ∈ e.sortedEntries ↔ entry ∈ e.entries := by
  obtain ⟨key, value⟩ := entry
  unfold sortedEntries
  rw [← find?_eq_some_iff]
  simp only [List.mem_filterMap, Option.map_eq_some_iff, Prod.mk.injEq]
  constructor
  . rintro ⟨_, _, _, hfind, rfl, rfl⟩
    exact hfind
  . intro hfind
    have hkey := List.mem_map_of_mem (f := (·.1)) (find?_eq_some_iff.1 hfind)
    exact ⟨key, e.sortedKeys_perm.mem_iff.2 hkey, value, hfind, rfl, rfl⟩

theorem sortedEntries_eq (e : Enumeration α) : e.sortedEntries = e.table.entries := by
  have hsorted : e.sortedEntries.Pairwise (fun a b => a.1 < b.1) := by
    unfold sortedEntries
    rw [List.pairwise_filterMap]
    refine e.pairwise_sortedKeys.imp ?_
    intro key key' hlt entry hentry entry' hentry'
    obtain ⟨_, _, rfl⟩ := Option.map_eq_some_iff.1 hentry
    obtain ⟨_, _, rfl⟩ := Option.map_eq_some_iff.1 hentry'
    exact Utf8.encode_lt_encode_iff.1 hlt
  have htable : (⟨e.sortedEntries, hsorted⟩ : Table α) = e.table := by
    apply Table.ext_find?
    intro key
    apply Option.ext
    intro value
    rw [Table.find?_eq_some_iff, mem_sortedEntries, find?_table, find?_eq_some_iff]
  exact congrArg Table.entries htable

theorem entries_table_perm (e : Enumeration α) : e.table.entries.Perm e.entries :=
  Table.entries_ofList_perm e.nodup

theorem keys_table_perm (e : Enumeration α) : e.table.keys.Perm (e.entries.map (·.1)) :=
  e.entries_table_perm.map Prod.fst

theorem pairwise_keys_table (e : Enumeration α)
    : e.table.keys.Pairwise (fun a b => Utf8.encode a < Utf8.encode b) := by
  unfold Table.keys
  rw [List.pairwise_map]
  exact e.table.sorted.imp Utf8.encode_lt_encode_iff.2

theorem table_eq_of_perm {e' : Enumeration α} (h : e.entries.Perm e'.entries)
    : e'.table = e.table :=
  Table.insertAll_eq_of_perm e.nodup h .empty

end TensorFiles.Enumeration
