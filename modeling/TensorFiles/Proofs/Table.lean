import TensorFiles.Table
/-!
This module contains the laws of tables: what is found after insertions, and that a table is known
by what is found in it.
-/

namespace TensorFiles.Table

/--
Put entries into a table, one after the other.
-/
def insertAll (t : Table α) (entries : List (String × α)) : Table α :=
  entries.foldl (fun t e => t.insert e.1 e.2) t

theorem insertAll_nil (t : Table α) : t.insertAll [] = t := rfl

theorem insertAll_cons (t : Table α) (e : String × α) (entries : List (String × α))
    : t.insertAll (e :: entries) = (t.insert e.1 e.2).insertAll entries := rfl

theorem mem_of_mem_insertAll {t : Table α} {entries : List (String × α)} {e : String × α}
    (h : e ∈ (t.insertAll entries).entries) : e ∈ t.entries ∨ e ∈ entries := by
  induction entries generalizing t with
  | nil => exact .inl h
  | cons first entries ih =>
    rw [insertAll_cons] at h
    cases ih h with
    | inl hinsert =>
      cases mem_insertEntry hinsert with
      | inl heq => exact .inr (heq ▸ List.mem_cons_self)
      | inr hold => exact .inl hold
    | inr hrest => exact .inr (List.mem_cons_of_mem first hrest)

theorem mem_of_mem_ofList {entries : List (String × α)} {e : String × α}
    (h : e ∈ (ofList entries).entries) : e ∈ entries := by
  cases mem_of_mem_insertAll (t := empty) h with
  | inl hempty => simp [empty] at hempty
  | inr hmem => exact hmem

@[simp]
theorem find?_empty (key : String) : (empty : Table α).find? key = none := rfl

theorem go_insertEntry (key : String) (value : α) (entries : List (String × α)) (k : String)
    : find?.go k (insertEntry key value entries)
        = if k = key then some value else find?.go k entries := by
  induction entries with
  | nil =>
    unfold insertEntry
    simp only [find?.go, eq_comm]
  | cons e rest ih =>
    obtain ⟨k₀, v₀⟩ := e
    unfold insertEntry
    split
    . simp only [find?.go, eq_comm]
    . split
      . next _ heq =>
        subst heq
        simp only [find?.go]
        by_cases hk : k = key
        . simp [hk]
        . simp [hk, Ne.symm hk]
      . next _ hne =>
        simp only [find?.go]
        by_cases hk : k₀ = k
        . subst hk
          simp [Ne.symm hne]
        . simp only [hk, if_false]
          exact ih

theorem find?_insert (t : Table α) (key : String) (value : α) (k : String)
    : (t.insert key value).find? k = if k = key then some value else t.find? k :=
  go_insertEntry key value t.entries k

theorem keys_nodup (t : Table α) : t.keys.Nodup := by
  unfold keys List.Nodup
  rw [List.pairwise_map]
  apply t.sorted.imp
  intro a b hlt heq
  rw [heq] at hlt
  exact String.lt_irrefl b.1 hlt

theorem find?_eq_some_iff {t : Table α} {key : String} {value : α}
    : t.find? key = some value ↔ (key, value) ∈ t.entries := by
  have hnodup := t.keys_nodup
  unfold keys at hnodup
  unfold find?
  generalize t.entries = entries at hnodup ⊢
  induction entries with
  | nil => simp [find?.go]
  | cons e rest ih =>
    obtain ⟨k, v⟩ := e
    rw [List.map_cons, List.nodup_cons] at hnodup
    simp only [find?.go]
    split
    . next heq =>
      subst heq
      have hnot : (k, value) ∉ rest := fun hmem => hnodup.1 (List.mem_map.2 ⟨_, hmem, rfl⟩)
      simp only [Option.some.injEq, List.mem_cons, Prod.mk.injEq, true_and, hnot, or_false]
      exact eq_comm
    . next hne =>
      have hrest := ih hnodup.2
      simp [Ne.symm hne, hrest]

theorem mem_keys_iff {t : Table α} {key : String} : key ∈ t.keys ↔ ∃ v, t.find? key = some v := by
  unfold keys
  simp [find?_eq_some_iff]

theorem contains_iff {t : Table α} {key : String} : t.contains key = true ↔ key ∈ t.keys := by
  unfold contains
  rw [Option.isSome_iff_exists, mem_keys_iff]

theorem contains_insert (t : Table α) (key : String) (value : α) (k : String)
    : (t.insert key value).contains k = true ↔ k = key ∨ t.contains k = true := by
  unfold contains
  rw [find?_insert]
  split
  . next h => simp [h]
  . next h => simp [h]

theorem ext_find? {s t : Table α} (h : ∀ key, s.find? key = t.find? key) : s = t := by
  have hnodup (t : Table α) : t.entries.Nodup := by
    have hkeys := t.keys_nodup
    unfold keys List.Nodup at hkeys
    rw [List.pairwise_map] at hkeys
    exact hkeys.imp (fun hne heq => hne (congrArg _ heq))
  have hmem : ∀ e, e ∈ s.entries ↔ e ∈ t.entries := by
    intro e
    rw [← find?_eq_some_iff, ← find?_eq_some_iff, h]
  -- two sorted lists with the same members are the same
  apply Table.ext
  apply List.Perm.eq_of_pairwise _ s.sorted t.sorted
  . exact (List.perm_ext_iff_of_nodup (hnodup s) (hnodup t)).2 hmem
  . intro a b _ _ hab hba
    exact absurd (String.lt_trans hab hba) (String.lt_irrefl a.1)

theorem find?_insertAll {entries : List (String × α)} (h : (entries.map (·.1)).Nodup)
    (t : Table α) {key : String} {value : α}
    : (t.insertAll entries).find? key = some value ↔
      (key, value) ∈ entries ∨ (key ∉ entries.map (·.1) ∧ t.find? key = some value) := by
  induction entries generalizing t with
  | nil => simp [insertAll_nil]
  | cons e entries ih =>
    obtain ⟨k, v⟩ := e
    rw [List.map_cons, List.nodup_cons] at h
    rw [insertAll_cons, ih h.2, find?_insert]
    by_cases heq : key = k
    . subst heq
      have hnot : (key, value) ∉ entries := fun hmem => h.1 (List.mem_map.2 ⟨_, hmem, rfl⟩)
      simp only [hnot, h.1, not_false_eq_true, true_and, if_true, false_or, List.mem_cons,
        Prod.mk.injEq, Option.some.injEq, or_false, List.map_cons, not_true, false_and]
      exact eq_comm
    . simp [heq]

/--
Entries that are put in another order give the same table if no two of them have the same name.
-/
theorem insertAll_eq_of_perm {entries entries' : List (String × α)}
    (hnodup : (entries.map (·.1)).Nodup) (h : entries.Perm entries') (t : Table α)
    : t.insertAll entries' = t.insertAll entries := by
  have hmap := h.map (·.1)
  apply ext_find?
  intro key
  apply Option.ext
  intro value
  rw [find?_insertAll (hmap.nodup_iff.1 hnodup), find?_insertAll hnodup, h.mem_iff, hmap.mem_iff]

theorem find?_insertAll_congr {s t : Table α} {key : String} (h : s.find? key = t.find? key)
    (entries : List (String × α))
    : (s.insertAll entries).find? key = (t.insertAll entries).find? key := by
  induction entries generalizing s t with
  | nil => exact h
  | cons e entries ih =>
    rw [insertAll_cons, insertAll_cons]
    apply ih
    rw [find?_insert, find?_insert, h]

theorem find?_insertAll_filter (t : Table α) (entries : List (String × α)) (key : String)
    : (t.insertAll (entries.filter (·.1 = key))).find? key = (t.insertAll entries).find? key := by
  induction entries generalizing t with
  | nil => rfl
  | cons e entries ih =>
    rw [insertAll_cons]
    by_cases he : e.1 = key
    . rw [List.filter_cons_of_pos (by simpa using he), insertAll_cons]
      exact ih (t.insert e.1 e.2)
    . rw [List.filter_cons_of_neg (by simpa using he), ih t]
      apply find?_insertAll_congr
      rw [find?_insert, if_neg (Ne.symm he)]

/--
Of entries with the same name the last one counts, so only their order matters.
-/
theorem insertAll_eq_of_filter {entries entries' : List (String × α)}
    (h : ∀ key, entries'.filter (·.1 = key) = entries.filter (·.1 = key)) (t : Table α)
    : t.insertAll entries' = t.insertAll entries := by
  apply ext_find?
  intro key
  rw [← find?_insertAll_filter, h, find?_insertAll_filter]

theorem mem_keys_insertAll {entries : List (String × α)} (h : (entries.map (·.1)).Nodup)
    (t : Table α) {key : String}
    : key ∈ (t.insertAll entries).keys ↔ key ∈ entries.map (·.1) ∨ key ∈ t.keys := by
  simp only [mem_keys_iff, find?_insertAll h]
  constructor
  . rintro ⟨v, hv | ⟨_, hv⟩⟩
    . exact .inl (List.mem_map_of_mem hv)
    . exact .inr ⟨v, hv⟩
  . intro hkey
    by_cases hmem : key ∈ entries.map (·.1)
    . obtain ⟨e, he, rfl⟩ := List.mem_map.1 hmem
      exact ⟨e.2, .inl he⟩
    . cases hkey with
      | inl hkey => exact absurd hkey hmem
      | inr hkey =>
        obtain ⟨v, hv⟩ := hkey
        exact ⟨v, .inr ⟨hmem, hv⟩⟩

/--
An entry of another name can as well be put in last.
-/
theorem insertAll_insert {entries : List (String × α)} (h : (entries.map (·.1)).Nodup)
    (t : Table α) {key : String} (hkey : key ∉ entries.map (·.1)) (value : α)
    : (t.insert key value).insertAll entries = (t.insertAll entries).insert key value := by
  apply ext_find?
  intro k
  apply Option.ext
  intro v
  rw [find?_insertAll h, find?_insert, find?_insert]
  by_cases hk : k = key
  . subst hk
    have hnot : (k, v) ∉ entries := fun hmem => hkey (List.mem_map.2 ⟨_, hmem, rfl⟩)
    simp [hnot, hkey]
  . rw [if_neg hk, if_neg hk, find?_insertAll h]

theorem insertAll_entries (t : Table α) : empty.insertAll t.entries = t := by
  apply ext_find?
  intro key
  apply Option.ext
  intro value
  rw [find?_insertAll t.keys_nodup, find?_empty, ← find?_eq_some_iff]
  simp

theorem entries_ofList_perm {entries : List (String × α)} (h : (entries.map (·.1)).Nodup)
    : (ofList entries).entries.Perm entries := by
  have hnodup {entries : List (String × α)} (h : (entries.map (·.1)).Nodup) : entries.Nodup :=
    (List.pairwise_map.1 h).imp (fun hne heq => hne (congrArg Prod.fst heq))
  rw [List.perm_ext_iff_of_nodup (hnodup (ofList entries).keys_nodup) (hnodup h)]
  rintro ⟨key, value⟩
  rw [← find?_eq_some_iff]
  refine (find?_insertAll h .empty).trans ?_
  simp

theorem length_insertEntry_le (key : String) (value : α) (entries : List (String × α))
    : (insertEntry key value entries).length ≤ entries.length + 1 := by
  induction entries with
  | nil => simp [insertEntry]
  | cons e entries ih =>
    unfold insertEntry
    split
    . exact Nat.le_refl _
    . split
      . exact Nat.le_succ _
      . exact Nat.succ_le_succ ih

theorem length_insertAll_le (t : Table α) (entries : List (String × α))
    : (t.insertAll entries).entries.length ≤ t.entries.length + entries.length := by
  induction entries generalizing t with
  | nil => exact Nat.le_refl _
  | cons e entries ih =>
    have hinsert : (t.insert e.1 e.2).entries.length ≤ t.entries.length + 1 :=
      length_insertEntry_le e.1 e.2 t.entries
    have hrest := ih (t.insert e.1 e.2)
    rw [insertAll_cons, List.length_cons]
    omega

theorem length_ofList_le (entries : List (String × α))
    : (ofList entries).entries.length ≤ entries.length := by
  have h := length_insertAll_le .empty entries
  rw [show (empty : Table α).entries.length = 0 from rfl, Nat.zero_add] at h
  exact h

theorem find?_map (f : String → α → β) (t : Table α) (key : String)
    : (t.map f).find? key = (t.find? key).map (f key) := by
  apply Option.ext
  intro v
  have hmem : (key, v) ∈ (t.map f).entries ↔ ∃ e ∈ t.entries, (e.1, f e.1 e.2) = (key, v) :=
    List.mem_map
  rw [find?_eq_some_iff, hmem, Option.map_eq_some_iff]
  constructor
  . rintro ⟨⟨k, w⟩, he, heq⟩
    cases heq
    exact ⟨w, find?_eq_some_iff.2 he, rfl⟩
  . rintro ⟨w, hw, rfl⟩
    exact ⟨(key, w), find?_eq_some_iff.1 hw, rfl⟩

theorem map_map (f : String → α → β) (g : String → β → γ) (t : Table α)
    : (t.map f).map g = t.map (fun key value => g key (f key value)) := by
  have hentries : ((t.map f).map g).entries
      = (t.entries.map (fun e => (e.1, f e.1 e.2))).map (fun e => (e.1, g e.1 e.2)) := rfl
  apply Table.ext
  rw [hentries, List.map_map]
  rfl

theorem keys_map (f : String → α → β) (t : Table α) : (t.map f).keys = t.keys := by
  unfold keys map
  rw [List.map_map]
  rfl

/--
A list of values for the names of a table is a table again.
-/
theorem exists_table_of_keys {t : Table α} {entries : List (String × β)}
    (h : entries.map (·.1) = t.keys) : ∃ s : Table β, s.entries = entries := by
  have hsorted := t.sorted
  rw [← List.pairwise_map (R := (· < ·))] at hsorted
  unfold keys at h
  rw [← h, List.pairwise_map] at hsorted
  exact ⟨⟨entries, hsorted⟩, rfl⟩

end TensorFiles.Table
