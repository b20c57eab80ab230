/-!
This module contains finite maps from names to values. The entries are kept in strictly increasing
byte order of their names, so two tables with the same content are equal.
-/

namespace TensorFiles

structure Table (α : Type) where
  entries : List (String × α)
  sorted : entries.Pairwise (fun a b => a.1 < b.1)

namespace Table

def empty : Table α := ⟨[], .nil⟩

instance : Inhabited (Table α) := ⟨empty⟩

instance [DecidableEq α] : DecidableEq (Table α) := fun s t =>
  decidable_of_iff (s.entries = t.entries) (by cases s; cases t; simp)

@[ext]
theorem ext {s t : Table α} (h : s.entries = t.entries) : s = t := by
  cases s
  cases t
  simp_all

def size (t : Table α) : Nat := t.entries.length

def isEmpty (t : Table α) : Bool := t.entries.isEmpty

def keys (t : Table α) : List String := t.entries.map (·.1)

def find? (t : Table α) (key : String) : Option α :=
  go t.entries
where
  go : List (String × α) → Option α
    | [] => none
    | (k, v) :: rest => if k = key then some v else go rest

def contains (t : Table α) (key : String) : Bool :=
  (t.find? key).isSome

/--
Put `key` at its place in the order, replacing the value it had.
-/
def insertEntry (key : String) (value : α) : List (String × α) → List (String × α)
  | [] => [(key, value)]
  | (k, v) :: rest =>
    if key < k then
      (key, value) :: (k, v) :: rest
    else if key = k then
      (key, value) :: rest
    else
      (k, v) :: insertEntry key value rest

theorem mem_insertEntry {key : String} {value : α} {entries : List (String × α)}
    {e : String × α} (h : e ∈ insertEntry key value entries)
    : e = (key, value) ∨ e ∈ entries := by
  induction entries with
  | nil => simpa [insertEntry] using h
  | cons head rest ih =>
    obtain ⟨k, v⟩ := head
    unfold insertEntry at h
    split at h
    . simpa using h
    . split at h
      . simp only [List.mem_cons] at h ⊢
        cases h with
        | inl h => exact .inl h
        | inr h => exact .inr (.inr h)
      . simp only [List.mem_cons] at h ⊢
        cases h with
        | inl h => exact .inr (.inl h)
        | inr h =>
          cases ih h with
          | inl h => exact .inl h
          | inr h => exact .inr (.inr h)

theorem sorted_insertEntry (key : String) (value : α) {entries : List (String × α)}
    (h : entries.Pairwise (fun a b => a.1 < b.1))
    : (insertEntry key value entries).Pairwise (fun a b => a.1 < b.1) := by
  induction entries with
  | nil => simp [insertEntry]
  | cons head rest ih =>
    obtain ⟨k, v⟩ := head
    rw [List.pairwise_cons] at h
    obtain ⟨hhead, hrest⟩ := h
    unfold insertEntry
    split
    . next hlt =>
      refine List.pairwise_cons.2 ⟨?_, List.pairwise_cons.2 ⟨hhead, hrest⟩⟩
      intro e he
      cases he with
      | head => exact hlt
      | tail _ he => exact String.lt_trans hlt (hhead e he)
    . split
      . next heq =>
        subst heq
        exact List.pairwise_cons.2 ⟨hhead, hrest⟩
      . next hnlt hne =>
        refine List.pairwise_cons.2 ⟨?_, ih hrest⟩
        intro e he
        cases mem_insertEntry he with
        | inl he =>
          subst he
          exact Decidable.byContradiction fun hk =>
            hne (String.le_antisymm (String.not_lt.1 hk) (String.not_lt.1 hnlt))
        | inr he => exact hhead e he

def insert (t : Table α) (key : String) (value : α) : Table α :=
  ⟨insertEntry key value t.entries, sorted_insertEntry key value t.sorted⟩

/--
The table of a list of pairs, in which a later pair replaces an earlier one of the same name.
-/
def ofList (pairs : List (String × α)) : Table α :=
  pairs.foldl (fun t p => t.insert p.1 p.2) empty

/--
Change every value and keep the names.
-/
def map (f : String → α → β) (t : Table α) : Table β :=
  ⟨t.entries.map (fun p => (p.1, f p.1 p.2)), List.Pairwise.map _ (fun _ _ h => h) t.sorted⟩

end Table

end TensorFiles
