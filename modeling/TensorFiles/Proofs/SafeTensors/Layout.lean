import Mathlib.Algebra.GroupWithZero.Nat
import Mathlib.Data.List.Forall2
import TensorFiles.Proofs.Table
import TensorFiles.SafeTensors.Archive
/-!
This module contains the layout of the bytes of all tensors: each entry that is placed holds the
bytes of its tensor, and the order of the entries by their ranges has no gaps. Entries without bytes
may change places, but the ranges that follow each other are the same.
-/

namespace TensorFiles.SafeTensors

/--
The first and the last place of the bytes of an entry.
-/
def range (e : String × Entry) : Nat × Nat := (e.2.start, e.2.stop)

/--
An entry whose range has the size of its elements.
-/
def Sized (e : String × Entry) : Prop :=
  e.2.start ≤ e.2.stop ∧ Header.size e.2 = .ok (e.2.stop - e.2.start)

namespace Header

theorem isBefore_iff {a b : String × Entry}
    : isBefore a b = true ↔ a.2.start < b.2.start ∨ a.2.start = b.2.start ∧ a.2.stop ≤ b.2.stop := by
  simp [isBefore]

theorem layout_perm (h : Header) : h.layout.Perm h.entries.entries :=
  List.mergeSort_perm _ _

theorem pairwise_layout (h : Header) : h.layout.Pairwise (fun a b => isBefore a b = true) := by
  apply List.pairwise_mergeSort
  . intro a b c hab hbc
    rw [isBefore_iff] at hab hbc ⊢
    omega
  . intro a b
    rw [Bool.or_eq_true, isBefore_iff, isBefore_iff]
    omega

/--
Lists of entries in order that are permutations of each other have the same ranges.
-/
theorem map_range_eq {l l' : List (String × Entry)} (hperm : l.Perm l')
    (hl : l.Pairwise (fun a b => isBefore a b = true))
    (hl' : l'.Pairwise (fun a b => isBefore a b = true)) : l.map range = l'.map range := by
  have hsorted {l : List (String × Entry)} (h : l.Pairwise (fun a b => isBefore a b = true))
      : (l.map range).Pairwise (fun p q => p.1 < q.1 ∨ p.1 = q.1 ∧ p.2 ≤ q.2) := by
    rw [List.pairwise_map]
    exact h.imp isBefore_iff.1
  apply List.Perm.eq_of_pairwise _ (hsorted hl) (hsorted hl') (hperm.map range)
  rintro ⟨i, j⟩ ⟨i', j'⟩ _ _ hpq hqp
  rw [Prod.mk.injEq]
  dsimp only at hpq hqp
  omega

end Header

/--
The number of bytes of all tensors.
-/
def totalLength (tensors : List Prepared) : Nat :=
  (tensors.map (fun t => t.data.length)).sum

theorem totalLength_cons (t : Prepared) (tensors : List Prepared)
    : totalLength (t :: tensors) = t.data.length + totalLength tensors := rfl

theorem arrange_perm (tensors : List Prepared) : (arrange tensors).Perm tensors :=
  List.mergeSort_perm tensors _

theorem length_flatMap_data (tensors : List Prepared)
    : (tensors.flatMap (·.data)).length = totalLength tensors :=
  List.length_flatMap

/--
Entries whose ranges are those of tensors that follow each other end where the tensors do.
-/
theorem endFrom_of_map_range {start : Nat} {tensors : List Prepared} {l : List (String × Entry)}
    (hranges : l.map range = (place start tensors).map range) (hsized : ∀ e ∈ l, Sized e)
    : Header.endFrom start l = .ok (start + totalLength tensors) := by
  induction tensors generalizing start l with
  | nil =>
    rw [place, List.map_nil, List.map_eq_nil_iff] at hranges
    rw [hranges]
    rfl
  | cons t tensors ih =>
    cases l with
    | nil => simp [place] at hranges
    | cons e l =>
      rw [place, List.map_cons, List.map_cons, List.cons.injEq, range, range, Prod.mk.injEq]
        at hranges
      rw [List.forall_mem_cons] at hsized
      obtain ⟨⟨hstart, hstop⟩, hrest⟩ := hranges
      obtain ⟨hle, hsize⟩ := hsized.1
      dsimp only at hstart hstop
      have hfollows : ¬ (e.2.start ≠ start ∨ e.2.stop < e.2.start) := by omega
      unfold Header.endFrom
      rw [if_neg hfollows, hsize]
      simp only [if_true]
      rw [hstop, ih hrest hsized.2, totalLength_cons, Nat.add_assoc]

theorem le_of_mem_place {start : Nat} {tensors : List Prepared}
    : ∀ e ∈ place start tensors, start ≤ e.2.start ∧ e.2.start ≤ e.2.stop ∧
        e.2.stop ≤ start + totalLength tensors := by
  induction tensors generalizing start with
  | nil => simp [place]
  | cons t tensors ih =>
    rw [place, List.forall_mem_cons, totalLength_cons]
    refine ⟨⟨Nat.le_refl start, Nat.le_add_right _ _, ?_⟩, ?_⟩
    . dsimp only
      omega
    . intro e he
      have := ih e he
      omega

theorem pairwise_place (start : Nat) (tensors : List Prepared)
    : (place start tensors).Pairwise (fun a b => Header.isBefore a b = true) := by
  induction tensors generalizing start with
  | nil => exact .nil
  | cons t tensors ih =>
    rw [place, List.pairwise_cons]
    refine ⟨?_, ih _⟩
    intro e he
    have := le_of_mem_place e he
    rw [Header.isBefore_iff]
    dsimp only
    omega

/--
An entry for a tensor, whose bytes are those of the tensor.
-/
structure Places (data : List UInt8) (t : Prepared) (e : String × Entry) : Prop where
  name : e.1 = t.name
  type : e.2.type = t.type
  shape : e.2.shape = t.shape
  length : e.2.stop = e.2.start + t.data.length
  bytes : (data.drop e.2.start).take (e.2.stop - e.2.start) = t.data

theorem forall₂_places (front : List UInt8) (tensors : List Prepared)
    : List.Forall₂ (Places (front ++ tensors.flatMap (·.data))) tensors
        (place front.length tensors) := by
  induction tensors generalizing front with
  | nil => exact .nil
  | cons t tensors ih =>
    have hrest := ih (front ++ t.data)
    rw [List.length_append, List.append_assoc] at hrest
    rw [List.flatMap_cons]
    refine .cons ⟨rfl, rfl, rfl, rfl, ?_⟩ hrest
    dsimp only
    rw [List.drop_left, Nat.add_sub_cancel_left, List.take_left]

end TensorFiles.SafeTensors
