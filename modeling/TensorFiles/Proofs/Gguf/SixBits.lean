import Mathlib.Data.Set.Function
import TensorFiles.Proofs.Gguf.Layouts
/-!
This module contains the packing of scales and minima of six bits. Three bytes hold the fields of the
sub-blocks `k` and `k + 4`, so twelve bytes hold those of all eight sub-blocks, every choice of them
and each in one way only.
-/

namespace TensorFiles.Gguf.Widen

/--
The scale and the minimum of each sub-block.
-/
def scaleMins (bytes : List UInt8) : List (UInt8 × UInt8) :=
  (List.range 8).map (fun j => scaleMin j bytes)

theorem length_scaleMins (bytes : List UInt8) : (scaleMins bytes).length = 8 := by
  simp [scaleMins]

theorem getElem_scaleMins (bytes : List UInt8) {j : Nat} (hj : j < (scaleMins bytes).length)
    : (scaleMins bytes)[j] = scaleMin j bytes := by
  simp [scaleMins]

theorem scaleMin_lt (bytes : List UInt8) (j : Nat)
    : (scaleMin j bytes).1.toNat < 64 ∧ (scaleMin j bytes).2.toNat < 64 := by
  by_cases hj : j < 4
  . have hfields := toNat_scaleMin_of_lt bytes hj
    omega
  . obtain ⟨k, rfl⟩ := Nat.exists_eq_add_of_le' (Nat.not_lt.1 hj)
    have hfields := toNat_scaleMin_add_four bytes k
    have hfirst := byteAt_lt bytes k
    have hsecond := byteAt_lt bytes (k + 4)
    have hthird := byteAt_lt bytes (k + 8)
    omega

section

variable {bytes bytes' : List UInt8} {k : Nat}

/--
The fields of the sub-blocks `k` and `k + 4` are those of three bytes, and fix all their bits.
-/
theorem byteAt_eq_of_scaleMin (hk : k < 4) (hlow : scaleMin k bytes = scaleMin k bytes')
    (hhigh : scaleMin (k + 4) bytes = scaleMin (k + 4) bytes')
    : byteAt bytes k = byteAt bytes' k ∧ byteAt bytes (k + 4) = byteAt bytes' (k + 4) ∧
        byteAt bytes (k + 8) = byteAt bytes' (k + 8) := by
  have hl := toNat_scaleMin_of_lt bytes hk
  have hl' := toNat_scaleMin_of_lt bytes' hk
  have hh := toNat_scaleMin_add_four bytes k
  have hh' := toNat_scaleMin_add_four bytes' k
  have hthird := byteAt_lt bytes (k + 8)
  have hthird' := byteAt_lt bytes' (k + 8)
  rw [hlow] at hl
  rw [hhigh] at hh
  omega

theorem byteAt_eq_of_scaleMins (h : scaleMins bytes = scaleMins bytes') {i : Nat} (hi : i < 12)
    : byteAt bytes i = byteAt bytes' i := by
  have hfields {j : Nat} (hj : j < 8) : scaleMin j bytes = scaleMin j bytes' := by
    unfold scaleMins at h
    rw [List.map_inj_left] at h
    apply h
    apply List.mem_range.2
    exact hj
  have hk : i % 4 < 4 := Nat.mod_lt i (by decide)
  have hthree := byteAt_eq_of_scaleMin hk (hfields (by omega)) (hfields (by omega))
  have hplace : i = i % 4 ∨ i = i % 4 + 4 ∨ i = i % 4 + 8 := by omega
  rcases hplace with hplace | hplace | hplace
  . rw [hplace]
    exact hthree.1
  . rw [hplace]
    exact hthree.2.1
  . rw [hplace]
    exact hthree.2.2

end

theorem injOn_scaleMins : Set.InjOn scaleMins {bytes | bytes.length = 12} := by
  intro bytes hlength bytes' hlength' heq
  rw [Set.mem_ofPred_eq] at hlength hlength'
  apply List.ext_getElem (hlength.trans hlength'.symm)
  intro i hi hi'
  have hbyte := byteAt_eq_of_scaleMins heq (hlength ▸ hi)
  unfold byteAt at hbyte
  rw [List.getD_eq_getElem _ _ hi, List.getD_eq_getElem _ _ hi'] at hbyte
  apply UInt8.toNat_inj.1
  exact hbyte

/--
The scale and the minimum of the sub-block `j`, as numbers.
-/
def scaleOf (fields : List (UInt8 × UInt8)) (j : Nat) : Nat :=
  (fields.getD j (0, 0)).1.toNat

def minOf (fields : List (UInt8 × UInt8)) (j : Nat) : Nat :=
  (fields.getD j (0, 0)).2.toNat

/--
The byte `i` of the twelve that hold the given fields.
-/
def packedByte (fields : List (UInt8 × UInt8)) (i : Nat) : Nat :=
  if i < 4 then
    scaleOf fields i + 64 * (scaleOf fields (i + 4) / 16)
  else if i < 8 then
    minOf fields (i - 4) + 64 * (minOf fields i / 16)
  else
    scaleOf fields (i - 4) % 16 + 16 * (minOf fields (i - 4) % 16)

def packed (fields : List (UInt8 × UInt8)) : List UInt8 :=
  (List.range 12).map (fun i => UInt8.ofNat (packedByte fields i))

theorem length_packed (fields : List (UInt8 × UInt8)) : (packed fields).length = 12 := by
  simp [packed]

section

variable {fields : List (UInt8 × UInt8)} {i j : Nat}

theorem fields_lt (h : ∀ f ∈ fields, f.1.toNat < 64 ∧ f.2.toNat < 64) (j : Nat)
    : scaleOf fields j < 64 ∧ minOf fields j < 64 := by
  unfold scaleOf minOf
  by_cases hj : j < fields.length
  . rw [List.getD_eq_getElem _ _ hj]
    apply h
    apply List.getElem_mem
  . rw [List.getD_eq_default _ _ (Nat.not_lt.1 hj)]
    decide

theorem packedByte_lt (h : ∀ f ∈ fields, f.1.toNat < 64 ∧ f.2.toNat < 64) (i : Nat)
    : packedByte fields i < 256 := by
  have hfirst := fields_lt h i
  have hsecond := fields_lt h (i + 4)
  have hthird := fields_lt h (i - 4)
  unfold packedByte
  split
  . omega
  . split
    . omega
    . omega

theorem byteAt_packed (h : ∀ f ∈ fields, f.1.toNat < 64 ∧ f.2.toNat < 64) (hi : i < 12)
    : byteAt (packed fields) i = packedByte fields i := by
  have hlength : i < (packed fields).length := by
    rw [length_packed]
    exact hi
  have hbyte : (packed fields)[i] = UInt8.ofNat (packedByte fields i) := by
    simp [packed]
  unfold byteAt
  rw [List.getD_eq_getElem _ _ hlength, hbyte]
  apply UInt8.toNat_ofNat_of_lt'
  apply packedByte_lt h

theorem toNat_scaleMin_packed (h : ∀ f ∈ fields, f.1.toNat < 64 ∧ f.2.toNat < 64) (hj : j < 8)
    : (scaleMin j (packed fields)).1.toNat = scaleOf fields j ∧
        (scaleMin j (packed fields)).2.toNat = minOf fields j := by
  have hfield := fields_lt h j
  by_cases hlow : j < 4
  . have hunpacked := toNat_scaleMin_of_lt (packed fields) hlow
    rw [byteAt_packed h (by omega), byteAt_packed h (by omega)] at hunpacked
    unfold packedByte at hunpacked
    rw [if_pos hlow, if_neg (by omega), if_pos (by omega), Nat.add_sub_cancel] at hunpacked
    omega
  . -- the upper two bits are in the bytes of the sub-block four before
    obtain ⟨k, rfl⟩ := Nat.exists_eq_add_of_le' (Nat.not_lt.1 hlow)
    have hunpacked := toNat_scaleMin_add_four (packed fields) k
    have hfirst := fields_lt h k
    have hplace : k + 8 - 4 = k + 4 := by omega
    rw [byteAt_packed h (by omega), byteAt_packed h (by omega), byteAt_packed h (by omega)]
      at hunpacked
    unfold packedByte at hunpacked
    rw [if_neg (by omega), if_neg (by omega), if_pos (by omega), if_neg hlow, if_pos hj,
      Nat.add_sub_cancel, hplace] at hunpacked
    omega

end

theorem scaleMins_packed {fields : List (UInt8 × UInt8)} (hlength : fields.length = 8)
    (h : ∀ f ∈ fields, f.1.toNat < 64 ∧ f.2.toNat < 64) : scaleMins (packed fields) = fields := by
  apply List.ext_getElem ((length_scaleMins _).trans hlength.symm)
  intro j hj hj'
  obtain ⟨hscale, hmin⟩ := toNat_scaleMin_packed h (hlength ▸ hj')
  unfold scaleOf at hscale
  unfold minOf at hmin
  rw [List.getD_eq_getElem _ _ hj'] at hscale hmin
  rw [getElem_scaleMins]
  apply Prod.ext
  . apply UInt8.toNat_inj.1
    exact hscale
  . apply UInt8.toNat_inj.1
    exact hmin

/--
The twelve bytes of scales and minima are sixteen independent fields of six bits.
-/
theorem bijOn_scaleMins
    : Set.BijOn scaleMins {bytes | bytes.length = 12}
        {fields | fields.length = 8 ∧ ∀ f ∈ fields, f.1.toNat < 64 ∧ f.2.toNat < 64} := by
  refine ⟨?_, injOn_scaleMins, ?_⟩
  . intro bytes _
    refine ⟨length_scaleMins bytes, ?_⟩
    unfold scaleMins
    rw [List.forall_mem_map]
    exact fun j _ => scaleMin_lt bytes j
  . rintro fields ⟨hlength, hfields⟩
    exact ⟨packed fields, length_packed fields, scaleMins_packed hlength hfields⟩

end TensorFiles.Gguf.Widen
