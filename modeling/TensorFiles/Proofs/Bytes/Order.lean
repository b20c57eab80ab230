import TensorFiles.Proofs.Bytes.Utf8
/-!
This module contains the order of texts: that of their characters is that of their UTF-8 bytes.
-/

namespace TensorFiles.Utf8

theorem ofNat_cons_lt_iff {m n : Nat} (hm : m < 256) (hn : n < 256) {bs cs : List UInt8}
    : UInt8.ofNat m :: bs < UInt8.ofNat n :: cs ↔ m < n ∨ m = n ∧ bs < cs := by
  rw [List.cons_lt_cons_iff, UInt8.lt_iff_toNat_lt, ← UInt8.toNat_inj, toNat_ofNat_of_lt hm,
    toNat_ofNat_of_lt hn]

/--
The bytes of two characters differ before either of them ends, so it does not matter what follows.
-/
theorem utf8EncodeChar_append_lt {c d : Char} (h : c < d) (rest rest' : List UInt8)
    : String.utf8EncodeChar c ++ rest < String.utf8EncodeChar d ++ rest' := by
  have hlt : c.val.toNat < d.val.toNat := h
  have hd := val_lt d
  unfold String.utf8EncodeChar
  generalize c.val.toNat = m at hlt ⊢
  generalize d.val.toNat = n at hlt hd ⊢
  dsimp only
  -- one case for each number of bytes of either character
  have hdigit (k : Nat) : k / 4096 = k / 64 / 64 ∧ k / 262144 = k / 64 / 64 / 64 := by
    omega
  rw [(hdigit m).1, (hdigit m).2, (hdigit n).1, (hdigit n).2]
  repeat' split
  all_goals
    simp (disch := omega) only [List.cons_append, List.nil_append, ofNat_cons_lt_iff]
    omega

theorem encodeChars_lt {cs ds : List Char} (h : cs < ds) : encodeChars cs < encodeChars ds := by
  induction cs generalizing ds with
  | nil =>
    cases ds with
    | nil => simp at h
    | cons d ds =>
      obtain ⟨lead, follow, henc, _⟩ := head_utf8EncodeChar d
      unfold encodeChars
      rw [List.flatMap_nil, List.flatMap_cons, henc, List.cons_append]
      exact List.nil_lt_cons _ _
  | cons c cs ih =>
    cases ds with
    | nil => simp at h
    | cons d ds =>
      unfold encodeChars at ih ⊢
      rw [List.flatMap_cons, List.flatMap_cons]
      rcases List.cons_lt_cons_iff.1 h with hlt | ⟨rfl, hlt⟩
      . exact utf8EncodeChar_append_lt hlt _ _
      . exact List.append_left_lt (ih hlt)

/--
Texts are in the order of their bytes.
-/
theorem encode_lt_encode_iff {s t : String} : encode s < encode t ↔ s < t := by
  constructor
  . intro h
    refine Decidable.byContradiction fun hle => ?_
    rcases List.le_iff_lt_or_eq.1 (String.not_lt.1 hle) with hlt | heq
    . exact List.lt_asymm h (encodeChars_lt hlt)
    . rw [encode, encode, heq] at h
      exact List.lt_irrefl _ h
  . exact encodeChars_lt

theorem encode_le_encode_iff {s t : String} : encode s ≤ encode t ↔ s ≤ t := by
  rw [← List.not_lt, ← String.not_lt, encode_lt_encode_iff]

end TensorFiles.Utf8
