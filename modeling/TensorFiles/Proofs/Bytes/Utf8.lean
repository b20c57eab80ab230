import TensorFiles.Bytes.Utf8
/-!
This module contains the round trip of texts through UTF-8: what is written is read back, also by
the lossy reading.
-/

namespace TensorFiles.Utf8

theorem isContinuation_eq_true {b : UInt8} (h1 : 0x80 ≤ b.toNat) (h2 : b.toNat ≤ 0xBF)
    : isContinuation b = true := by
  simp only [isContinuation, Bool.and_eq_true, decide_eq_true_eq, UInt8.le_iff_toNat_le]
  exact ⟨h1, h2⟩

theorem toNat_ofNat_of_lt {n : Nat} (h : n < 256) : (UInt8.ofNat n).toNat = n := by
  rw [UInt8.toNat_ofNat']
  omega

theorem isSecond_eq_true {lead b : UInt8} (h1 : 0x80 ≤ b.toNat) (h2 : b.toNat ≤ 0xBF)
    (he0 : lead.toNat = 0xE0 → 0xA0 ≤ b.toNat) (hed : lead.toNat = 0xED → b.toNat ≤ 0x9F)
    (hf0 : lead.toNat = 0xF0 → 0x90 ≤ b.toNat) (hf4 : lead.toNat = 0xF4 → b.toNat ≤ 0x8F)
    : isSecond lead b = true := by
  unfold isSecond
  simp only [← UInt8.toNat_inj]
  split
  . next h => simpa [UInt8.le_iff_toNat_le] using ⟨he0 h, h2⟩
  . split
    . next h => simpa [UInt8.le_iff_toNat_le] using ⟨h1, hed h⟩
    . split
      . next h => simpa [UInt8.le_iff_toNat_le] using ⟨hf0 h, h2⟩
      . split
        . next h => simpa [UInt8.le_iff_toNat_le] using ⟨h1, hf4 h⟩
        . exact isContinuation_eq_true h1 h2

theorem isBetween_iff {low high b : UInt8}
    : (low ≤ b && b ≤ high) = true ↔ low.toNat ≤ b.toNat ∧ b.toNat ≤ high.toNat := by
  simp only [Bool.and_eq_true, decide_eq_true_eq, UInt8.le_iff_toNat_le]

theorem not_isAscii_of_le {lead : UInt8} (h : 0x80 ≤ lead.toNat) : ¬ lead < 0x80 := by
  rw [UInt8.lt_iff_toNat_lt]
  exact Nat.not_lt.2 h

theorem not_isTwo_of_le {lead : UInt8} (h : 0xE0 ≤ lead.toNat)
    : ¬ (0xC2 ≤ lead && lead ≤ 0xDF) = true := by
  rw [isBetween_iff]
  simp only [UInt8.reduceToNat]
  omega

theorem head_one {lead : UInt8} (h : lead.toNat < 0x80) (rest : List UInt8)
    : head lead rest = .char (Char.ofNat lead.toNat) 1 := by
  unfold head
  rw [if_pos]
  rw [UInt8.lt_iff_toNat_lt]
  exact h

theorem head_two {lead b : UInt8} (h1 : 0xC2 ≤ lead.toNat) (h2 : lead.toNat ≤ 0xDF)
    (hb : isContinuation b = true) (rest : List UInt8)
    : head lead (b :: rest) = .char (Char.ofNat (lead.toNat % 32 * 64 + tail b)) 2 := by
  have hone := not_isAscii_of_le (Nat.le_trans (by decide) h1)
  have htwo : (0xC2 ≤ lead && lead ≤ 0xDF) = true := isBetween_iff.2 ⟨h1, h2⟩
  unfold head
  rw [if_neg hone, if_pos htwo]
  simp only [hb, if_true]

theorem head_three {lead b c : UInt8} (h1 : 0xE0 ≤ lead.toNat) (h2 : lead.toNat ≤ 0xEF)
    (hb : isSecond lead b = true) (hc : isContinuation c = true) (rest : List UInt8)
    : head lead (b :: c :: rest)
        = .char (Char.ofNat ((lead.toNat % 16 * 64 + tail b) * 64 + tail c)) 3 := by
  have hone := not_isAscii_of_le (Nat.le_trans (by decide) h1)
  have htwo := not_isTwo_of_le h1
  have hthree : (0xE0 ≤ lead && lead ≤ 0xEF) = true := isBetween_iff.2 ⟨h1, h2⟩
  unfold head
  rw [if_neg hone, if_neg htwo, if_pos hthree]
  simp only [hb, hc, if_true]

theorem head_four {lead b c d : UInt8} (h1 : 0xF0 ≤ lead.toNat) (h2 : lead.toNat ≤ 0xF4)
    (hb : isSecond lead b = true) (hc : isContinuation c = true) (hd : isContinuation d = true)
    (rest : List UInt8)
    : head lead (b :: c :: d :: rest)
        = .char (Char.ofNat (((lead.toNat % 8 * 64 + tail b) * 64 + tail c) * 64 + tail d)) 4 := by
  have hone := not_isAscii_of_le (Nat.le_trans (by decide) h1)
  have htwo := not_isTwo_of_le (Nat.le_trans (by decide) h1)
  have hthree : ¬ (0xE0 ≤ lead && lead ≤ 0xEF) = true := by
    rw [isBetween_iff]
    simp only [UInt8.reduceToNat]
    omega
  have hfour : (0xF0 ≤ lead && lead ≤ 0xF4) = true := isBetween_iff.2 ⟨h1, h2⟩
  unfold head
  rw [if_neg hone, if_neg htwo, if_neg hthree, if_pos hfour]
  simp only [hb, hc, hd, if_true]

theorem val_lt (c : Char)
    : c.val.toNat < 0xD800 ∨ 0xDFFF < c.val.toNat ∧ c.val.toNat < 0x110000 := by
  exact c.valid

theorem head_utf8EncodeChar (c : Char)
    : ∃ lead follow, String.utf8EncodeChar c = lead :: follow ∧
        ∀ rest, head lead (follow ++ rest) = .char c (follow.length + 1) := by
  have hv := val_lt c
  have hc : Char.ofNat c.val.toNat = c := c.ofNat_toNat
  unfold String.utf8EncodeChar
  generalize c.val.toNat = v at hv hc
  dsimp only
  -- one case for each number of bytes
  split
  . refine ⟨_, _, rfl, fun rest => ?_⟩
    have h0 := toNat_ofNat_of_lt (n := v) (by omega)
    rw [head_one (by omega), h0, hc]
    rfl
  . split
    . refine ⟨_, _, rfl, fun rest => ?_⟩
      have h0 := toNat_ofNat_of_lt (n := v / 64 % 0x20 + 0xc0) (by omega)
      have h1 := toNat_ofNat_of_lt (n := v % 0x40 + 0x80) (by omega)
      rw [List.cons_append, head_two (by omega) (by omega)]
      . rw [h0, tail, h1]
        rw [show (v / 64 % 0x20 + 0xc0) % 32 * 64 + (v % 0x40 + 0x80) % 64 = v by omega, hc]
        rfl
      . apply isContinuation_eq_true <;> omega
    . split
      . refine ⟨_, _, rfl, fun rest => ?_⟩
        have h0 := toNat_ofNat_of_lt (n := v / 4096 % 0x10 + 0xe0) (by omega)
        have h1 := toNat_ofNat_of_lt (n := v / 64 % 0x40 + 0x80) (by omega)
        have h2 := toNat_ofNat_of_lt (n := v % 0x40 + 0x80) (by omega)
        rw [List.cons_append, List.cons_append, head_three (by omega) (by omega)]
        . rw [h0, tail, h1, tail, h2]
          rw [show ((v / 4096 % 0x10 + 0xe0) % 16 * 64 + (v / 64 % 0x40 + 0x80) % 64) * 64 +
            (v % 0x40 + 0x80) % 64 = v by omega, hc]
          rfl
        . apply isSecond_eq_true <;> omega
        . apply isContinuation_eq_true <;> omega
      . refine ⟨_, _, rfl, fun rest => ?_⟩
        have h0 := toNat_ofNat_of_lt (n := v / 262144 % 0x08 + 0xf0) (by omega)
        have h1 := toNat_ofNat_of_lt (n := v / 4096 % 0x40 + 0x80) (by omega)
        have h2 := toNat_ofNat_of_lt (n := v / 64 % 0x40 + 0x80) (by omega)
        have h3 := toNat_ofNat_of_lt (n := v % 0x40 + 0x80) (by omega)
        rw [List.cons_append, List.cons_append, List.cons_append,
          head_four (by omega) (by omega)]
        . rw [h0, tail, h1, tail, h2, tail, h3]
          rw [show (((v / 262144 % 0x08 + 0xf0) % 8 * 64 + (v / 4096 % 0x40 + 0x80) % 64) * 64 +
            (v / 64 % 0x40 + 0x80) % 64) * 64 + (v % 0x40 + 0x80) % 64 = v by omega, hc]
          rfl
        . apply isSecond_eq_true <;> omega
        . apply isContinuation_eq_true <;> omega
        . apply isContinuation_eq_true <;> omega

theorem encodeChars_append (cs cs' : List Char)
    : encodeChars (cs ++ cs') = encodeChars cs ++ encodeChars cs' :=
  List.flatMap_append

theorem encodeChars_spaces (n : Nat)
    : encodeChars (List.replicate n ' ') = List.replicate n 0x20 := by
  unfold encodeChars
  rw [List.flatMap_replicate]
  simp [String.utf8EncodeChar]

theorem decodeFrom_append (index : Nat) (front rest : List UInt8)
    : decodeFrom index front.length (front ++ rest) = decodeFrom (index + front.length) 0 rest := by
  induction front generalizing index with
  | nil => rfl
  | cons b front ih =>
    rw [List.cons_append, List.length_cons, decodeFrom, ih, Nat.add_assoc, Nat.add_comm 1]

theorem decodeFrom_encodeChars (index : Nat) (cs : List Char)
    : decodeFrom index 0 (encodeChars cs) = .ok cs := by
  induction cs generalizing index with
  | nil => rfl
  | cons c cs ih =>
    obtain ⟨lead, follow, henc, hhead⟩ := head_utf8EncodeChar c
    unfold encodeChars at ih ⊢
    rw [List.flatMap_cons, henc, List.cons_append]
    simp only [decodeFrom, hhead, Nat.add_sub_cancel]
    rw [decodeFrom_append, ih]
    rfl

theorem decode_encodeChars (cs : List Char) : decode (encodeChars cs) = .ok cs :=
  decodeFrom_encodeChars 0 cs

/--
Every character takes a byte or more.
-/
theorem length_decodeFrom_le {index skip : Nat} {bytes : List UInt8} {cs : List Char}
    (h : decodeFrom index skip bytes = .ok cs) : cs.length ≤ bytes.length := by
  induction bytes generalizing index skip cs with
  | nil =>
    rw [decodeFrom, Except.ok.injEq] at h
    rw [← h]
    exact Nat.le_refl 0
  | cons lead rest ih =>
    unfold decodeFrom at h
    split at h
    . exact Nat.le_succ_of_le (ih h)
    . split at h
      . next c width _ =>
        cases hrest : decodeFrom (index + 1) (width - 1) rest with
        | error fault =>
          rw [hrest] at h
          simp [Except.map] at h
        | ok cs' =>
          rw [hrest, Except.map, Except.ok.injEq] at h
          rw [← h]
          exact Nat.succ_le_succ (ih hrest)
      . simp at h
      . simp at h

theorem decodeLossyFrom_append (front rest : List UInt8)
    : decodeLossyFrom front.length (front ++ rest) = decodeLossyFrom 0 rest := by
  induction front with
  | nil => rfl
  | cons b front ih => simpa [decodeLossyFrom] using ih

theorem decodeLossyFrom_encodeChars (cs : List Char)
    : decodeLossyFrom 0 (encodeChars cs) = cs := by
  induction cs with
  | nil => rfl
  | cons c cs ih =>
    obtain ⟨lead, follow, henc, hhead⟩ := head_utf8EncodeChar c
    unfold encodeChars at ih ⊢
    rw [List.flatMap_cons, henc, List.cons_append]
    simp only [decodeLossyFrom, hhead, Nat.add_sub_cancel]
    rw [decodeLossyFrom_append, ih]

theorem decodeLossy_encode (s : String) : String.ofList (decodeLossy (encode s)) = s := by
  rw [decodeLossy, encode, decodeLossyFrom_encodeChars, String.ofList_toList]

/--
The bytes are the UTF-8 form of some characters.
-/
def IsValid (bytes : List UInt8) : Prop :=
  ∃ cs : List Char, encodeChars cs = bytes

/--
The lossy reading loses nothing where there is nothing to replace.
-/
theorem isValid_iff {bytes : List UInt8}
    : IsValid bytes ↔ encode (String.ofList (decodeLossy bytes)) = bytes := by
  constructor
  . rintro ⟨cs, rfl⟩
    rw [encode, String.toList_ofList, decodeLossy, decodeLossyFrom_encodeChars]
  . intro h
    exact ⟨_, h⟩

theorem length_le_encodeChars (cs : List Char) : cs.length ≤ (encodeChars cs).length :=
  length_decodeFrom_le (decode_encodeChars cs)

def isAscii (c : Char) : Bool := c.val ≤ 0x7F

/--
The characters of ASCII take a single byte each.
-/
theorem length_encodeChars {cs : List Char} (h : cs.all isAscii = true)
    : (encodeChars cs).length = cs.length := by
  induction cs with
  | nil => rfl
  | cons c cs ih =>
    rw [List.all_cons, Bool.and_eq_true] at h
    have hone : (String.utf8EncodeChar c).length = 1 := by
      rw [String.length_utf8EncodeChar, Char.utf8Size_eq_one_iff]
      exact of_decide_eq_true h.1
    unfold encodeChars at ih ⊢
    rw [List.flatMap_cons, List.length_append, ih h.2, hone, List.length_cons, Nat.add_comm]

theorem take_encodeChars {cs : List Char} (h : cs.all isAscii = true) {n : Nat}
    (hn : n ≤ cs.length) : (encodeChars cs).take n = encodeChars (cs.take n) := by
  have hfront : (cs.take n).all isAscii = true := by
    rw [List.all_eq_true] at h ⊢
    exact fun c hc => h c (List.mem_of_mem_take hc)
  have hlength : (encodeChars (cs.take n)).length = n := by
    rw [length_encodeChars hfront, List.length_take, Nat.min_eq_left hn]
  have hsplit := encodeChars_append (cs.take n) (cs.drop n)
  rw [List.take_append_drop] at hsplit
  rw [hsplit, List.take_left' hlength]

theorem length_encode (s : String) : (encode s).length = s.utf8ByteSize := by
  rw [String.utf8ByteSize, ← String.utf8Encode_toList, List.utf8Encode, List.size_toByteArray]
  rfl

end TensorFiles.Utf8
