import TensorFiles.Proofs.Gguf.Stored
/-!
This module contains what reads take from the data, whether they succeed or fail. A read that succeeds
has taken the bytes of what it gives, and no others. A read that fails has taken the fields in front of
the one that is missing or refused; only a read of a single field leaves the cursor where it was.
-/

namespace TensorFiles.Gguf

/--
A read that is made on a cursor.
-/
inductive Fetch where
  | bytes (length : Nat)
  | u8
  | u32
  | u64
  | length (what : String)
  | string
  | value (code : Nat)

/--
What a read gives.
-/
inductive Fetched where
  | bytes (data : List UInt8)
  | number (n : Nat)
  | text (s : String)
  | value (v : MetaValue)

namespace Cursor

/--
The number in the field of `width` bytes behind the cursor.
-/
def peek (c : Cursor) (width : Nat) : Nat :=
  LittleEndian.decode ((c.data.drop c.offset).take width)

/--
The cursor behind the next `n` bytes.
-/
def skip (c : Cursor) (n : Nat) : Cursor := { c with offset := c.offset + n }

/--
The cursor behind a field of `width` bytes, if that is there.
-/
def pass (c : Cursor) (width : Nat) : Cursor :=
  if c.offset + width ≤ c.data.length then c.skip width else c

/--
Whether a text follows that is all there and not too long.
-/
def HasText (c : Cursor) : Prop :=
  c.offset + 8 + c.peek 8 ≤ c.data.length ∧ c.peek 8 ≤ c.maxStringLen

instance (c : Cursor) : Decidable c.HasText :=
  inferInstanceAs (Decidable (_ ∧ _))

/--
Where `count` texts that cannot all be read leave the cursor: behind those in front of the first that
cannot, and behind the length of that one.
-/
def passTexts : (count : Nat) → Cursor → Cursor
  | 0, c => c
  | count + 1, c => if c.HasText then passTexts count (c.skip (8 + c.peek 8)) else c.pass 8

/--
Where the elements of an array that cannot be read leave the cursor: behind their number, and behind
texts.
-/
def passElements (c : Cursor) (layout : ValueType.Layout) : Cursor :=
  match layout with
  | .list => c
  | .number _ _ => c.pass 8
  | .text =>
    if c.offset + 8 + c.peek 8 ≤ c.data.length then (c.skip 8).passTexts (c.peek 8) else c.pass 8

/--
Where an array that cannot be read leaves the cursor: behind the type of its elements, and behind what
can be read of these.
-/
def passArray (c : Cursor) : Cursor :=
  if c.offset + 4 ≤ c.data.length then
    match ValueType.ofCode? (c.peek 4) with
    | none => c.skip 4
    | some type => (c.skip 4).passElements type.layout
  else
    c

end Cursor

namespace Fetch

def read : Fetch → Read Fetched
  | .bytes n => Fetched.bytes <$> Read.bytes n
  | .u8 => Fetched.number <$> Read.u8
  | .u32 => Fetched.number <$> Read.u32
  | .u64 => Fetched.number <$> Read.u64
  | .length what => Fetched.number <$> Read.length what
  | .string => Fetched.text <$> Read.string
  | .value code => Fetched.value <$> Read.value code

/--
The bytes `w` make up what the read gives.
-/
inductive Makes : Fetch → (w : List UInt8) → Fetched → Prop where
  | bytes (data : List UInt8) : Makes (.bytes data.length) data (.bytes data)
  | u8 {n : Nat} (h : n < LittleEndian.bound 1)
    : Makes .u8 (LittleEndian.encode 1 n) (.number n)
  | u32 {n : Nat} (h : n < halfWordBound) : Makes .u32 (LittleEndian.encode 4 n) (.number n)
  | u64 {n : Nat} (h : n < wordBound) : Makes .u64 (LittleEndian.encode 8 n) (.number n)
  | length {n : Nat} (what : String) (h : n < wordBound)
    : Makes (.length what) (LittleEndian.encode 8 n) (.number n)
  | string {raw : List UInt8} (h : raw.length < wordBound)
    : Makes .string (storedText raw) (.text (lossyText raw))
  | value {code : Nat} {type : ValueType} {w : List UInt8} {v : MetaValue}
    (htype : ValueType.ofCode? code = some type) (h : Stored type w v)
    : Makes (.value code) w (.value v)

/--
The number of bytes of the first field that is read, if there is one.
-/
def head? : Fetch → Option Nat
  | .bytes n => some n
  | .u8 => some 1
  | .u32 => some 4
  | .u64 | .length _ | .string => some 8
  | .value code => (ValueType.ofCode? code).map fun type =>
    match type.layout with
    | .number width _ => width
    | .text => 8
    | .list => 4

/--
Where a read that fails leaves the cursor.
-/
def remnant (c : Cursor) : Fetch → Cursor
  | .bytes _ | .u8 | .u32 | .u64 => c
  | .length _ | .string => c.pass 8
  | .value code =>
    match ValueType.ofCode? code with
    | none => c
    | some type =>
      match type.layout with
      | .number _ _ => c
      | .text => c.pass 8
      | .list => c.passArray

end Fetch

variable {c c' : Cursor} {e : Error} {n : Nat}

/--
The number of a field that stands behind the cursor.
-/
theorem Cursor.peek_of_stands {width : Nat} (hn : n < LittleEndian.bound width)
    (h : Stands c.data c.offset (LittleEndian.encode width n)) : c.peek width = n := by
  have htake := h.take_drop
  rw [LittleEndian.length_encode] at htake
  unfold Cursor.peek
  rw [htake, LittleEndian.decode_encode_of_lt hn]

theorem Cursor.peek_lt (c : Cursor) {width : Nat} (hwidth : width ≤ 8)
    : c.peek width < wordBound := by
  have hlength := List.length_take_le width (c.data.drop c.offset)
  exact Nat.lt_of_lt_of_le (LittleEndian.decode_lt _)
    (LittleEndian.bound_le (Nat.le_trans hlength hwidth))

theorem Cursor.pass_of_le (h : c.offset + n ≤ c.data.length) : c.pass n = c.skip n :=
  if_pos h

theorem Cursor.pass_of_lt (h : c.data.length < c.offset + n) : c.pass n = c :=
  if_neg (Nat.not_le.2 h)

theorem Cursor.offset_le_skip (c : Cursor) (n : Nat) : c.offset ≤ (c.skip n).offset :=
  Nat.le_add_right _ _

theorem Cursor.offset_le_pass (c : Cursor) (n : Nat) : c.offset ≤ (c.pass n).offset := by
  unfold pass
  split
  . exact c.offset_le_skip n
  . exact Nat.le_refl _

theorem Cursor.offset_le_passTexts (count : Nat) (c : Cursor)
    : c.offset ≤ (c.passTexts count).offset := by
  induction count generalizing c with
  | zero => exact Nat.le_refl _
  | succ count ih =>
    unfold passTexts
    split
    . exact Nat.le_trans (c.offset_le_skip _) (ih _)
    . exact c.offset_le_pass 8

theorem Cursor.offset_le_passElements (c : Cursor) (layout : ValueType.Layout)
    : c.offset ≤ (c.passElements layout).offset := by
  unfold passElements
  split
  . exact Nat.le_refl _
  . exact c.offset_le_pass 8
  . split
    . exact Nat.le_trans (c.offset_le_skip 8) ((c.skip 8).offset_le_passTexts _)
    . exact c.offset_le_pass 8

theorem Cursor.pass_eq_self_iff (hn : 0 < n)
    : c.pass n = c ↔ c.data.length < c.offset + n := by
  constructor
  . intro h
    by_contra hroom
    rw [Cursor.pass_of_le (Nat.not_lt.1 hroom)] at h
    have hoffset : c.offset + n = c.offset := congrArg Cursor.offset h
    omega
  . exact Cursor.pass_of_lt

/--
An array leaves the cursor where it was only if the type of its elements is not there.
-/
theorem Cursor.passArray_eq_self_iff (c : Cursor)
    : c.passArray = c ↔ c.data.length < c.offset + 4 := by
  unfold passArray
  split
  . next hroom =>
    refine iff_of_false (fun h => ?_) (Nat.not_lt.2 hroom)
    have hlt : c.offset < (c.skip 4).offset := Nat.lt_add_of_pos_right (by decide)
    split at h
    . rw [h] at hlt
      exact Nat.lt_irrefl _ hlt
    . next type _ =>
      have hle := (c.skip 4).offset_le_passElements type.layout
      rw [h] at hle
      exact Nat.not_le.2 hlt hle
  . next hroom => exact iff_of_true rfl (Nat.not_le.1 hroom)

theorem exec_bytes_eq_error (h : exec (Read.bytes n) c = (.error e, c'))
    : c' = c ∧ c.data.length < c.offset + n := by
  unfold Read.bytes at h
  rw [exec_bind_of_ok (exec_get c)] at h
  split at h
  . rw [exec_bind_of_ok (exec_set _ _)] at h
    simp at h
  . next hroom =>
    rw [exec_throw, Prod.mk.injEq] at h
    exact ⟨h.2.symm, Nat.not_le.1 hroom⟩

theorem exec_nat_eq_error {width : Nat} (h : exec (Read.nat width) c = (.error e, c'))
    : c' = c ∧ c.data.length < c.offset + width :=
  exec_bytes_eq_error (exec_map_eq_error_iff.1 h)

/--
A field that is read is there, with the number that is given.
-/
theorem exec_nat_eq_ok_peek {width : Nat} (h : exec (Read.nat width) c = (.ok n, c'))
    : c.offset + width ≤ c.data.length ∧ c.peek width = n ∧ c' = c.skip width := by
  obtain ⟨hn, hstands, hc'⟩ := exec_nat_eq_ok h
  have hroom := hstands.length_le
  rw [LittleEndian.length_encode] at hroom hc'
  exact ⟨hroom, Cursor.peek_of_stands hn hstands, hc'⟩

theorem exec_length_eq_error {what : String} (h : exec (Read.length what) c = (.error e, c'))
    : c' = c.pass 8 ∧ c.data.length < c.offset + 8 + c.peek 8 := by
  unfold Read.length at h
  rw [exec_bind_of_ok (exec_get c)] at h
  rcases exec_bind_eq_error_iff.1 h with h | ⟨n, c₁, hread, h⟩
  . obtain ⟨rfl, hlt⟩ := exec_nat_eq_error h
    exact ⟨(Cursor.pass_of_lt hlt).symm, by omega⟩
  . obtain ⟨hroom, rfl, rfl⟩ := exec_nat_eq_ok_peek hread
    rw [exec_bind_of_ok (exec_get _)] at h
    dsimp only [Cursor.remaining, Cursor.skip] at h
    split at h
    . simp at h
    . next hlarge =>
      rw [exec_throw, Prod.mk.injEq] at h
      rw [Cursor.pass_of_le hroom]
      exact ⟨h.2.symm, by omega⟩

theorem exec_length_eq_ok_peek {what : String} (h : exec (Read.length what) c = (.ok n, c'))
    : c.offset + 8 + c.peek 8 ≤ c.data.length ∧ c.peek 8 = n ∧ c' = c.skip 8 := by
  unfold Read.length at h
  rw [exec_bind_of_ok (exec_get c)] at h
  obtain ⟨n', c₁, hread, h⟩ := exec_bind_eq_ok h
  obtain ⟨hroom, rfl, rfl⟩ := exec_nat_eq_ok_peek hread
  rw [exec_bind_of_ok (exec_get _)] at h
  dsimp only [Cursor.remaining, Cursor.skip] at h
  split at h
  . next hfits =>
    obtain ⟨rfl, rfl⟩ := exec_pure_eq_ok_iff.1 h
    exact ⟨by omega, rfl, rfl⟩
  . simp at h

theorem exec_string_eq_error (h : exec Read.string c = (.error e, c'))
    : c' = c.pass 8 ∧ ¬c.HasText := by
  unfold Cursor.HasText
  unfold Read.string at h
  rw [exec_bind_of_ok (exec_get c)] at h
  rcases exec_bind_eq_error_iff.1 h with h | ⟨n, c₁, hread, h⟩
  . obtain ⟨rfl, hlt⟩ := exec_nat_eq_error h
    exact ⟨(Cursor.pass_of_lt hlt).symm, by omega⟩
  . obtain ⟨hroom, rfl, rfl⟩ := exec_nat_eq_ok_peek hread
    rw [Cursor.pass_of_le hroom]
    split at h
    . next hlong =>
      rw [exec_bind_of_error (exec_throw _ _), Prod.mk.injEq] at h
      exact ⟨h.2.symm, by omega⟩
    . rcases exec_bind_eq_error_iff.1 h with h | ⟨text, c₂, _, h⟩
      . obtain ⟨rfl, hlt⟩ := exec_bytes_eq_error h
        dsimp only [Cursor.skip] at hlt
        exact ⟨rfl, by omega⟩
      . simp at h

theorem exec_string_eq_ok_peek {s : String} (h : exec Read.string c = (.ok s, c'))
    : c.HasText ∧ c' = c.skip (8 + c.peek 8) := by
  obtain ⟨text, htext, hshort, _, hstands, hc'⟩ := exec_string_eq_ok h
  have hpeek : c.peek 8 = text.length := Cursor.peek_of_stands htext hstands.left
  have hroom := hstands.length_le
  rw [List.length_append, LittleEndian.length_encode] at hroom hc'
  rw [hpeek]
  unfold Cursor.HasText
  rw [hpeek]
  exact ⟨⟨by omega, hshort⟩, hc'⟩

theorem exec_strings_eq_error {count : Nat} (h : exec (Read.strings count) c = (.error e, c'))
    : c' = c.passTexts count := by
  induction count generalizing c with
  | zero =>
    unfold Read.strings at h
    simp at h
  | succ count ih =>
    unfold Read.strings at h
    unfold Cursor.passTexts
    rcases exec_bind_eq_error_iff.1 h with h | ⟨s, c₁, htext, h⟩
    . obtain ⟨hc', hnone⟩ := exec_string_eq_error h
      rw [if_neg hnone, hc']
    . obtain ⟨hhas, rfl⟩ := exec_string_eq_ok_peek htext
      rw [if_pos hhas]
      rcases exec_bind_eq_error_iff.1 h with h | ⟨rest, c₂, _, h⟩
      . exact ih h
      . simp at h

/--
Numbers that have been read always are as many bytes as their elements take.
-/
theorem ValueType.length_loaded {type : ValueType} {width count : Nat} {dtype : DType}
    {data : List UInt8} (hlayout : type.layout = .number width dtype)
    (hdata : data.length = count * width) : (type.loaded data).length = count * dtype.size := by
  unfold loaded
  split
  . next hwide =>
    subst hwide
    simp only [layout, Layout.number.injEq] at hlayout
    obtain ⟨rfl, rfl⟩ := hlayout
    rw [length_narrowDoubles, hdata, Nat.mul_div_cancel count (by decide)]
    rfl
  . next hnarrow =>
    have hwidth : width = dtype.size := by
      cases type <;> simp_all only [layout, Layout.number.injEq, reduceCtorEq, not_true] <;>
        obtain ⟨rfl, rfl⟩ := hlayout <;> rfl
    rw [hdata, hwidth]

theorem exec_numbers_eq_error {type : ValueType} {width count : Nat}
    (h : exec (Read.numbers type width count) c = (.error e, c'))
    : c' = c ∧ c.data.length < c.offset + count * width := by
  unfold Read.numbers at h
  rcases exec_bind_eq_error_iff.1 h with h | ⟨data, c₁, _, h⟩
  . exact exec_bytes_eq_error h
  . split at h
    . simp at h
    . simp at h

/--
Numbers that have been read make up a tensor.
-/
theorem exists_ofBytes_of_numbers {type : ValueType} {width count : Nat} {dtype : DType}
    {shape : List Nat} {bytes : List UInt8} (hlayout : type.layout = .number width dtype)
    (hsmall : Shape.Small shape) (hshape : Shape.numel shape = count)
    (h : exec (Read.numbers type width count) c = (.ok bytes, c'))
    : ∃ t, Tensor.ofBytes dtype shape bytes = .ok t := by
  obtain ⟨data, hdata, rfl, _⟩ := exec_numbers_eq_ok h
  have hlength := ValueType.length_loaded hlayout hdata
  rw [← hshape] at hlength
  exact Tensor.exists_ofBytes_iff.2 ⟨hsmall, hlength⟩

theorem exec_array_eq_error (h : exec Read.array c = (.error e, c')) : c' = c.passArray := by
  unfold Read.array at h
  unfold Cursor.passArray
  rcases exec_bind_eq_error_iff.1 h with h | ⟨code, c₁, hcode, h⟩
  . obtain ⟨rfl, hlt⟩ := exec_nat_eq_error h
    rw [if_neg (Nat.not_le.2 hlt)]
  . obtain ⟨hroom, rfl, rfl⟩ := exec_nat_eq_ok_peek hcode
    rw [if_pos hroom]
    generalize ValueType.ofCode? (c.peek 4) = type? at h ⊢
    cases type? with
    | none =>
      rw [exec_throw, Prod.mk.injEq] at h
      exact h.2.symm
    | some type =>
      unfold Cursor.passElements
      dsimp only at h ⊢
      split at h
      . next hlayout =>
        rw [exec_throw, Prod.mk.injEq] at h
        rw [hlayout]
        exact h.2.symm
      . next hlayout =>
        rw [hlayout]
        dsimp only
        rcases exec_bind_eq_error_iff.1 h with h | ⟨count, c₂, hcount, h⟩
        . obtain ⟨rfl, hlt⟩ := exec_length_eq_error h
          rw [if_neg (Nat.not_le.2 hlt)]
        . obtain ⟨hfits, rfl, rfl⟩ := exec_length_eq_ok_peek hcount
          rw [if_pos hfits]
          rcases exec_bind_eq_error_iff.1 h with h | ⟨texts, c₃, _, h⟩
          . exact exec_strings_eq_error h
          . simp at h
      . next width dtype hlayout =>
        rw [hlayout]
        dsimp only
        rcases exec_bind_eq_error_iff.1 h with h | ⟨count, c₂, hcount, h⟩
        . exact (exec_length_eq_error h).1
        . obtain ⟨hfits, rfl, rfl⟩ := exec_length_eq_ok_peek hcount
          rw [Cursor.pass_of_le (by omega)]
          rcases exec_bind_eq_error_iff.1 h with h | ⟨bytes, c₃, hbytes, h⟩
          . exact (exec_numbers_eq_error h).1
          . have hshape : Shape.numel [(c.skip 4).peek 8] = (c.skip 4).peek 8 := Nat.mul_one _
            have hsmall := Shape.small_singleton_iff.2 ((c.skip 4).peek_lt (Nat.le_refl 8))
            obtain ⟨t, ht⟩ := exists_ofBytes_of_numbers hlayout hsmall hshape hbytes
            rw [ht, exec_bind_of_ok (exec_lift _ _)] at h
            simp at h

theorem exec_value_eq_error {code : Nat} (h : exec (Read.value code) c = (.error e, c'))
    : c' = (Fetch.value code).remnant c ∧
        ((Fetch.value code).remnant c = c ↔
          ∀ n ∈ (Fetch.value code).head?, c.data.length < c.offset + n) := by
  unfold Read.value at h
  unfold Fetch.remnant Fetch.head?
  dsimp only
  generalize ValueType.ofCode? code = type? at h ⊢
  cases type? with
  | none =>
    rw [exec_throw, Prod.mk.injEq] at h
    exact ⟨h.2.symm, by simp⟩
  | some type =>
    simp only [Option.map_some, Option.mem_some_iff, forall_eq'] at h ⊢
    split at h
    . next hlayout =>
      rw [hlayout]
      exact ⟨exec_array_eq_error h, c.passArray_eq_self_iff⟩
    . next hlayout =>
      rw [hlayout]
      have hc' := (exec_string_eq_error (exec_map_eq_error_iff.1 h)).1
      exact ⟨hc', Cursor.pass_eq_self_iff (by decide)⟩
    . next width dtype hlayout =>
      rw [hlayout]
      rcases exec_bind_eq_error_iff.1 h with h | ⟨bytes, c₁, hbytes, h⟩
      . obtain ⟨hc', hlt⟩ := exec_numbers_eq_error h
        rw [Nat.one_mul] at hlt
        exact ⟨hc', iff_of_true rfl hlt⟩
      . obtain ⟨t, ht⟩ := exists_ofBytes_of_numbers hlayout rfl Shape.numel_nil hbytes
        rw [ht, exec_bind_of_ok (exec_lift _ _)] at h
        simp at h

namespace Fetch

/--
What a read gives is made of the bytes that it has taken.
-/
theorem exists_makes_of_read {f : Fetch} {a : Fetched} (h : exec f.read c = (.ok a, c'))
    : ∃ w, f.Makes w a ∧ c.Passes w c' := by
  cases f with
  | bytes n =>
    obtain ⟨data, hdata, rfl⟩ := exec_map_eq_ok_iff.1 h
    obtain ⟨rfl, hpasses⟩ := exec_bytes_eq_ok hdata
    exact ⟨data, .bytes data, hpasses⟩
  | u8 =>
    obtain ⟨n, hn, rfl⟩ := exec_map_eq_ok_iff.1 h
    obtain ⟨hlt, hpasses⟩ := exec_nat_eq_ok hn
    exact ⟨_, .u8 hlt, hpasses⟩
  | u32 =>
    obtain ⟨n, hn, rfl⟩ := exec_map_eq_ok_iff.1 h
    obtain ⟨hlt, hpasses⟩ := exec_u32_eq_ok hn
    exact ⟨_, .u32 hlt, hpasses⟩
  | u64 =>
    obtain ⟨n, hn, rfl⟩ := exec_map_eq_ok_iff.1 h
    obtain ⟨hlt, hpasses⟩ := exec_u64_eq_ok hn
    exact ⟨_, .u64 hlt, hpasses⟩
  | length what =>
    obtain ⟨n, hn, rfl⟩ := exec_map_eq_ok_iff.1 h
    obtain ⟨hlt, hpasses⟩ := exec_length_eq_ok hn
    exact ⟨_, .length what hlt, hpasses⟩
  | string =>
    obtain ⟨s, hs, rfl⟩ := exec_map_eq_ok_iff.1 h
    obtain ⟨raw, hraw, _, rfl, hpasses⟩ := exec_string_eq_ok hs
    exact ⟨_, .string hraw, hpasses⟩
  | value code =>
    obtain ⟨v, hv, rfl⟩ := exec_map_eq_ok_iff.1 h
    obtain ⟨type, w, htype, hpasses, hstored⟩ := exec_value_eq_ok hv
    exact ⟨w, .value htype hstored, hpasses⟩

/--
A read that fails ends behind the fields it could read, and where it began only if the first of these
is missing.
-/
theorem eq_remnant_of_read {f : Fetch} (h : exec f.read c = (.error e, c'))
    : c' = f.remnant c ∧ (f.remnant c = c ↔ ∀ n ∈ f.head?, c.data.length < c.offset + n) := by
  cases f with
  | bytes n =>
    obtain ⟨hc', hlt⟩ := exec_bytes_eq_error (exec_map_eq_error_iff.1 h)
    exact ⟨hc', by simpa [remnant, head?] using hlt⟩
  | u8 | u32 | u64 =>
    obtain ⟨hc', hlt⟩ := exec_nat_eq_error (exec_map_eq_error_iff.1 h)
    exact ⟨hc', by simpa [remnant, head?] using hlt⟩
  | length what =>
    have hc' := (exec_length_eq_error (exec_map_eq_error_iff.1 h)).1
    exact ⟨hc', by simpa [remnant, head?] using Cursor.pass_eq_self_iff (by decide)⟩
  | string =>
    have hc' := (exec_string_eq_error (exec_map_eq_error_iff.1 h)).1
    exact ⟨hc', by simpa [remnant, head?] using Cursor.pass_eq_self_iff (by decide)⟩
  | value code => exact exec_value_eq_error (exec_map_eq_error_iff.1 h)

end Fetch

/--
A read that succeeds has taken the bytes that make up what it gives, all of them within the data. A
read that fails has taken the fields it could read before it came to the one that is missing or
refused; it ends where it began only if the data ends within the first, or if no field is read.
-/
theorem passes_or_remnant_of_read (f : Fetch) (c : Cursor)
    : (∀ a c', exec f.read c = (.ok a, c') →
        ∃ w, f.Makes w a ∧ c.Passes w c' ∧ c'.offset ≤ c.data.length) ∧
      ∀ e c', exec f.read c = (.error e, c') →
        c' = f.remnant c ∧ (c' = c ↔ ∀ n ∈ f.head?, c.data.length < c.offset + n) := by
  constructor
  . intro a c' h
    obtain ⟨w, hmakes, hpasses⟩ := Fetch.exists_makes_of_read h
    refine ⟨w, hmakes, hpasses, ?_⟩
    rw [hpasses.2]
    exact hpasses.1.length_le
  . intro e c' h
    obtain ⟨rfl, hself⟩ := Fetch.eq_remnant_of_read h
    exact ⟨rfl, hself⟩

/--
An array of a text of one byte and a text of two, of which only the first is short enough.
-/
def longSecondText : Cursor :=
  ⟨[8, 0, 0, 0, 2, 0, 0, 0, 0, 0, 0, 0, 1, 0, 0, 0, 0, 0, 0, 0, 0x61, 2, 0, 0, 0, 0, 0, 0, 0, 0x62,
    0x63], 0, 1⟩

/--
The array is refused with its first text taken, and the length of its second.
-/
theorem passes_or_remnant_of_read_longSecondText
    : exec (Fetch.value 9).read longSecondText
        = (.error (.gguf (.stringTooLong 2 1 21)), longSecondText.skip 29) ∧
      (Fetch.value 9).remnant longSecondText = longSecondText.skip 29 ∧
      longSecondText.skip 29 ≠ longSecondText := by
  have hexec : exec (Fetch.value 9).read longSecondText
      = (.error (.gguf (.stringTooLong 2 1 21)), longSecondText.skip 29) := by
    rfl
  obtain ⟨hremnant, hself⟩ :=
    (passes_or_remnant_of_read (.value 9) longSecondText).2 _ _ hexec
  refine ⟨hexec, hremnant.symm, fun h => ?_⟩
  exact absurd (hself.1 h 4 rfl) (by decide)

end TensorFiles.Gguf
