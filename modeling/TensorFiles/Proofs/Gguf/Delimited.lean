import TensorFiles.Proofs.Gguf.MetaValue
import TensorFiles.Proofs.Result
/-!
This module contains what a read that succeeds depends on. It has taken some bytes, and from these
it gives the same again, wherever they stand, whatever follows them, and if strings may be longer.
That holds of the lengths of arrays, too: the elements take as much room as the length asks for.
-/

namespace TensorFiles.Gguf

/--
If the read succeeds, then by taking bytes that it can be repeated on. They are `least` bytes or
more.
-/
def Delimited (least : Nat) (read : Read α) : Prop :=
  ∀ (c c' : Cursor) (a : α), c.offset ≤ c.data.length → exec read c = (.ok a, c') →
    ∃ bytes, least ≤ bytes.length ∧ Stands c.data c.offset bytes ∧
      c' = { c with offset := c.offset + bytes.length } ∧
      ∀ limit, c.maxStringLen ≤ limit → Reads read bytes limit a

variable {α β : Type} {k m n : Nat}

/--
A read that succeeds moves on within the data, by as much as it takes at least.
-/
theorem Delimited.stop_le {read : Read α} {data : List UInt8} {offset stop limit : Nat} {a : α}
    (h : Delimited n read) (hroom : offset ≤ data.length)
    (hexec : exec read ⟨data, offset, limit⟩ = (.ok a, ⟨data, stop, limit⟩))
    : offset + n ≤ stop ∧ stop ≤ data.length := by
  obtain ⟨bytes, hleast, hstands, hcursor, _⟩ := h _ _ a hroom hexec
  rw [Cursor.mk.injEq] at hcursor
  rw [hcursor.2.1]
  exact ⟨Nat.add_le_add_left hleast offset, hstands.length_le⟩

theorem Delimited.le_length {read : Read α} {bytes : List UInt8} {limit : Nat} {a : α}
    (h : Delimited n read) (hreads : Reads read bytes limit a) : n ≤ bytes.length := by
  have hexec := hreads.exec_eq (stands_of_append [] bytes [])
  have hle := (h.stop_le (Nat.zero_le _) hexec).1
  simpa using hle

theorem Delimited.mono {read : Read α} (h : Delimited m read) (hle : n ≤ m)
    : Delimited n read := by
  intro c c' a hc hexec
  obtain ⟨bytes, hleast, hbytes⟩ := h c c' a hc hexec
  exact ⟨bytes, by omega, hbytes⟩

theorem delimited_pure (a : α) : Delimited 0 (pure a) := by
  intro c c' b hc hexec
  obtain ⟨rfl, rfl⟩ := exec_pure_eq_ok_iff.1 hexec
  exact ⟨[], Nat.le_refl 0, stands_nil hc, rfl, fun _ _ => reads_pure a⟩

theorem delimited_throw (e : Error) : Delimited k (throw e : Read α) := by
  intro c c' a _ hexec
  simp at hexec

theorem delimited_throw_bind (e : Error) (f : β → Read α)
    : Delimited k ((throw e : Read β) >>= f) := by
  intro c c' a _ hexec
  rw [exec_bind_of_error (exec_throw e c)] at hexec
  simp at hexec

theorem Delimited.bind {x : Read α} {f : α → Read β} (hx : Delimited m x)
    (hf : ∀ a, Delimited n (f a)) (hle : k ≤ m + n) : Delimited k (x >>= f) := by
  intro c c' b hc hexec
  obtain ⟨a, c₁, hfirst, hrest⟩ := exec_bind_eq_ok hexec
  obtain ⟨bytes, hleast, hstands, rfl, hreads⟩ := hx c c₁ a hc hfirst
  obtain ⟨bytes', hleast', hstands', rfl, hreads'⟩ := hf a _ c' b hstands.length_le hrest
  refine ⟨bytes ++ bytes', ?_, hstands.join hstands', ?_, ?_⟩
  . rw [List.length_append]
    omega
  . rw [List.length_append, ← Nat.add_assoc]
  . intro limit hlimit
    exact (hreads limit hlimit).bind (hreads' limit hlimit)

theorem Delimited.next {x : Read α} {f : α → Read β} (hx : Delimited m x)
    (hf : ∀ a, Delimited n (f a)) : Delimited 0 (x >>= f) :=
  hx.bind hf (Nat.zero_le _)

theorem Delimited.bind_pure {x : Read α} (hx : Delimited m x) (f : α → β)
    : Delimited m (do let a ← x; pure (f a)) :=
  hx.bind (fun a => delimited_pure (f a)) (Nat.le_refl m)

theorem Delimited.map {x : Read α} (hx : Delimited m x) (f : α → β)
    : Delimited m (f <$> x) := by
  rw [map_eq_pure_bind]
  exact hx.bind_pure f

theorem Delimited.lift_bind {x : Except Error α} {f : α → Read β}
    (hf : ∀ a, Delimited k (f a)) : Delimited k ((liftM x : Read α) >>= f) := by
  intro c c' b hc hexec
  obtain ⟨a, c₁, hlift, hrest⟩ := exec_bind_eq_ok hexec
  rw [exec_lift_eq_iff] at hlift
  obtain ⟨rfl, rfl⟩ := hlift
  obtain ⟨bytes, hleast, hstands, hc', hreads⟩ := hf a c c' b hc hrest
  exact ⟨bytes, hleast, hstands, hc', fun limit hlimit => .lift_bind rfl (hreads limit hlimit)⟩

/--
The bytes `bytes` stand behind the cursor `c`, and `c'` is the cursor that has taken them.
-/
def Cursor.Passes (c : Cursor) (bytes : List UInt8) (c' : Cursor) : Prop :=
  Stands c.data c.offset bytes ∧ c' = { c with offset := c.offset + bytes.length }

section

variable {c c₁ c' : Cursor} {bytes bytes' : List UInt8}

theorem Cursor.passes_nil (h : c.offset ≤ c.data.length) : c.Passes [] c :=
  ⟨stands_nil h, rfl⟩

theorem Cursor.Passes.append (h : c.Passes bytes c₁) (h' : c₁.Passes bytes' c')
    : c.Passes (bytes ++ bytes') c' := by
  obtain ⟨hstands, rfl⟩ := h
  obtain ⟨hstands', rfl⟩ := h'
  refine ⟨hstands.join hstands', ?_⟩
  rw [List.length_append, Nat.add_assoc]

theorem Cursor.Passes.offset_le (h : c.Passes bytes c') : c'.offset ≤ c'.data.length := by
  obtain ⟨hstands, rfl⟩ := h
  exact hstands.length_le

theorem exec_bytes_eq_ok (h : exec (Read.bytes n) c = (.ok bytes, c'))
    : bytes.length = n ∧ c.Passes bytes c' := by
  unfold Read.bytes at h
  rw [exec_bind_of_ok (exec_get c)] at h
  split at h
  . next hroom =>
    rw [exec_bind_of_ok (exec_set _ _), exec_pure_eq_ok_iff] at h
    obtain ⟨rfl, rfl⟩ := h
    have hlength : ((c.data.drop c.offset).take n).length = n := by
      rw [List.length_take, List.length_drop]
      omega
    refine ⟨hlength, stands_take_drop hroom, ?_⟩
    rw [hlength]
  . simp at h

/--
A number that is read stands there as it would be written.
-/
theorem exec_nat_eq_ok {width : Nat} (h : exec (Read.nat width) c = (.ok n, c'))
    : n < LittleEndian.bound width ∧ c.Passes (LittleEndian.encode width n) c' := by
  unfold Read.nat at h
  obtain ⟨bytes, hbytes, rfl⟩ := exec_map_eq_ok_iff.1 h
  obtain ⟨rfl, hpasses⟩ := exec_bytes_eq_ok hbytes
  rw [LittleEndian.encode_decode]
  exact ⟨LittleEndian.decode_lt bytes, hpasses⟩

theorem exec_u32_eq_ok (h : exec Read.u32 c = (.ok n, c'))
    : n < halfWordBound ∧ c.Passes (LittleEndian.encode 4 n) c' :=
  exec_nat_eq_ok h

theorem exec_u64_eq_ok (h : exec Read.u64 c = (.ok n, c'))
    : n < wordBound ∧ c.Passes (LittleEndian.encode 8 n) c' :=
  exec_nat_eq_ok h

theorem exec_length_eq_ok {what : String} (h : exec (Read.length what) c = (.ok n, c'))
    : n < wordBound ∧ c.Passes (LittleEndian.encode 8 n) c' := by
  unfold Read.length at h
  rw [exec_bind_of_ok (exec_get c)] at h
  obtain ⟨n', c₁, hread, h⟩ := exec_bind_eq_ok h
  rw [exec_bind_of_ok (exec_get c₁)] at h
  dsimp only at h
  split at h
  . obtain ⟨rfl, rfl⟩ := exec_pure_eq_ok_iff.1 h
    exact exec_u64_eq_ok hread
  . simp at h

/--
A text that is read stands there with its length in front of it.
-/
theorem exec_string_eq_ok {s : String} (h : exec Read.string c = (.ok s, c'))
    : ∃ text : List UInt8, text.length < wordBound ∧ text.length ≤ c.maxStringLen ∧
        s = String.ofList (Utf8.decodeLossy text) ∧
        c.Passes (LittleEndian.encode 8 text.length ++ text) c' := by
  unfold Read.string at h
  rw [exec_bind_of_ok (exec_get c)] at h
  obtain ⟨n, c₁, hread, h⟩ := exec_bind_eq_ok h
  obtain ⟨hn, hlength⟩ := exec_u64_eq_ok hread
  split at h
  . simp at h
  . next hshort =>
    obtain ⟨text, c₂, htext, hend⟩ := exec_bind_eq_ok h
    obtain ⟨rfl, hpasses⟩ := exec_bytes_eq_ok htext
    obtain ⟨rfl, rfl⟩ := exec_pure_eq_ok_iff.1 hend
    exact ⟨text, hn, Nat.not_lt.1 hshort, rfl, hlength.append hpasses⟩

end

theorem delimited_bytes (n : Nat) : Delimited n (Read.bytes n) := by
  intro c c' bytes _ hexec
  obtain ⟨hlength, hstands, hc'⟩ := exec_bytes_eq_ok hexec
  exact ⟨bytes, Nat.le_of_eq hlength.symm, hstands, hc', fun _ _ => reads_bytes hlength⟩

theorem delimited_nat (width : Nat) : Delimited width (Read.nat width) :=
  (delimited_bytes width).map LittleEndian.decode

theorem delimited_u32 : Delimited 4 Read.u32 := delimited_nat 4

theorem delimited_u64 : Delimited 8 Read.u64 := delimited_nat 8

theorem delimited_string : Delimited 8 Read.string := by
  intro c c' s _ hexec
  obtain ⟨text, htext, hshort, rfl, hstands, hc'⟩ := exec_string_eq_ok hexec
  refine ⟨_, by simp, hstands, hc', fun limit hlimit => ?_⟩
  exact reads_text htext (Nat.le_trans hshort hlimit)

/--
A length needs no more than the elements behind it take.
-/
theorem Delimited.length_bind {f : Nat → Read α} (what : String) (hf : ∀ n, Delimited n (f n))
    : Delimited 8 (Read.length what >>= f) := by
  intro c c' a _ hexec
  obtain ⟨n, c₁, hlength, hrest⟩ := exec_bind_eq_ok hexec
  obtain ⟨hn, hpasses⟩ := exec_length_eq_ok hlength
  obtain ⟨bytes, hleast, hstands, hcursor, hreads⟩ := hf n c₁ c' a hpasses.offset_le hrest
  obtain ⟨hwhole, hc'⟩ := hpasses.append ⟨hstands, hcursor⟩
  refine ⟨LittleEndian.encode 8 n ++ bytes, by simp, hwhole, hc', ?_⟩
  intro limit hlimit
  have hlimit' : c₁.maxStringLen ≤ limit := by
    rw [hpasses.2]
    exact hlimit
  exact (hreads limit hlimit').length_bind what hn hleast

theorem delimited_strings (count : Nat) : Delimited count (Read.strings count) := by
  induction count with
  | zero => exact delimited_pure []
  | succ count ih =>
    apply delimited_string.bind (fun s => ih.bind_pure (s :: ·))
    omega

theorem delimited_dims (count : Nat) : Delimited 0 (Read.dims count) := by
  induction count with
  | zero => exact delimited_pure []
  | succ count ih =>
    exact delimited_u64.next (fun d => ih.bind_pure (d :: ·))

theorem delimited_numbers (type : ValueType) (width count : Nat)
    : Delimited (count * width) (Read.numbers type width count) := by
  unfold Read.numbers
  split
  . exact (delimited_bytes (count * width)).bind_pure Read.narrowDoubles
  . exact (delimited_bytes (count * width)).bind_pure id

theorem ValueType.width_pos {type : ValueType} {width : Nat} {dtype : DType}
    (h : type.layout = .number width dtype) : 0 < width := by
  cases type <;> simp only [layout, Layout.number.injEq, reduceCtorEq] at h <;> omega

theorem delimited_array : Delimited 12 Read.array := by
  unfold Read.array
  apply delimited_u32.bind (n := 8) _ (by decide)
  intro code
  split
  . exact delimited_throw _
  . next type _ =>
    split
    . exact delimited_throw _
    . apply Delimited.length_bind
      exact fun count => (delimited_strings count).bind_pure MetaValue.strings
    . next width dtype hlayout =>
      apply Delimited.length_bind
      intro count
      have hcount : count ≤ count * width :=
        Nat.le_mul_of_pos_right count (ValueType.width_pos hlayout)
      exact (delimited_numbers type width count).bind
        (fun data => .lift_bind (fun t => delimited_pure (MetaValue.array t))) hcount

/--
There is no value without bytes.
-/
theorem delimited_value (code : Nat) : Delimited 1 (Read.value code) := by
  unfold Read.value
  split
  . exact delimited_throw _
  . next type _ =>
    split
    . exact delimited_array.mono (by decide)
    . exact (delimited_string.map MetaValue.string).mono (by decide)
    . next width dtype hlayout =>
      have hwidth : 1 ≤ 1 * width + 0 := by
        have := ValueType.width_pos hlayout
        omega
      exact (delimited_numbers type width 1).bind
        (fun data => .lift_bind (fun t => delimited_pure (MetaValue.scalar t))) hwidth

/--
A value with its type in front.
-/
theorem delimited_typedValue : Delimited 5 (Read.u32 >>= Read.value) :=
  delimited_u32.bind delimited_value (by decide)

theorem delimited_header : Delimited 24 Read.header := by
  unfold Read.header
  apply (delimited_bytes 4).bind (n := 20) _ (by decide)
  intro found
  split
  . exact delimited_throw_bind _ _
  . apply delimited_u32.bind (n := 16) _ (by decide)
    intro version
    split
    . exact delimited_throw_bind _ _
    . apply delimited_u64.bind (n := 8) _ (by decide)
      exact fun tensors => delimited_u64.bind_pure (fun records => (version, tensors, records))

theorem delimited_descriptor : Delimited 24 Read.descriptor := by
  unfold Read.descriptor
  apply delimited_string.bind (n := 16) _ (by decide)
  intro name
  apply delimited_u32.bind (n := 12) _ (by decide)
  intro rank
  split
  . exact delimited_throw_bind _ _
  . apply (delimited_dims rank).bind (n := 12) _ (by decide)
    intro stored
    dsimp only
    split
    . exact delimited_throw_bind _ _
    . apply delimited_u32.bind (n := 8) _ (by decide)
      intro code
      split
      . exact delimited_throw _
      . next type _ =>
        exact delimited_u64.bind_pure (Descriptor.mk name stored.reverse type)

end TensorFiles.Gguf
