import TensorFiles.Proofs.Gguf.Parts
import TensorFiles.Proofs.Gguf.Stopped
/-!
This module contains what the limit on the length of texts does to what is read. Nothing but texts is
held against it. Where bytes have been read under one limit, they are read under another one in the same
way if and only if none of the texts in them is too long for that.
-/

namespace TensorFiles.Gguf

variable {α β : Type} {m n limit limit' : Nat} {bytes rest : List UInt8}

/--
The read makes nothing of the limit on texts.
-/
def Unlimited (read : Read α) : Prop :=
  ∀ (c : Cursor) (limit : Nat), exec read { c with maxStringLen := limit }
    = ((exec read c).1, { (exec read c).2 with maxStringLen := limit })

theorem unlimited_pure (a : α) : Unlimited (pure a) :=
  fun _ _ => rfl

theorem unlimited_throw (e : Error) : Unlimited (throw e : Read α) :=
  fun _ _ => rfl

theorem unlimited_throw_bind (e : Error) (f : β → Read α)
    : Unlimited ((throw e : Read β) >>= f) :=
  fun _ _ => rfl

theorem Unlimited.bind {x : Read α} {f : α → Read β} (hx : Unlimited x)
    (hf : ∀ a, Unlimited (f a)) : Unlimited (x >>= f) := by
  intro c limit
  rw [exec_bind, exec_bind, hx c limit]
  rcases exec x c with ⟨e | a, c'⟩
  . rfl
  . exact hf a c' limit

theorem Unlimited.map {x : Read α} (hx : Unlimited x) (f : α → β) : Unlimited (f <$> x) := by
  rw [map_eq_pure_bind]
  exact hx.bind (fun a => unlimited_pure (f a))

theorem unlimited_bytes (n : Nat) : Unlimited (Read.bytes n) := by
  intro c limit
  unfold Read.bytes
  rw [exec_bind_of_ok (exec_get _), exec_bind_of_ok (exec_get c)]
  dsimp only
  split
  . rfl
  . rfl

theorem unlimited_nat (width : Nat) : Unlimited (Read.nat width) :=
  (unlimited_bytes width).map LittleEndian.decode

theorem unlimited_dims (count : Nat) : Unlimited (Read.dims count) := by
  induction count with
  | zero => exact unlimited_pure []
  | succ count ih =>
    exact (unlimited_nat 8).bind (fun d => ih.bind (fun rest => unlimited_pure (d :: rest)))

theorem unlimited_header : Unlimited Read.header := by
  unfold Read.header
  apply (unlimited_bytes 4).bind
  intro found
  split
  . exact unlimited_throw_bind _ _
  . apply (unlimited_nat 4).bind
    intro version
    split
    . exact unlimited_throw_bind _ _
    . apply (unlimited_nat 8).bind
      intro tensors
      exact (unlimited_nat 8).bind (fun records => unlimited_pure (version, tensors, records))

theorem stands_self (bytes : List UInt8) : Stands bytes 0 bytes := by
  have hstands := stands_of_append [] bytes []
  rw [List.append_nil] at hstands
  exact hstands

/--
A cursor that has come to the end of its data has taken all of it.
-/
theorem Cursor.Passes.eq_of_self {w : List UInt8}
    (h : (Cursor.mk bytes 0 limit).Passes w ⟨bytes, bytes.length, limit⟩) : bytes = w := by
  have hlength : bytes.length = 0 + w.length := congrArg Cursor.offset h.2
  have hsame := h.1.take_drop
  rw [List.drop_zero, ← Nat.zero_add w.length, ← hlength, List.take_length] at hsame
  exact hsame

namespace Reads

variable {read : Read α} {a : α} {b : β}

/--
What is read wherever the bytes stand is read where they stand alone.
-/
theorem exec_self (h : Reads read bytes limit a)
    : exec read ⟨bytes, 0, limit⟩ = (.ok a, ⟨bytes, bytes.length, limit⟩) := by
  have hexec := h.exec_eq (stands_self bytes)
  rw [Nat.zero_add] at hexec
  exact hexec

theorem of_unlimited (h : Reads read bytes limit a) (hread : Unlimited read) (limit' : Nat)
    : Reads read bytes limit' a := by
  intro c hc hs
  subst hc
  have hexec := hread { c with maxStringLen := limit } c.maxStringLen
  rw [h { c with maxStringLen := limit } rfl hs] at hexec
  exact hexec

/--
What is read under some limit is read under a higher one.
-/
theorem mono (h : Reads read bytes limit a) (hread : Delimited n read) (hle : limit ≤ limit')
    : Reads read bytes limit' a := by
  obtain ⟨bytes', _, hstands, hcursor, hreads⟩ := hread _ _ a (Nat.zero_le _) h.exec_self
  have hsame : bytes = bytes' := Cursor.Passes.eq_of_self ⟨hstands, hcursor⟩
  rw [hsame]
  exact hreads limit' hle

/--
Bytes that two reads take one after the other are those of the first and those of the second.
-/
theorem exists_of_bind {x : Read α} {f : α → Read β} (h : Reads (x >>= f) bytes limit b)
    (hx : Delimited m x) (hf : ∀ a, Delimited n (f a))
    : ∃ a front rest, bytes = front ++ rest ∧ Reads x front limit a ∧
        Reads (f a) rest limit b := by
  obtain ⟨a, c₁, hfirst, hrest⟩ := exec_bind_eq_ok h.exec_self
  obtain ⟨front, _, hstands, rfl, hreads⟩ := hx _ c₁ a (Nat.zero_le _) hfirst
  obtain ⟨rest, _, hstands', hcursor, hreads'⟩ := hf a _ _ b hstands.length_le hrest
  have hpasses := Cursor.Passes.append (c := ⟨bytes, 0, limit⟩) ⟨hstands, rfl⟩ ⟨hstands', hcursor⟩
  exact ⟨a, front, rest, hpasses.eq_of_self, hreads limit (Nat.le_refl _),
    hreads' limit (Nat.le_refl _)⟩

/--
Where bytes begin with what is read, what is read from them is the same and takes the same bytes.
-/
theorem eq_of_append {bytes' rest' : List UInt8} {a' : α} (hread : Delimited n read)
    (h : Reads read bytes limit a) (h' : Reads read bytes' limit' a')
    (heq : bytes ++ rest = bytes' ++ rest') : bytes = bytes' ∧ a = a' ∧ rest = rest' := by
  -- a limit under which both can be read
  have hfirst := (h.mono hread (Nat.le_max_left limit limit')).exec_eq
    (stands_of_append [] bytes rest)
  have hsecond := (h'.mono hread (Nat.le_max_right limit limit')).exec_eq
    (stands_of_append [] bytes' rest')
  rw [List.append_assoc, ← heq, ← List.append_assoc, hfirst] at hsecond
  simp only [Prod.mk.injEq, Except.ok.injEq, Cursor.mk.injEq, Nat.add_left_cancel_iff] at hsecond
  obtain ⟨rfl, _, hlength, _⟩ := hsecond
  obtain ⟨rfl, rfl⟩ := List.append_inj heq hlength
  exact ⟨rfl, rfl, rfl⟩

end Reads

theorem exists_of_reads_string {s : String} (h : Reads Read.string bytes limit s)
    : ∃ raw : List UInt8, raw.length < wordBound ∧ raw.length ≤ limit ∧ s = lossyText raw ∧
        bytes = storedText raw := by
  obtain ⟨raw, hraw, hshort, rfl, hpasses⟩ := exec_string_eq_ok h.exec_self
  exact ⟨raw, hraw, hshort, rfl, hpasses.eq_of_self⟩

theorem eq_of_reads_u32 {code : Nat} (h : Reads Read.u32 bytes limit code)
    : bytes = LittleEndian.encode 4 code :=
  (exec_u32_eq_ok h.exec_self).2.eq_of_self

theorem length_storedText (raw : List UInt8) : (storedText raw).length = 8 + raw.length := by
  unfold storedText
  rw [List.length_append, LittleEndian.length_encode]

theorem reads_storedText {raw : List UInt8} (hraw : raw.length < wordBound)
    (hshort : raw.length ≤ limit) : Reads Read.string (storedText raw) limit (lossyText raw) :=
  reads_text hraw hshort

theorem reads_storedTexts {raws : List (List UInt8)} (hraws : ∀ raw ∈ raws, raw.length < wordBound)
    (hshort : ∀ raw ∈ raws, raw.length ≤ limit)
    : Reads (Read.strings raws.length) (raws.flatMap storedText) limit (raws.map lossyText) := by
  induction raws with
  | nil => exact reads_pure []
  | cons raw raws ih =>
    rw [List.forall_mem_cons] at hraws hshort
    apply (reads_storedText hraws.1 hshort.1).bind
    exact (ih hraws.2 hshort.2).bind_pure (lossyText raw :: ·)

theorem reads_loaded {type : ValueType} {width count : Nat} {data : List UInt8}
    (hdata : data.length = count * width)
    : Reads (Read.numbers type width count) data limit (type.loaded data) := by
  unfold Read.numbers ValueType.loaded
  split
  . exact (reads_bytes hdata).bind_pure Read.narrowDoubles
  . exact (reads_bytes hdata).bind_pure id

/--
Texts that have been read were not too long.
-/
theorem length_le_of_exec_strings {raws : List (List UInt8)} {c c' : Cursor} {texts : List String}
    (hraws : ∀ raw ∈ raws, raw.length < wordBound)
    (hs : Stands c.data c.offset (raws.flatMap storedText))
    (h : exec (Read.strings raws.length) c = (.ok texts, c'))
    : ∀ raw ∈ raws, raw.length ≤ c.maxStringLen := by
  induction raws generalizing c c' texts with
  | nil => simp
  | cons raw raws ih =>
    rw [List.forall_mem_cons] at hraws
    obtain ⟨s, c₁, hfirst, h⟩ := exec_bind_eq_ok h
    obtain ⟨rest, c₂, hrest, _⟩ := exec_bind_eq_ok h
    obtain ⟨⟨_, hshort⟩, rfl⟩ := exec_string_eq_ok_peek hfirst
    have hpeek : c.peek 8 = raw.length := Cursor.peek_of_stands hraws.1 hs.left.left
    have hright := hs.right
    rw [length_storedText, ← hpeek] at hright
    rw [List.forall_mem_cons, ← hpeek]
    exact ⟨hshort, ih (c := c.skip (8 + c.peek 8)) hraws.2 hright hrest⟩

namespace Stored

variable {type : ValueType} {w : List UInt8} {v : MetaValue}

/--
A value is read from its form if the texts in it are not too long.
-/
theorem reads (h : Stored type w v) (hshort : ∀ raw ∈ storedTexts type w, raw.length ≤ limit)
    : Reads (Read.value type.code) w limit v := by
  unfold Read.value
  rw [ValueType.ofCode?_code]
  cases h with
  | @number _ width _ _ t hlayout hlength ht =>
    rw [← Nat.one_mul width] at hlength
    dsimp only
    rw [hlayout]
    exact (reads_loaded hlength).bind_nil (.lift_bind ht (reads_pure _))
  | text hraw =>
    rw [storedTexts_string hraw, List.forall_mem_singleton] at hshort
    exact (reads_storedText hraw hshort).map MetaValue.string
  | @numbers type width count _ data t hlayout hcount hlength ht =>
    have hle : count ≤ data.length := by
      rw [hlength]
      exact Nat.le_mul_of_pos_right count (ValueType.width_pos hlayout)
    dsimp only [ValueType.layout]
    unfold Read.array
    apply (reads_u32 type.code_lt).bind
    rw [ValueType.ofCode?_code]
    dsimp only
    rw [hlayout]
    apply Reads.length_bind _ hcount hle
    exact (reads_loaded hlength).bind_nil (.lift_bind ht (reads_pure _))
  | @texts raws hcount hraws =>
    rw [storedTexts_array hcount hraws] at hshort
    have hle : raws.length ≤ (raws.flatMap storedText).length := by
      apply length_le_flatMap
      intro raw _
      rw [length_storedText]
      omega
    dsimp only [ValueType.layout]
    unfold Read.array
    apply (reads_u32 ValueType.string.code_lt).bind
    rw [ValueType.ofCode?_code]
    apply Reads.length_bind _ hcount hle
    exact (reads_storedTexts hraws hshort).bind_pure MetaValue.strings

/--
A value that is read holds no text that is too long.
-/
theorem length_le (h : Stored type w v) (hreads : Reads (Read.value type.code) w limit v)
    : ∀ raw ∈ storedTexts type w, raw.length ≤ limit := by
  have hexec := hreads.exec_self
  unfold Read.value at hexec
  rw [ValueType.ofCode?_code] at hexec
  cases h with
  | number hlayout hlength ht =>
    obtain ⟨hstring, harray⟩ := ValueType.ne_of_layout hlayout
    rw [storedTexts_eq_nil hstring (by simp [elementType?, harray])]
    simp
  | @text raw hraw =>
    obtain ⟨s, hs, _⟩ := exec_map_eq_ok_iff.1 hexec
    obtain ⟨⟨_, hshort⟩, _⟩ := exec_string_eq_ok_peek hs
    rw [Cursor.peek_of_stands hraw (stands_self (storedText raw)).left] at hshort
    rw [storedTexts_string hraw, List.forall_mem_singleton]
    exact hshort
  | @numbers type width count _ data t hlayout hcount hlength ht =>
    rw [storedTexts_eq_nil (by decide)]
    . simp
    . rw [elementType?_append]
      simpa using (ValueType.ne_of_layout hlayout).1
  | @texts raws hcount hraws =>
    rw [storedTexts_array hcount hraws]
    have hstands := stands_self (LittleEndian.encode 4 ValueType.string.code ++
      (LittleEndian.encode 8 raws.length ++ raws.flatMap storedText))
    have helement : Reads Read.u32 (LittleEndian.encode 4 ValueType.string.code) limit
        ValueType.string.code := reads_u32 ValueType.string.code_lt
    have hcode := helement.exec_eq hstands.left
    dsimp only [ValueType.layout] at hexec
    unfold Read.array at hexec
    rw [exec_bind_of_ok hcode, ValueType.ofCode?_code] at hexec
    dsimp only [ValueType.layout] at hexec
    obtain ⟨count, c₁, hlength, hexec⟩ := exec_bind_eq_ok hexec
    obtain ⟨_, rfl, rfl⟩ := exec_length_eq_ok_peek hlength
    rw [Cursor.peek_of_stands hcount hstands.right.left] at hexec
    obtain ⟨texts, c₂, htexts, _⟩ := exec_bind_eq_ok hexec
    have hright := hstands.right.right
    rw [LittleEndian.length_encode 8] at hright
    exact length_le_of_exec_strings hraws hright htexts

end Stored

/--
The limit is held against these texts of the bytes that are read, and against no others.
-/
def LimitedBy (read : Read α) (texts : List UInt8 → List (List UInt8)) : Prop :=
  ∀ (bytes : List UInt8) (limit : Nat) (a : α), Reads read bytes limit a →
    ∀ limit', Reads read bytes limit' a ↔ ∀ raw ∈ texts bytes, raw.length ≤ limit'

/--
The text that `bytes` begin with.
-/
def frontText (bytes : List UInt8) : List (List UInt8) := cutTexts 1 bytes

/--
The texts of a metadata record: its key, and those in its value.
-/
def recordTexts (bytes : List UInt8) : List (List UInt8) :=
  let rest := bytes.drop (8 + LittleEndian.decode (bytes.take 8))
  frontText bytes ++
    match ValueType.ofCode? (LittleEndian.decode (rest.take 4)) with
    | none => []
    | some type => storedTexts type (rest.drop 4)

theorem take_storedText {raw : List UInt8} (hraw : raw.length < wordBound)
    : LittleEndian.decode ((storedText raw ++ rest).take 8) = raw.length := by
  unfold storedText
  rw [List.append_assoc, List.take_left' (LittleEndian.length_encode 8 _),
    LittleEndian.decode_encode_of_lt hraw]

theorem drop_storedText (raw rest : List UInt8)
    : (storedText raw ++ rest).drop (8 + raw.length) = rest :=
  List.drop_left' (length_storedText raw)

theorem frontText_append {raw : List UInt8} (hraw : raw.length < wordBound)
    : frontText (storedText raw ++ rest) = [raw] := by
  unfold frontText cutTexts
  dsimp only
  rw [take_storedText hraw]
  unfold storedText
  rw [List.append_assoc, List.drop_left' (LittleEndian.length_encode 8 _), List.take_left]
  rfl

theorem recordTexts_append {raw w : List UInt8} (hraw : raw.length < wordBound)
    (type : ValueType)
    : recordTexts (storedText raw ++ (LittleEndian.encode 4 type.code ++ w))
        = raw :: storedTexts type w := by
  unfold recordTexts
  dsimp only
  rw [take_storedText hraw, drop_storedText, frontText_append hraw,
    List.take_left' (LittleEndian.length_encode 4 _),
    LittleEndian.decode_encode_of_lt type.code_lt, ValueType.ofCode?_code,
    List.drop_left' (LittleEndian.length_encode 4 _)]
  rfl

/--
Bytes that begin with a text which is read.
-/
theorem exists_front_of_reads {f : String → Read β} {b : β}
    (h : Reads (Read.string >>= f) bytes limit b)
    : ∃ raw rest : List UInt8, raw.length < wordBound ∧ raw.length ≤ limit ∧
        bytes = storedText raw ++ rest := by
  obtain ⟨s, c, hfirst, _⟩ := exec_bind_eq_ok h.exec_self
  obtain ⟨raw, hraw, hshort, _, hpasses⟩ := exec_string_eq_ok hfirst
  obtain ⟨front, rest, hbytes, hfront⟩ := hpasses.1
  rw [List.length_eq_zero_iff.1 hfront, List.nil_append] at hbytes
  exact ⟨raw, rest, hraw, hshort, hbytes⟩

theorem limitedBy_string_bind {f : String → Read β} (hf : ∀ s, Unlimited (f s))
    : LimitedBy (Read.string >>= f) frontText := by
  intro bytes limit b hreads limit'
  constructor
  . intro h
    obtain ⟨raw, rest, hraw, hshort, rfl⟩ := exists_front_of_reads h
    rw [frontText_append hraw, List.forall_mem_singleton]
    exact hshort
  . intro h
    obtain ⟨raw, rest, hraw, hshort, rfl⟩ := exists_front_of_reads hreads
    rw [frontText_append hraw, List.forall_mem_singleton] at h
    intro c hc hs
    subst hc
    -- behind the text the two limits make no difference
    have hwhole := hreads { c with maxStringLen := limit } rfl hs
    rw [exec_bind_of_ok (reads_storedText hraw hshort { c with maxStringLen := limit } rfl hs.left)]
      at hwhole
    rw [exec_bind_of_ok (reads_storedText hraw h c rfl hs.left)]
    have hrest := hf (lossyText raw) { c with
      offset := c.offset + (storedText raw).length
      maxStringLen := limit } c.maxStringLen
    rw [hwhole] at hrest
    exact hrest

theorem limitedBy_descriptor : LimitedBy Read.descriptor frontText := by
  apply limitedBy_string_bind
  intro name
  apply (unlimited_nat 4).bind
  intro rank
  split
  . exact unlimited_throw_bind _ _
  . apply (unlimited_dims rank).bind
    intro stored
    dsimp only
    split
    . exact unlimited_throw_bind _ _
    . apply (unlimited_nat 4).bind
      intro code
      split
      . exact unlimited_throw _
      . next type _ =>
        exact (unlimited_nat 8).bind
          (fun offset => unlimited_pure (Descriptor.mk name stored.reverse type offset))

theorem Reads.exists_of_bind_pure {x : Read α} {f : α → β} {b : β}
    (h : Reads (do let a ← x; pure (f a)) bytes limit b) (hx : Delimited n x)
    : ∃ a, f a = b ∧ Reads x bytes limit a := by
  obtain ⟨a, front, rest, rfl, hfront, hrest⟩ := h.exists_of_bind hx (fun a => delimited_pure (f a))
  obtain ⟨hb, hcursor⟩ := exec_pure_eq_ok_iff.1 hrest.exec_self
  have hlength : 0 = rest.length := congrArg Cursor.offset hcursor
  rw [List.length_eq_zero_iff.1 hlength.symm, List.append_nil]
  exact ⟨a, hb, hfront⟩

/--
A metadata record stands in a file as its key, the type of its value, and the value in its form.
-/
theorem exists_stored_of_reads {e : String × MetaValue} (h : Reads Read.record bytes limit e)
    : ∃ (raw w : List UInt8) (type : ValueType), raw.length < wordBound ∧ Stored type w e.2 ∧
        e.1 = lossyText raw ∧ bytes = storedText raw ++ (LittleEndian.encode 4 type.code ++ w) ∧
        ∀ text ∈ raw :: storedTexts type w, text.length ≤ limit := by
  obtain ⟨key, front, rest, rfl, hkey, hpair⟩ :=
    h.exists_of_bind delimited_string (fun key => delimited_typedValue.bind_pure (key, ·))
  obtain ⟨v, rfl, htyped⟩ := hpair.exists_of_bind_pure delimited_typedValue
  obtain ⟨code, front', w, rfl, hcode, hvalue⟩ :=
    htyped.exists_of_bind delimited_u32 delimited_value
  obtain ⟨raw, hraw, hshort, rfl, rfl⟩ := exists_of_reads_string hkey
  obtain ⟨type, w', htype, hpasses, hstored⟩ := exec_value_eq_ok hvalue.exec_self
  have hw := hpasses.eq_of_self
  subst hw
  rw [← ValueType.code_of_ofCode? htype] at hcode hvalue
  refine ⟨raw, w, type, hraw, hstored, rfl, by rw [eq_of_reads_u32 hcode], ?_⟩
  rw [List.forall_mem_cons]
  exact ⟨hshort, hstored.length_le hvalue⟩

theorem limitedBy_record : LimitedBy Read.record recordTexts := by
  intro bytes limit e hreads limit'
  constructor
  . intro h
    obtain ⟨raw, w, type, hraw, _, _, rfl, hshort⟩ := exists_stored_of_reads h
    rw [recordTexts_append hraw]
    exact hshort
  . intro h
    obtain ⟨key, v⟩ := e
    obtain ⟨raw, w, type, hraw, hstored, rfl, rfl, _⟩ := exists_stored_of_reads hreads
    rw [recordTexts_append hraw, List.forall_mem_cons] at h
    apply (reads_storedText hraw h.1).bind
    exact ((reads_u32 type.code_lt).bind (hstored.reads h.2)).bind_pure (lossyText raw, ·)

end TensorFiles.Gguf
