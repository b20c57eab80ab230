import TensorFiles.Gguf.Container.Reading
import TensorFiles.Proofs.Bytes.LittleEndian
import TensorFiles.Proofs.Bytes.Stands
import TensorFiles.Proofs.Bytes.Utf8
import TensorFiles.Proofs.Exec
import TensorFiles.Proofs.Shape
/-!
This module contains the bytes that reads accept: numbers, strings, the header and descriptors are
read back from the bytes they are written as, wherever these stand and whatever follows them.
-/

namespace TensorFiles

namespace Gguf

/--
Wherever `bytes` stand, `read` takes them and gives `a`. Strings have at most `limit` bytes.
-/
def Reads (read : Read α) (bytes : List UInt8) (limit : Nat) (a : α) : Prop :=
  ∀ c : Cursor, c.maxStringLen = limit → Stands c.data c.offset bytes →
    exec read c = (.ok a, { c with offset := c.offset + bytes.length })

variable {limit : Nat}

theorem Reads.exec_eq {read : Read α} {bytes data : List UInt8} {a : α} {offset : Nat}
    (h : Reads read bytes limit a) (hs : Stands data offset bytes)
    : exec read ⟨data, offset, limit⟩ = (.ok a, ⟨data, offset + bytes.length, limit⟩) :=
  h _ rfl hs

theorem reads_pure (a : α) : Reads (pure a) [] limit a := by
  intro c _ _
  rfl

theorem Reads.bind {x : Read α} {f : α → Read β} {bytes bytes' : List UInt8} {a : α} {b : β}
    (hx : Reads x bytes limit a) (hf : Reads (f a) bytes' limit b)
    : Reads (x >>= f) (bytes ++ bytes') limit b := by
  intro c hc h
  have hrest := hf { c with offset := c.offset + bytes.length } hc h.right
  rw [exec_bind_of_ok (hx c hc h.left), hrest, List.length_append, Nat.add_assoc]

theorem Reads.map {x : Read α} {bytes : List UInt8} {a : α} (h : Reads x bytes limit a)
    (f : α → β) : Reads (f <$> x) bytes limit (f a) := by
  intro c hc hs
  rw [exec_map, h c hc hs]
  rfl

theorem Reads.bind_nil {x : Read α} {f : α → Read β} {bytes : List UInt8} {a : α} {b : β}
    (hx : Reads x bytes limit a) (hf : Reads (f a) [] limit b)
    : Reads (x >>= f) bytes limit b := by
  have hend := hx.bind hf
  rw [List.append_nil] at hend
  exact hend

theorem Reads.bind_pure {x : Read α} {bytes : List UInt8} {a : α} (h : Reads x bytes limit a)
    (f : α → β) : Reads (do let a ← x; pure (f a)) bytes limit (f a) :=
  h.bind_nil (reads_pure (f a))

theorem reads_bytes {bytes : List UInt8} {n : Nat} (hn : bytes.length = n)
    : Reads (Read.bytes n) bytes limit bytes := by
  intro c _ h
  have hle := h.length_le
  subst hn
  unfold Read.bytes
  rw [exec_bind_of_ok (exec_get c), if_pos hle, exec_bind_of_ok (exec_set _ _), exec_pure,
    h.take_drop]

theorem reads_nat {width n : Nat} (h : n < LittleEndian.bound width)
    : Reads (Read.nat width) (LittleEndian.encode width n) limit n := by
  have hread : Reads (Read.nat width) (LittleEndian.encode width n) limit
      (LittleEndian.decode (LittleEndian.encode width n)) :=
    (reads_bytes (LittleEndian.length_encode width n)).map LittleEndian.decode
  rw [LittleEndian.decode_encode_of_lt h] at hread
  exact hread

theorem reads_u32 {n : Nat} (h : n < halfWordBound)
    : Reads Read.u32 (LittleEndian.encode 4 n) limit n := by
  apply reads_nat
  rw [LittleEndian.bound_four]
  exact h

theorem reads_u64 {n : Nat} (h : n < wordBound)
    : Reads Read.u64 (LittleEndian.encode 8 n) limit n := by
  apply reads_nat
  rw [LittleEndian.bound_eight]
  exact h

theorem Reads.length_bind {f : Nat → Read α} {n : Nat} {bytes : List UInt8} {a : α}
    (what : String) (hn : n < wordBound) (hle : n ≤ bytes.length) (hf : Reads (f n) bytes limit a)
    : Reads (Read.length what >>= f) (LittleEndian.encode 8 n ++ bytes) limit a := by
  intro c hc h
  have hread := reads_u64 hn c hc h.left
  have hroom := h.right.length_le
  have hlen : exec (Read.length what) c
      = (.ok n, { c with offset := c.offset + (LittleEndian.encode 8 n).length }) := by
    unfold Read.length
    rw [exec_bind_of_ok (exec_get c), exec_bind_of_ok hread, exec_bind_of_ok (exec_get _)]
    dsimp only [Cursor.remaining]
    rw [if_pos (by omega), exec_pure]
  have hrest := hf { c with offset := c.offset + (LittleEndian.encode 8 n).length } hc h.right
  rw [exec_bind_of_ok hlen, hrest, List.length_append, Nat.add_assoc]

/--
Any bytes that are not too many are read as some text.
-/
theorem reads_text {text : List UInt8} (hn : text.length < wordBound) (hl : text.length ≤ limit)
    : Reads Read.string (LittleEndian.encode 8 text.length ++ text) limit
        (String.ofList (Utf8.decodeLossy text)) := by
  intro c hc h
  have hread := reads_u64 hn c hc h.left
  have htext := reads_bytes (Eq.refl text.length)
    { c with offset := c.offset + (LittleEndian.encode 8 text.length).length } hc h.right
  unfold Read.string
  rw [exec_bind_of_ok (exec_get c), exec_bind_of_ok hread, if_neg (by omega),
    exec_bind_of_ok htext, exec_pure, List.length_append, Nat.add_assoc]

theorem reads_string {s : String} (hs : s.utf8ByteSize < wordBound)
    (hl : s.utf8ByteSize ≤ limit) : Reads Read.string (encodeString s) limit s := by
  rw [← Utf8.length_encode] at hs hl
  have htext := reads_text hs hl
  rw [Utf8.decodeLossy_encode, Utf8.length_encode] at htext
  exact htext

theorem length_encodeString (s : String) : (encodeString s).length = 8 + s.utf8ByteSize := by
  unfold encodeString
  rw [List.length_append, LittleEndian.length_encode, Utf8.length_encode]

theorem reads_strings {texts : List String} (hs : ∀ s ∈ texts, s.utf8ByteSize < wordBound)
    (hl : ∀ s ∈ texts, s.utf8ByteSize ≤ limit)
    : Reads (Read.strings texts.length) (texts.flatMap encodeString) limit texts := by
  induction texts with
  | nil => exact reads_pure []
  | cons s texts ih =>
    rw [List.forall_mem_cons] at hs hl
    apply (reads_string hs.1 hl.1).bind
    exact (ih hs.2 hl.2).bind_pure (s :: ·)

theorem reads_dims {dims : List Nat} (h : ∀ d ∈ dims, d < wordBound)
    : Reads (Read.dims dims.length) (dims.flatMap (LittleEndian.encode 8)) limit dims := by
  induction dims with
  | nil => exact reads_pure []
  | cons d dims ih =>
    rw [List.forall_mem_cons] at h
    apply (reads_u64 h.1).bind
    exact (ih h.2).bind_pure (d :: ·)

/--
What a descriptor must be like to be read back.
-/
structure Descriptor.Fits (d : Descriptor) (limit : Nat) : Prop where
  name : d.name.utf8ByteSize < wordBound
  limit : d.name.utf8ByteSize ≤ limit
  rank : d.shape.length ≤ maxRank
  shape : Shape.Fits d.shape
  offset : d.offset < wordBound

/--
What a descriptor must be like for its fields to be told apart. Its shape may be one that no reader
accepts.
-/
structure Descriptor.Legible (d : Descriptor) (limit : Nat) : Prop where
  name : d.name.utf8ByteSize < wordBound
  limit : d.name.utf8ByteSize ≤ limit
  rank : d.shape.length ≤ maxRank
  dims : ∀ n ∈ d.shape, n < wordBound
  offset : d.offset < wordBound

namespace Descriptor

variable {d : Descriptor}

theorem Legible.fits (h : d.Legible limit) (hproduct : (Shape.productFrom? 1 d.shape).isSome)
    : d.Fits limit :=
  ⟨h.name, h.limit, h.rank, ⟨h.dims, hproduct⟩, h.offset⟩

theorem Fits.legible (h : d.Fits limit) : d.Legible limit :=
  ⟨h.name, h.limit, h.rank, h.shape.dims, h.offset⟩

theorem encode_eq (d : Descriptor)
    : d.encode = encodeString d.name ++ (LittleEndian.encode 4 d.shape.length ++
        (d.shape.reverse.flatMap (LittleEndian.encode 8) ++ (LittleEndian.encode 4 d.type.code ++
          LittleEndian.encode 8 d.offset))) := by
  simp [encode]

theorem Legible.reads_rank (h : d.Legible limit)
    : Reads Read.u32 (LittleEndian.encode 4 d.shape.length) limit d.shape.length :=
  reads_u32 (Nat.lt_of_le_of_lt h.rank (by decide))

theorem Legible.reads_dims (h : d.Legible limit)
    : Reads (Read.dims d.shape.length) (d.shape.reverse.flatMap (LittleEndian.encode 8)) limit
        d.shape.reverse := by
  rw [← List.length_reverse]
  apply Gguf.reads_dims
  intro dim hdim
  exact h.dims dim (List.mem_reverse.1 hdim)

end Descriptor

theorem reads_descriptor {d : Descriptor} (h : d.Fits limit)
    : Reads Read.descriptor d.encode limit d := by
  rw [d.encode_eq]
  unfold Read.descriptor
  apply (reads_string h.name h.limit).bind
  apply h.legible.reads_rank.bind
  rw [if_neg (Nat.not_lt.2 h.rank)]
  apply h.legible.reads_dims.bind
  rw [List.reverse_reverse]
  dsimp only
  rw [if_neg (by simpa [Option.isSome_iff_ne_none] using h.shape.product)]
  apply (reads_u32 d.type.code_lt).bind
  rw [TensorType.ofCode?_code]
  exact (reads_u64 h.offset).bind_pure (Descriptor.mk d.name d.shape d.type)

theorem reads_header {version tensors records : Nat} (hmin : minVersion ≤ version)
    (hmax : version ≤ maxVersion) (ht : tensors < wordBound) (hr : records < wordBound)
    : Reads Read.header
        (magic ++ (LittleEndian.encode 4 version ++ (LittleEndian.encode 8 tensors ++
          LittleEndian.encode 8 records))) limit (version, tensors, records) := by
  have hversion : version < halfWordBound := Nat.lt_of_le_of_lt hmax (by decide)
  unfold Read.header
  apply (reads_bytes rfl).bind
  rw [if_neg (by simp)]
  apply (reads_u32 hversion).bind
  rw [if_neg (by omega)]
  apply (reads_u64 ht).bind
  exact (reads_u64 hr).bind_pure (fun records => (version, tensors, records))

end Gguf

end TensorFiles
