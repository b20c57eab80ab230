import TensorFiles.Gguf.Save
import TensorFiles.Proofs.Bytes.Stands
import TensorFiles.Proofs.Result
/-!
This module contains the bytes of a container as a function of what has been written to it: the
header, the records, the descriptors, and each payload at its offset from the start of the data.
-/

namespace TensorFiles.Gguf

/--
The bytes of a metadata record.
-/
def EncodedRecord.encode (r : EncodedRecord) : List UInt8 :=
  encodeString r.key ++ LittleEndian.encode 4 r.type.code ++ r.value

namespace Descriptor

/--
The size of the payload, where it is a whole number of blocks.
-/
def size (d : Descriptor) : Nat :=
  d.numel / d.type.blockSize * d.type.blockBytes

/--
The place of the payload in the data section, with its size.
-/
def extent (d : Descriptor) : Nat × Nat := (d.offset, d.size)

theorem byteSize_eq_ok_iff {d : Descriptor} {n : Nat}
    : d.byteSize = .ok n ↔ Shape.Small d.shape ∧ d.type.blockSize ∣ d.numel ∧
        n = d.size ∧ n < wordBound := by
  unfold byteSize
  simp only [bind_eq_ok_iff, Shape.product_eq_ok_iff, TensorType.byteSizeOf_eq_ok_iff,
    TensorType.byteSize_eq_ok_iff]
  constructor
  . rintro ⟨_, ⟨hsmall, rfl⟩, h⟩
    exact ⟨hsmall, h⟩
  . rintro ⟨hsmall, h⟩
    exact ⟨_, ⟨hsmall, rfl⟩, h⟩

theorem eq_size_of_byteSize {d : Descriptor} {n : Nat} (h : d.byteSize = .ok n) : n = d.size :=
  (byteSize_eq_ok_iff.1 h).2.2.1

theorem small_of_byteSize {d : Descriptor} {n : Nat} (h : d.byteSize = .ok n)
    : Shape.Small d.shape :=
  (byteSize_eq_ok_iff.1 h).1

end Descriptor

/--
What has been written to a container: the payloads with their offsets, and the start of the data
section once it has begun.
-/
structure Written where
  records : List EncodedRecord := []
  descriptors : List Descriptor := []
  payloads : List (Nat × List UInt8) := []
  start? : Option Nat := none

/--
Bytes with zeros behind them, up to `target`.
-/
def padded (target : Nat) (image : List UInt8) : List UInt8 :=
  image ++ List.replicate (target - image.length) 0

/--
Bytes with a payload behind them, in a data section from `start` on.
-/
def place (start : Nat) (image : List UInt8) (p : Nat × List UInt8) : List UInt8 :=
  padded (start + p.1) image ++ p.2

/--
Each payload ends before the next one begins.
-/
def InOrder (extents : List (Nat × Nat)) : Prop :=
  extents.Pairwise (fun a b => a.1 + a.2 ≤ b.1)

theorem le_length_padded (target : Nat) (image : List UInt8)
    : target ≤ (padded target image).length := by
  unfold padded
  rw [List.length_append, List.length_replicate]
  omega

theorem length_padded {target : Nat} {image : List UInt8} (h : image.length ≤ target)
    : (padded target image).length = target := by
  unfold padded
  rw [List.length_append, List.length_replicate]
  omega

theorem exists_padded_append {front front' : List UInt8} (h : front.length = front'.length)
    (target : Nat) (rest : List UInt8)
    : ∃ rest', padded target (front ++ rest) = front ++ rest' ∧
        padded target (front' ++ rest) = front' ++ rest' := by
  refine ⟨rest ++ List.replicate (target - (front ++ rest).length) 0, ?_, ?_⟩
  . simp [padded]
  . simp [padded, h]

theorem exists_foldl_place_append {front front' : List UInt8}
    (h : front.length = front'.length) (start : Nat) (ps : List (Nat × List UInt8))
    (rest : List UInt8)
    : ∃ rest', ps.foldl (place start) (front ++ rest) = front ++ rest' ∧
        ps.foldl (place start) (front' ++ rest) = front' ++ rest' := by
  induction ps generalizing rest with
  | nil => exact ⟨rest, rfl, rfl⟩
  | cons p ps ih =>
    obtain ⟨rest', h1, h2⟩ := exists_padded_append h (start + p.1) rest
    simp only [List.foldl_cons, place, h1, h2, List.append_assoc]
    exact ih (rest' ++ p.2)

theorem exists_foldl_place_eq (start : Nat) (ps : List (Nat × List UInt8)) (image : List UInt8)
    : ∃ more, ps.foldl (place start) image = image ++ more := by
  obtain ⟨more, h, _⟩ := exists_foldl_place_append (Eq.refl image.length) start ps []
  rw [List.append_nil] at h
  exact ⟨more, h⟩

theorem length_place {start : Nat} {image : List UInt8} {p : Nat × List UInt8}
    (h : image.length ≤ start + p.1)
    : (place start image p).length = start + p.1 + p.2.length := by
  unfold place
  rw [List.length_append, length_padded h]

section

variable {start : Nat} {ps : List (Nat × List UInt8)} {image : List UInt8}

theorem InOrder.length_place_le {p : Nat × List UInt8}
    (horder : InOrder ((p :: ps).map (fun p => (p.1, p.2.length))))
    (hroom : image.length ≤ start + p.1)
    : ∀ q ∈ ps, (place start image p).length ≤ start + q.1 := by
  unfold InOrder at horder
  rw [List.map_cons, List.pairwise_cons] at horder
  intro q hq
  have := horder.1 _ (List.mem_map_of_mem hq)
  rw [length_place hroom]
  dsimp only at this
  omega

theorem InOrder.tail {p : Nat × List UInt8}
    (h : InOrder ((p :: ps).map (fun p => (p.1, p.2.length))))
    : InOrder (ps.map (fun p => (p.1, p.2.length))) :=
  List.Pairwise.of_cons h

/--
Payloads that come in order stand where their offsets say.
-/
theorem stands_foldl_place (horder : InOrder (ps.map (fun p => (p.1, p.2.length))))
    (hroom : ∀ p ∈ ps, image.length ≤ start + p.1)
    : ∀ p ∈ ps, Stands (ps.foldl (place start) image) (start + p.1) p.2 := by
  induction ps generalizing image with
  | nil => simp
  | cons p ps ih =>
    rw [List.forall_mem_cons] at hroom
    have hhead : Stands (place start image p) (start + p.1) p.2 := by
      have := stands_of_append (padded (start + p.1) image) p.2 []
      rw [List.append_nil, length_padded hroom.1] at this
      exact this
    rw [List.forall_mem_cons, List.foldl_cons]
    constructor
    -- the payloads that follow only put bytes behind the first
    . obtain ⟨more, hmore⟩ := exists_foldl_place_eq start ps (place start image p)
      rw [hmore]
      exact hhead.append more
    . exact ih horder.tail (horder.length_place_le hroom.1)

end

namespace Written

/--
The bytes behind the header and before the data.
-/
def index (w : Written) : List UInt8 :=
  w.records.flatMap EncodedRecord.encode ++ w.descriptors.flatMap Descriptor.encode

/--
All that is in the file, behind a header.
-/
def image (w : Written) (header : List UInt8) : List UInt8 :=
  match w.start? with
  | none => header ++ w.index
  | some start => w.payloads.foldl (place start) (padded start (header ++ w.index))

theorem exists_image_append (w : Written) {header header' : List UInt8}
    (h : header.length = header'.length)
    : ∃ rest, w.image header = header ++ rest ∧ w.image header' = header' ++ rest := by
  unfold image
  cases w.start? with
  | none => exact ⟨w.index, rfl, rfl⟩
  | some start =>
    obtain ⟨rest, h1, h2⟩ := exists_padded_append h start w.index
    simp only [h1, h2]
    exact exists_foldl_place_append h start w.payloads rest

theorem exists_image_eq (w : Written) (header : List UInt8)
    : ∃ more, w.image header = header ++ w.index ++ more := by
  unfold image
  cases w.start? with
  | none => exact ⟨[], by simp⟩
  | some start =>
    obtain ⟨more, h⟩ := exists_foldl_place_eq start w.payloads (padded start (header ++ w.index))
    refine ⟨List.replicate (start - (header ++ w.index).length) 0 ++ more, ?_⟩
    dsimp only
    rw [h, padded]
    simp only [List.append_assoc]

theorem stands_index (w : Written) (header : List UInt8)
    : Stands (w.image header) 0 (header ++ w.index) := by
  obtain ⟨more, h⟩ := w.exists_image_eq header
  rw [h]
  exact ⟨[], more, rfl, rfl⟩

theorem stands_payload (w : Written) {header : List UInt8} {start : Nat}
    (hstart : w.start? = some start) (hroom : (header ++ w.index).length ≤ start)
    (horder : InOrder (w.payloads.map (fun p => (p.1, p.2.length))))
    : ∀ p ∈ w.payloads, Stands (w.image header) (start + p.1) p.2 := by
  unfold image
  rw [hstart]
  apply stands_foldl_place horder
  intro p _
  rw [length_padded hroom]
  omega

/--
Where the last payload ends, counted from the start of the data.
-/
def stop (w : Written) : Nat :=
  match w.payloads.getLast? with
  | some p => p.1 + p.2.length
  | none => 0

theorem start_add_stop_le (w : Written) (header : List UInt8) {start : Nat}
    (hstart : w.start? = some start) : start + w.stop ≤ (w.image header).length := by
  unfold image stop
  rw [hstart]
  cases List.eq_nil_or_concat w.payloads with
  | inl hnone =>
    rw [hnone]
    exact le_length_padded start _
  | inr hlast =>
    obtain ⟨front, p, hp⟩ := hlast
    rw [hp, List.concat_eq_append, List.getLast?_concat]
    dsimp only
    rw [List.foldl_append, List.foldl_cons, List.foldl_nil, place, List.length_append,
      ← Nat.add_assoc]
    exact Nat.add_le_add_right (le_length_padded (start + p.1) _) p.2.length

end Written

end TensorFiles.Gguf
