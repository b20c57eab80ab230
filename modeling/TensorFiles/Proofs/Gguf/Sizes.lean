import TensorFiles.Proofs.Gguf.Referred
import TensorFiles.Proofs.Gguf.Shapes
import TensorFiles.Proofs.Gguf.Stored
/-!
This module contains the numbers that loading a file computes without checking whether they fit a
machine word. What has been checked before keeps all of them small, except for the number of bits in
a row of quantized weights: if there are no weights, nothing has been checked that bounds the row.
-/

namespace TensorFiles

/--
The numbers that are computed for a tensor of some shape to be built.
-/
def Tensor.sizes (dtype : DType) (shape : List Nat) : List Nat :=
  Shape.products 1 shape ++ [Shape.numel shape * dtype.size]

theorem Tensor.sizes_lt {dtype : DType} {shape : List Nat} (hshape : Shape.Fits shape)
    (hsize : Shape.numel shape * dtype.size < wordBound)
    : ∀ n ∈ sizes dtype shape, n < wordBound := by
  unfold sizes
  rw [List.forall_mem_append, List.forall_mem_singleton]
  exact ⟨Shape.isSome_productFrom?_iff.1 hshape.product, hsize⟩

theorem Shape.fits_of_length_le_one {shape : List Nat} (hlength : shape.length ≤ 1)
    (hnumel : numel shape < wordBound) : Fits shape := by
  match shape with
  | [] => exact ⟨by simp, rfl⟩
  | [n] =>
    rw [numel_cons, numel_nil, Nat.mul_one] at hnumel
    exact ⟨by simpa using hnumel, by simpa [productFrom?] using hnumel⟩
  | _ :: _ :: _ => simp at hlength

namespace Gguf

/--
The numbers that are computed for quantized weights to be unpacked.
-/
def Scheme.sizes (s : Scheme) (shape : List Nat) (last : Nat) : List Nat :=
  let count := Shape.numel shape / s.weights
  Shape.products 1 shape ++
    ([count * s.bytes, count * s.packedLength, count * 2, last * s.bits] ++
      (Tensor.sizes .u32 (shape.dropLast ++ [last * s.bits / 32]) ++
        Tensor.sizes .f16 (shape.dropLast ++ [last / s.weights])))

namespace Descriptor

/--
The numbers that are computed for a payload to be decoded.
-/
def sizes (t : Descriptor) : List Nat :=
  match unpacking? t.name t.type with
  | some (s, _) =>
    match s.lastDim t.name t.shape with
    | .ok last => s.sizes t.shape last
    | .error _ => []
  | none => Tensor.sizes (t.type.dtype?.getD .f16) t.shape

end Descriptor

namespace Scheme

variable {s : Scheme} {shape : List Nat} {last : Nat}

/--
The blocks that are there bound every number but that of the bits in a row.
-/
theorem sizes_lt (hs : s ∈ all) (hshape : Shape.Fits shape) (hlast : shape.getLast? = some last)
    (hwhole : last % 32 = 0) (hsize : Shape.numel shape / s.weights * s.bytes < wordBound)
    : ∀ n ∈ s.sizes shape last, n < wordBound ∨ n = last * s.bits := by
  obtain ⟨htwo, hfour⟩ := four_mul_bits_le hs
  have hcodes := Nat.mul_le_mul_left (Shape.numel shape / s.weights) hfour
  have hhalves := Nat.mul_le_mul_left (Shape.numel shape / s.weights) htwo
  have hweights : ∀ n ∈ Tensor.sizes .u32 (shape.dropLast ++ [last * s.bits / 32]),
      n < wordBound := by
    apply Tensor.sizes_lt (hshape.dropLast_append hlast (packed_le hs last))
    rw [numel_packed hs hlast hwhole, Nat.mul_assoc]
    exact Nat.lt_of_le_of_lt hcodes hsize
  have hgroups : ∀ n ∈ Tensor.sizes .f16 (shape.dropLast ++ [last / s.weights]),
      n < wordBound := by
    apply Tensor.sizes_lt (hshape.dropLast_append hlast (Nat.div_le_self last s.weights))
    rw [numel_groups hs hlast hwhole]
    exact Nat.lt_of_le_of_lt hhalves hsize
  intro n hn
  simp only [sizes, List.mem_append, List.mem_cons, List.not_mem_nil, or_false] at hn
  rcases hn with hn | (rfl | rfl | rfl | rfl) | hn | hn
  . exact .inl (Shape.isSome_productFrom?_iff.1 hshape.product n hn)
  . exact .inl hsize
  . rw [packedLength_of_mem hs]
    exact .inl (Nat.lt_of_le_of_lt hcodes hsize)
  . exact .inl (Nat.lt_of_le_of_lt hhalves hsize)
  . exact .inr rfl
  . exact .inl (hweights n hn)
  . exact .inl (hgroups n hn)

end Scheme

theorem TensorType.two_mul_blockSize_le (type : TensorType)
    : type.blockSize * 2 ≤ 8 * type.blockBytes := by
  cases type <;> decide

namespace Descriptor

variable {t : Descriptor} {size : Nat}

/--
A payload of known size bounds every number that decoding it computes, unless it is longer than any
there is, or there are no weights and the number is that of the bits in a row.
-/
theorem Shaped.sizes_lt (h : t.Shaped) (hsize : t.byteSize = .ok size) (hlt : size < fileBound)
    : ∀ n ∈ t.sizes, n < wordBound ∨ longPayload ≤ size ∨
        Shape.numel t.shape = 0 ∧ n = t.rowBits := by
  obtain ⟨hwhole, hbytes⟩ := TensorType.dvd_of_byteSize
    (TensorType.byteSize_eq_ok_iff.2 (Descriptor.byteSize_eq_ok_iff.1 hsize).2)
  have hword : size < wordBound := Nat.lt_trans hlt (by decide)
  unfold Descriptor.numel at hwhole hbytes
  intro n hn
  unfold sizes at hn
  split at hn
  . next s stem hsome =>
    obtain ⟨hs, htype⟩ := Scheme.mem_of_ofType? (unpacking?_eq_some_iff.1 hsome).1
    obtain ⟨hweights, hblock⟩ := Scheme.bytes_of_mem hs
    rw [← htype, ← hweights, ← hblock] at hbytes
    split at hn
    . next last hlast =>
      obtain ⟨hlast, hdvd⟩ := (Scheme.lastDim_eq_ok_iff hs).1 hlast
      rcases Scheme.sizes_lt hs h.shape hlast hdvd (hbytes ▸ hword) n hn with hn | rfl
      . exact .inl hn
      . by_cases hzero : Shape.numel t.shape = 0
        . refine .inr (.inr ⟨hzero, ?_⟩)
          unfold rowBits
          rw [hsome, List.getLastD_eq_getLast?, hlast]
          rfl
        . have hle := Scheme.rowBits_le hs hlast hdvd hzero
          rw [← hbytes] at hle
          unfold wordBound longPayload
          omega
    . simp at hn
  . have hle := Nat.mul_le_mul_left (Shape.numel t.shape / t.type.blockSize)
      t.type.two_mul_blockSize_le
    rw [← Nat.mul_assoc, hwhole, Nat.mul_left_comm, ← hbytes] at hle
    by_cases hlong : longPayload ≤ size
    . exact .inr (.inl hlong)
    . refine .inl (Tensor.sizes_lt h.shape ?_ n hn)
      cases hdtype : t.type.dtype? with
      | some dtype =>
        rw [TensorType.blockSize_of_dtype? hdtype, TensorType.blockBytes_of_dtype? hdtype,
          Nat.div_one] at hbytes
        exact hbytes ▸ hword
      | none =>
        have htwo : (none : Option DType).getD .f16 = .f16 := rfl
        rw [htwo]
        dsimp only [DType.size]
        unfold longPayload at hlong
        unfold wordBound
        omega

end Descriptor

theorem ValueType.length_loaded_le (type : ValueType) (data : List UInt8)
    : (type.loaded data).length ≤ data.length := by
  unfold loaded
  split
  . rw [length_narrowDoubles]
    omega
  . exact Nat.le_refl data.length

theorem Stored.nbytes_le {type : ValueType} {w : List UInt8} {v : MetaValue}
    (h : Stored type w v) {x : Tensor} (hx : v.asTensor? = some x)
    : x.nbytes ≤ w.length ∧ x.rank ≤ 1 := by
  unfold Tensor.nbytes Tensor.rank
  cases h with
  | number hlayout hlength ht =>
    cases hx
    obtain ⟨_, hshape, hdata⟩ := Tensor.ofBytes_eq_ok_iff.1 ht
    rw [hdata, hshape]
    exact ⟨type.length_loaded_le w, Nat.zero_le 1⟩
  | text hraw => simp [MetaValue.asTensor?] at hx
  | texts hcount hraws => simp [MetaValue.asTensor?] at hx
  | @numbers type _ _ _ data t hlayout hcount hlength ht =>
    cases hx
    obtain ⟨_, hshape, hdata⟩ := Tensor.ofBytes_eq_ok_iff.1 ht
    rw [hdata, hshape]
    have hle := type.length_loaded_le data
    simp only [List.length_append, List.length_singleton]
    omega

/--
The numbers of a metadata value have been taken from the file.
-/
theorem nbytes_le_of_value {c c' : Cursor} {code : Nat} {v : MetaValue}
    (h : exec (Read.value code) c = (.ok v, c')) {x : Tensor} (hx : v.asTensor? = some x)
    : x.nbytes ≤ c.data.length ∧ x.rank ≤ 1 := by
  obtain ⟨type, w, _, hpasses, hstored⟩ := exec_value_eq_ok h
  have hroom := hpasses.1.length_le
  obtain ⟨hsize, hrank⟩ := hstored.nbytes_le hx
  exact ⟨by omega, hrank⟩

/--
The tensor of the packed codes has as many words in a row as they take.
-/
theorem Container.shape_of_unpacked {c : Container} {t : Descriptor} {s : Scheme} {stem : String}
    {out : List (String × Tensor)} (hunpack : unpacking? t.name t.type = some (s, stem))
    (h : c.decode t = .ok out)
    : ∃ last x, t.shape.getLast? = some last ∧ (t.name, x) ∈ out ∧
        x.shape = t.shape.dropLast ++ [last * s.bits / 32] := by
  have hs := (Scheme.mem_of_ofType? (unpacking?_eq_some_iff.1 hunpack).1).1
  unfold decode at h
  rw [hunpack] at h
  simp only [bind_eq_ok_iff, pure_eq_ok_iff] at h
  obtain ⟨_, _, _, _, q, hq, rfl⟩ := h
  obtain ⟨last, hlast, _, _, _, _, _, hweights, _, _⟩ := (Quantized.ofPayload_eq_ok_iff hs).1 hq
  exact ⟨last, q.weights, ((Scheme.lastDim_eq_ok_iff hs).1 hlast).1, List.mem_cons_self,
    (Tensor.ofBytes_eq_ok_iff.1 hweights).2.1⟩

/--
Loading a file computes nothing that does not fit a machine word, whether or not it succeeds, but
for the bits in a row of quantized weights of which there are none. It is then that decoding breaks
off; what is decoded has the shape that the descriptor asks for.
-/
theorem sizes_of_file {d : Disk} {path : String} {config : CodecConfig} {file : Nat}
    {data : List UInt8} {c : Container} (hfind : d.find path = .ok (.file file data))
    (hopen : Container.ofFile d path config = .ok c) (hsize : data.length < fileBound)
    : (∀ code offset limit v cursor, exec (Read.value code) ⟨data, offset, limit⟩ = (.ok v, cursor) →
        ∀ x, v.asTensor? = some x → ∀ n ∈ Tensor.sizes x.dtype x.shape, n < wordBound) ∧
      ∀ metadata ds c', c.ReadsIndex metadata ds c' → c'.offset + c'.alignment < wordBound ∧
        ∀ t ∈ ds, (∀ n ∈ Shape.products 1 t.shape, n < wordBound) ∧
          ∀ payload, c'.payload t = .ok payload →
            (∀ n ∈ t.sizes, n < wordBound ∨ longPayload ≤ payload.length ∨
              Shape.numel t.shape = 0 ∧ n = t.rowBits) ∧
            (t.Divisible → wordBound ≤ t.rowBits → c'.decode t = .error (.panic .product)) ∧
            ∀ out s stem, c'.decode t = .ok out → unpacking? t.name t.type = some (s, stem) →
              ∃ last x, t.shape.getLast? = some last ∧ (t.name, x) ∈ out ∧
                x.shape = t.shape.dropLast ++ [last * s.bits / 32] := by
  constructor
  . intro code offset limit v cursor hvalue x hx
    obtain ⟨hle, hrank⟩ := nbytes_le_of_value hvalue hx
    have hbytes : Shape.numel x.shape * x.dtype.size < wordBound := by
      rw [← x.length_data]
      exact Nat.lt_of_le_of_lt hle (Nat.lt_trans hsize (by decide))
    have hnumel : Shape.numel x.shape < wordBound :=
      Nat.lt_of_le_of_lt (Nat.le_mul_of_pos_right _ x.dtype.size_pos) hbytes
    exact Tensor.sizes_lt (Shape.fits_of_length_le_one hrank hnumel) hbytes
  . intro metadata ds c' hindex
    rw [Container.ofFile_eq_of_find hfind] at hopen
    obtain ⟨p, alignment, rfl, halign, rfl, rfl⟩ := hindex.exists_located hopen
    have hsmall := (declaredAlignment?_valid halign (by decide) (by decide)).2
    refine ⟨?_, ?_⟩
    . have hle := p.stands_index.length_le
      unfold fileBound at hsize
      unfold halfWordBound at hsmall
      unfold Parts.located wordBound
      dsimp only
      omega
    . intro t ht
      have hshaped := Parts.shaped_of_mem ht
      refine ⟨Shape.isSome_productFrom?_iff.1 hshaped.shape.product, ?_⟩
      intro payload hpayload
      have hlt : payload.length < fileBound := by
        obtain ⟨_, _, data, size, start, hdata, _, _, hrange⟩ :=
          Container.payload_eq_ok_iff.1 hpayload
        cases hdata
        have hroom := (Container.range?_eq_some_iff.1 hrange).1.length_le
        omega
      exact ⟨hshaped.sizes_lt (Container.byteSize_of_payload hpayload) hlt,
        Container.decode_of_wordBound_le hpayload,
        fun out s stem hdecode hunpack => Container.shape_of_unpacked hunpack hdecode⟩

/--
The descriptor of no rows of quantized weights that would have as many bits as fit no machine word.
-/
def emptyRows : Descriptor := ⟨"a.weight", [0, 0x4000000000000000], .q4_0, 0⟩

/--
A file of that descriptor and nothing else.
-/
def emptyRowsParts : Parts ({} : CodecConfig).maxStringLen where
  header := ⟨_, (3, 1, 0), reads_header (by decide) (by decide) (by decide) (by decide)⟩
  records := []
  descriptors := [.ofDescriptor {
    descriptor := emptyRows
    reads := reads_descriptor {
      name := by decide
      limit := by decide
      rank := by decide
      shape := ⟨by decide, by decide⟩
      offset := by decide } }]
  rest := List.replicate 24 0
  counts := rfl

def emptyRowsDisk : Disk := ⟨[(["a"], .file 0 emptyRowsParts.file)], 1⟩

theorem sizes_of_file_emptyRows
    : ∃ c metadata c', Container.ofFile emptyRowsDisk "a" {} = .ok c ∧
        c.ReadsIndex metadata [emptyRows] c' ∧ c'.offset + c'.alignment < wordBound ∧
        c'.payload emptyRows = .ok [] ∧ emptyRows.Divisible ∧ wordBound ≤ emptyRows.rowBits ∧
        c'.decode emptyRows = .error (.panic .product) := by
  have hfind : emptyRowsDisk.find "a" = .ok (.file 0 emptyRowsParts.file) := rfl
  have hopen : Container.ofFile emptyRowsDisk "a" {} = .ok (emptyRowsParts.opened "a" 0) := by
    rw [Container.ofFile_eq_of_find hfind]
    exact Parts.openData_eq emptyRowsParts
  have hindex : (emptyRowsParts.opened "a" 0).ReadsIndex .empty [emptyRows]
      (emptyRowsParts.located "a" 0 32) :=
    Parts.readsIndex_iff.2 ⟨32, rfl, rfl, rfl, rfl⟩
  have hpayload : (emptyRowsParts.located "a" 0 32).payload emptyRows = .ok [] := by
    decide +kernel
  have hdivisible : emptyRows.Divisible :=
    fun _ _ => ⟨0x4000000000000000, rfl, by decide⟩
  have hrow : wordBound ≤ emptyRows.rowBits := by
    decide +kernel
  obtain ⟨_, hall⟩ := sizes_of_file hfind hopen (by decide +kernel)
  obtain ⟨hoffset, hds⟩ := hall _ _ _ hindex
  obtain ⟨_, hpayloads⟩ := hds emptyRows List.mem_cons_self
  obtain ⟨_, hbreaks, _⟩ := hpayloads [] hpayload
  exact ⟨_, _, _, hopen, hindex, hoffset, hpayload, hdivisible, hrow, hbreaks hdivisible hrow⟩

end Gguf

end TensorFiles
