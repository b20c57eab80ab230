import TensorFiles.Proofs.Gguf.Canonical
import TensorFiles.Proofs.Npy.RoundTrip
import TensorFiles.Proofs.SafeTensors.RoundTrip
/-!
This module contains what saved files hold of views that may answer anything. Whatever they answer, a
file that is written declares the form of each view, and holds a payload of just the size that is
declared.
-/

namespace TensorFiles

namespace Gguf

/--
The file holds each view in turn: the descriptor has the form of the view, and declares the size of
the payload. If the file is as small as files have to be, the payloads stand where their descriptors
say.
-/
def Stores (d : Disk) (path : String) (tensors : Table View) : Prop :=
  ∃ (id version : Nat) (w : Written) (placed : List PlacedTensor),
    d.find path = .ok (.file id (w.file version)) ∧
    w.descriptors = placed.map (·.descriptor) ∧
    List.Forall₂ (fun e t => PlacedTensor.Holds t e) tensors.entries placed ∧
    (∀ t ∈ placed, t.descriptor.byteSize = .ok t.payload.length) ∧
    (fileFits d path = true → ∀ t ∈ placed, ∃ start, w.start? = some start ∧
      Stands (w.file version) (start + t.descriptor.offset) t.payload)

theorem stores_of_save {d d' : Disk} {path written : String} {tensors : Table View}
    {metadata : Table MetaValue} {config : CodecConfig}
    (h : save d path tensors metadata config = (.ok written, d'))
    : Stores d' written tensors := by
  obtain ⟨_, alignment, records, placed, hplan, _⟩ := exists_writeFile_of_save h
  obtain ⟨hsound, id, hfind⟩ := exists_find_of_save hplan h
  obtain ⟨hvalid, hchoose, _, hplaced⟩ := plan_eq_ok_iff.1 hplan
  obtain ⟨hpower, hsmall, _⟩ :=
    CodecConfig.validate_eq_ok_iff.1 (validate_of_chooseAlignment hvalid hchoose)
  have hholds := forall₂_holds hplaced
  refine ⟨id, config.version, _, placed, hfind, Written.descriptors_ofPlan .., hholds, ?_, ?_⟩
  . intro t ht
    obtain ⟨e, _, hte⟩ := exists_left_of_forall₂ hholds ht
    have hsized := hsound.sized
    rw [Written.descriptors_ofPlan, List.forall_mem_map] at hsized
    rw [← hte.size_eq]
    exact hsized t ht
  . intro hfits t ht
    rw [fileFits_iff_of_find hfind] at hfits
    have hpayload : (t.descriptor.offset, t.payload)
        ∈ (Written.ofPlan alignment records placed).payloads := by
      rw [Written.payloads_ofPlan]
      exact List.mem_map_of_mem (f := fun t => (t.descriptor.offset, t.payload)) ht
    refine hsound.stands_payload (fun start hstart => ?_) hpayload (length_encodeHeader ..)
    rw [Written.start_ofPlan hstart]
    exact le_alignUp hpower (add_le_wordBound (Written.index_lt_of_size _ hfits) hsmall)

end Gguf

namespace Npy

/--
The file holds the view: its header is that of the form of the view, and what is behind the header is
the payload. A reader finds them so, if the dimensions and the length of the header are as small as
they have to be.
-/
def Stores (d : Disk) (path : String) (v : View) : Prop :=
  ∃ (id : Nat) (stream : List UInt8) (descr : String) (payload : List UInt8),
    d.find path = .ok (.file id stream) ∧ descr? v.dtype = some descr ∧
    stream = preamble (Utf8.encode (Header.dictionary descr v.shape)) ++ payload ∧
    v.contiguousData tensorName = .ok payload ∧ payload.length = v.nbytes ∧
    ((∀ dim ∈ v.shape, dim < wordBound) → (Opening.ofView v).header.length < halfWordBound →
      ∃ text, headerText stream = .ok (text, payload) ∧
        Header.parse text = .ok ⟨v.dtype, v.shape, false⟩)

theorem stores_of_save {d d' : Disk} {path written : String} {v : View}
    (h : save d path v = (.ok written, d')) : Stores d' written v := by
  obtain ⟨rfl, _, stream, hencode, hwrite⟩ := save_eq_ok_iff.1 h
  obtain ⟨descr, payload, hdescr, hpayload, rfl⟩ := encode_eq_ok_iff.1 hencode
  obtain ⟨id, hfind⟩ := Disk.find_write hwrite
  refine ⟨id, _, descr, payload, hfind, hdescr, ?_, hpayload,
    View.length_of_contiguousData hpayload, fun hdims hheader => ?_⟩
  . rw [Opening.preamble_eq]
  . rw [← Opening.ofView_eq hdescr]
    exact exists_headerText_ofView hdescr hdims hheader payload

end Npy

namespace SafeTensors

/--
An entry of a header, with the payload that it leads to in `data`, is that of a view.
-/
structure Holds (data : List UInt8) (entry : String × Entry) (e : String × View) : Prop where
  name : entry.1 = e.1
  type : entry.2.type.dtype? = some e.2.dtype
  shape : entry.2.shape = e.2.shape
  size : entry.2.stop = entry.2.start + e.2.nbytes
  payload : e.2.contiguousData e.1
    = .ok ((data.drop entry.2.start).take (entry.2.stop - entry.2.start))

def Stores (d : Disk) (path : String) (tensors : Table View) : Prop :=
  ∃ (id : Nat) (metadata : Table String) (arranged : List Prepared)
      (entries : List (String × View)),
    d.find path = .ok (.file id (image metadata arranged)) ∧
    entries.Perm tensors.entries ∧
    List.Forall₂ (Holds (arranged.flatMap (·.data))) (place 0 arranged) entries

theorem holds_of_places {data : List UInt8} {entry : String × Entry} {e : String × View}
    {t : Prepared} (hplaces : Places data t entry) (h : Prepared.ofView e.1 e.2 = .ok t)
    : Holds data entry e := by
  obtain ⟨type, htype, payload, hpayload, rfl⟩ := ofView_eq_ok_iff.1 h
  have hlength := View.length_of_contiguousData hpayload
  constructor
  . exact hplaces.name
  . rw [hplaces.type]
    exact ElementType.dtype?_of_ofDType? htype
  . exact hplaces.shape
  . rw [← hlength]
    exact hplaces.length
  . rw [hplaces.bytes]
    exact hpayload

theorem stores_of_save {d d' : Disk} {path written : String} {tensors : Table View}
    {metadata : Table String} (h : save d path tensors metadata = (.ok written, d'))
    : Stores d' written tensors := by
  obtain ⟨rfl, file, hencode, hwrite⟩ := save_eq_ok_iff.1 h
  obtain ⟨prepared, hprepared, _, _, rfl⟩ := encode_eq_ok_iff.1 hencode
  obtain ⟨id, hfind⟩ := Disk.find_write hwrite
  obtain ⟨entries, hentries, hperm⟩ :=
    List.perm_comp_forall₂ (arrange_perm prepared) hprepared.flip
  refine ⟨id, metadata, arrange prepared, entries, hfind, hperm, ?_⟩
  have hplaces := forall₂_places [] (arrange prepared)
  exact (forall₂_of_forall₂ hplaces hentries).imp
    (fun _ _ ⟨_, hplace, hview⟩ => holds_of_places hplace hview)

end SafeTensors

/--
The bytes that are taken from a view are its own and of the number that its form asks for. There are
none if that number does not fit a machine word: it is not an error that is told then, the computation
breaks off, which it does nowhere else unless the view does. Tensors only exist with as many bytes as
their forms ask for, and making them breaks off exactly for forms that ask for too many. So every file
that is saved, whatever the views answer, holds payloads of the sizes that it declares.
-/
theorem payloads_of_views (v : View) (name : String)
    : (∀ bytes, v.contiguousData name = .ok bytes ↔
        v.eval = .ok () ∧ v.Offers bytes ∧ bytes.length = v.numel * v.dtype.size ∧
          Shape.Small v.shape) ∧
      (v.eval = .ok () → ¬ Tensor.FitsWord v.dtype v.shape →
        (∀ bytes, v.Offers bytes → bytes.length < wordBound) →
          v.contiguousData name = .error (.panic .product)) ∧
      (Tensor.FitsWord v.dtype v.shape → ∀ cause, v.contiguousData name = .error (.panic cause) →
        v.eval = .error (.panic cause) ∨ v.copy = .error (.panic cause)) ∧
      (∀ dtype shape data, (∃ t, Tensor.ofBytes dtype shape data = .ok t) ↔
        Shape.Small shape ∧ data.length = Shape.numel shape * dtype.size) ∧
      (∀ dtype shape data, data.length < wordBound →
        (Tensor.ofBytes dtype shape data = .error (.panic .product) ↔
          ¬ Tensor.FitsWord dtype shape)) ∧
      (∀ values shape, (∃ t, Tensor.ofBools values shape = .ok t) ↔
        Shape.Small shape ∧ values.length = Shape.numel shape) ∧
      (∀ dtype data, (∃ t, Tensor.scalar dtype data = .ok t) ↔ data.length = dtype.size) ∧
      (∀ (t : Tensor) shape, (∃ t', t.reshape shape = .ok t') ↔
        Shape.Small shape ∧ Shape.numel shape = t.numel) ∧
      (∀ t : Tensor, t.data.length = t.numel * t.dtype.size) ∧
      (∀ d d' path written tensors metadata config,
        Gguf.save d path tensors metadata config = (.ok written, d') →
          Gguf.Stores d' written tensors) ∧
      (∀ d d' path written, Npy.save d path v = (.ok written, d') → Npy.Stores d' written v) ∧
      ∀ d d' path written tensors metadata,
        SafeTensors.save d path tensors metadata = (.ok written, d') →
          SafeTensors.Stores d' written tensors := by
  refine ⟨fun bytes => View.contiguousData_eq_ok_iff, View.contiguousData_of_not_fitsWord name,
    fun hfits cause => View.panic_of_contiguousData hfits,
    fun dtype shape data => Tensor.exists_ofBytes_iff,
    fun dtype shape data => Tensor.ofBytes_eq_panic_iff,
    fun values shape => Tensor.exists_ofBools_iff, ?_,
    fun t shape => Tensor.exists_reshape_iff, Tensor.length_data, ?_, ?_, ?_⟩
  . intro dtype data
    unfold Tensor.scalar
    rw [Tensor.exists_ofBytes_iff, and_iff_right (by rfl)]
    exact Eq.congr_right (Nat.one_mul _)
  . intro d d' path written tensors metadata config
    exact Gguf.stores_of_save
  . intro d d' path written
    exact Npy.stores_of_save
  . intro d d' path written tensors metadata
    exact SafeTensors.stores_of_save

/--
A view of two numbers that does not hold its bytes together.
-/
def strided : View where
  dtype := .i16
  shape := [2]
  eval := .ok ()
  contiguous? := none
  copy := .ok ⟨.i16, [2], [1, 0, 2, 0], by decide⟩

/--
A view whose copy has another shape.
-/
def transposed : View := { strided with shape := [1, 2] }

/--
A view without bytes that says it has 2^64 of them.
-/
def boundless : View :=
  { strided with dtype := .u8, shape := [0x100000000, 0x100000000], contiguous? := some [] }

theorem payloads_of_views_strided
    : strided.contiguousData "t" = .ok [1, 0, 2, 0] ∧
      (∀ bytes, transposed.contiguousData "t" ≠ .ok bytes) ∧
      boundless.contiguousData "t" = .error (.panic .product) ∧
      (∃ d', Gguf.save .empty "m" (.ofList [("t", strided)]) .empty {} = (.ok "m.gguf", d') ∧
        Gguf.Stores d' "m.gguf" (.ofList [("t", strided)])) ∧
      (∃ d', Npy.save .empty "m" strided = (.ok "m.npy", d') ∧ Npy.Stores d' "m.npy" strided) ∧
      ∃ d', SafeTensors.save .empty "m" (.ofList [("t", strided)]) .empty
          = (.ok "m.safetensors", d') ∧
        SafeTensors.Stores d' "m.safetensors" (.ofList [("t", strided)]) := by
  obtain ⟨htaken, _, _, _, _, _, _, _, _, hgguf, hnpy, hsafeTensors⟩ := payloads_of_views strided "t"
  obtain ⟨hrefused, _⟩ := payloads_of_views transposed "t"
  obtain ⟨_, hbreaks, _⟩ := payloads_of_views boundless "t"
  have hfirst : (Gguf.save .empty "m" (.ofList [("t", strided)]) .empty {}).1 = .ok "m.gguf" := by
    decide +kernel
  have hsecond : (Npy.save .empty "m" strided).1 = .ok "m.npy" := by
    decide +kernel
  have hthird : (SafeTensors.save .empty "m" (.ofList [("t", strided)]) .empty).1
      = .ok "m.safetensors" := by
    decide +kernel
  refine ⟨(htaken _).2 ⟨rfl, .inr ⟨rfl, _, rfl, rfl, rfl, rfl⟩, rfl, by decide⟩, ?_,
    hbreaks rfl ?_ ?_,
    ⟨_, Prod.fst_eq_iff.1 hfirst, hgguf _ _ _ _ _ _ _ (Prod.fst_eq_iff.1 hfirst)⟩,
    ⟨_, Prod.fst_eq_iff.1 hsecond, hnpy _ _ _ _ (Prod.fst_eq_iff.1 hsecond)⟩,
    _, Prod.fst_eq_iff.1 hthird, hsafeTensors _ _ _ _ _ _ (Prod.fst_eq_iff.1 hthird)⟩
  . intro bytes h
    obtain ⟨_, hthere | ⟨_, t, hcopy, hshape, _⟩, _⟩ := (hrefused bytes).1 h
    . cases hthere
    . cases hcopy
      exact absurd hshape (by decide)
  . exact fun h => absurd h.small (by decide)
  . rintro bytes (hthere | ⟨hnone, _⟩)
    . cases hthere
      decide
    . cases hnone

end TensorFiles
