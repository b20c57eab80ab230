import TensorFiles.Proofs.Gguf.Container.Replay
import TensorFiles.Proofs.Gguf.Container.RoundTrip
import TensorFiles.Proofs.Gguf.Decode
/-!
This module contains what loading a file depends on: the bytes of its index, and the payloads that
the index refers to. What stands between the payloads or behind them can be anything.
-/

namespace TensorFiles.Gguf

namespace Container

variable {c c' : Container} {t : Descriptor} {data data' bytes : List UInt8} {start size : Nat}

/--
The offset `i` lies in the index of the file that `c` has opened, or in the payload of one of its
descriptors.
-/
def Refers (c : Container) (i : Nat) : Prop :=
  ∃ metadata ds c', c.ReadsIndex metadata ds c' ∧
    (i < c'.offset ∨ ∃ t ∈ ds, ∃ start size, c'.dataStart = .ok start ∧ t.byteSize = .ok size ∧
      start + t.offset ≤ i ∧ i < start + t.offset + size)

theorem range?_eq_some_iff
    : range? data start size = some bytes ↔ Stands data start bytes ∧ bytes.length = size := by
  constructor
  . intro h
    have hlength := length_of_range? h
    unfold range? at h
    split at h
    . next hroom =>
      rw [Option.some.injEq] at h
      rw [← h]
      exact ⟨stands_take_drop hroom, by rw [h, hlength]⟩
    . simp at h
  . rintro ⟨hstands, rfl⟩
    unfold range?
    rw [if_pos hstands.length_le, hstands.take_drop]

theorem decode_of_payload {out : List (String × Tensor)} (h : c.decode t = .ok out)
    (hpayload : ∀ bytes, c.payload t = .ok bytes → c'.payload t = .ok bytes)
    : c'.decode t = .ok out := by
  unfold decode at h ⊢
  split at h
  . simp only [bind_eq_ok_iff] at h ⊢
    obtain ⟨last, hlast, bytes, hbytes, h⟩ := h
    exact ⟨last, hlast, bytes, hpayload bytes hbytes, h⟩
  . rw [bind_eq_ok_iff] at h ⊢
    obtain ⟨bytes, hbytes, h⟩ := h
    exact ⟨bytes, hpayload bytes hbytes, h⟩

theorem decodeAll_of_payload {tables tables' : Table Tensor} {ds : List Descriptor}
    (h : c.decodeAll tables ds = .ok tables')
    (hpayload : ∀ t ∈ ds, ∀ bytes, c.payload t = .ok bytes → c'.payload t = .ok bytes)
    : c'.decodeAll tables ds = .ok tables' := by
  rw [decodeAll_eq_ok_iff] at h ⊢
  obtain ⟨outs, houts, hinsert⟩ := h
  refine ⟨outs, ?_, hinsert⟩
  clear hinsert
  induction houts with
  | nil => exact .nil
  | cons hdecode _ ih =>
    rw [List.forall_mem_cons] at hpayload
    exact .cons (decode_of_payload hdecode hpayload.1) (ih hpayload.2)

/--
A payload that is there is also found in any file that has its bytes in their place.
-/
theorem payload_of_alike (h : c.payload t = .ok bytes) (halike : Alike True c c')
    (hdata : c.data = .ok data) (hdata' : c'.data = .ok data')
    (hstands : ∀ start, c.dataStart = .ok start → Stands data (start + t.offset) bytes →
      Stands data' (start + t.offset) bytes)
    : c'.payload t = .ok bytes := by
  obtain ⟨hsection, haligned, found, size, start, hfound, hsize, hstart, hrange⟩ :=
    payload_eq_ok_iff.1 h
  rw [hdata, Except.ok.injEq] at hfound
  rw [← hfound, range?_eq_some_iff] at hrange
  have hsection' : c'.expectSection "tensor_data" .data = .ok () := by
    unfold expectSection at hsection ⊢
    rw [halike.current]
    exact hsection
  have hstart' : c'.dataStart = .ok start := by
    unfold dataStart at hstart ⊢
    rw [halike.dataStart]
    exact hstart
  rw [← halike.alignment] at haligned
  exact payload_eq_ok_iff.2 ⟨hsection', haligned, data', size, start, hdata', hsize, hstart',
    range?_eq_some_iff.2 ⟨hstands start hstart hrange.1, hrange.2⟩⟩

end Container

/--
A file loads as another one does if it is at least as long and has the same bytes wherever the
index of that one lies or refers to.
-/
theorem load_of_refers {d d' : Disk} {path path' : String} {file file' : Nat}
    {data data' : List UInt8} {config : CodecConfig} {c : Container} {content : Content}
    (hfind : d.find path = .ok (.file file data)) (hfind' : d'.find path' = .ok (.file file' data'))
    (hopen : Container.ofFile d path config = .ok c) (hload : load d path config = .ok content)
    (hlength : data.length ≤ data'.length) (hagree : ∀ i, c.Refers i → data'[i]? = data[i]?)
    : load d' path' config = .ok content := by
  obtain ⟨c₀, hopen₀, hcontent⟩ := load_eq_ok_iff.1 hload
  rw [hopen, Except.ok.injEq] at hopen₀
  rw [← hopen₀] at hcontent
  obtain ⟨ds, c₁, hindex, hdecode⟩ := Container.readContent_eq_ok_iff.1 hcontent
  rw [Container.ofFile_eq_of_find hfind] at hopen
  obtain ⟨bytes, hstands, hdata, hoffset, hreplay⟩ := hindex.replay hopen
  have hindex' : Stands data' 0 bytes := by
    apply hstands.transfer hlength
    intro i _ hi
    rw [Nat.zero_add, ← hoffset] at hi
    exact hagree i ⟨_, ds, c₁, hindex, .inl hi⟩
  obtain ⟨c', c₁', hopen', hindex₁, halike⟩ :=
    hreplay path' file' data' config (Nat.le_refl _) hindex'
  obtain ⟨_, _, hdata', _⟩ := hindex₁.replay hopen'
  rw [← Container.ofFile_eq_of_find hfind'] at hopen'
  refine load_eq_ok_iff.2 ⟨c', hopen', Container.readContent_eq_ok_iff.2 ⟨ds, c₁', hindex₁, ?_⟩⟩
  apply Container.decodeAll_of_payload hdecode
  intro t ht payload hpayload
  apply Container.payload_of_alike hpayload halike hdata hdata'
  intro start hstart hpayloadStands
  apply hpayloadStands.transfer hlength
  intro i hle hlt
  exact hagree i ⟨_, ds, c₁, hindex, .inr
    ⟨t, ht, start, payload.length, hstart, Container.byteSize_of_payload hpayload, hle, hlt⟩⟩

/--
A file of two payloads with `filler` in front of each of them.
-/
def gapped (filler : UInt8) (behind : List UInt8) : List UInt8 :=
  encodeHeader 3 2 0 ++ (Descriptor.encode ⟨"a", [1], .i8, 0⟩ ++
    Descriptor.encode ⟨"b", [2], .i8, 64⟩ ++ List.replicate 6 filler ++ [7] ++
    List.replicate 63 filler ++ [1, 2] ++ behind)

/--
A disk with such a file.
-/
def gappedDisk (filler : UInt8) (behind : List UInt8) : Disk :=
  ⟨[(["g"], .file 0 (gapped filler behind))], 1⟩

/--
The container that has been opened for the file without filler.
-/
def gappedOpened : Container := {
  medium := .opened 0 (gapped 0 [])
  path := "g"
  offset := headerLength
  alignment := defaultAlignment
  version := 3
  maxStringLen := ({} : CodecConfig).maxStringLen
  tensorCount := 2 }

theorem load_of_refers_gapped
    : ∃ content, load (gappedDisk 0 []) "g" {} = .ok content ∧
        (gapped 0 []).length ≤ (gapped 255 [9]).length ∧
        load (gappedDisk 255 [9]) "g" {} = .ok content := by
  have hload : load (gappedDisk 0 []) "g" {}
      = .ok ⟨.ofList [("a", ⟨.i8, [1], [7], rfl⟩), ("b", ⟨.i8, [2], [1, 2], rfl⟩)], .empty⟩ := by
    decide +kernel
  have hlength : (gapped 0 []).length ≤ (gapped 255 [9]).length := by
    decide +kernel
  have hfind (filler : UInt8) (behind : List UInt8)
      : (gappedDisk filler behind).find "g" = .ok (.file 0 (gapped filler behind)) := rfl
  have hopen : Container.ofFile (gappedDisk 0 []) "g" {} = .ok gappedOpened := by
    rw [Container.ofFile_eq_of_find (hfind 0 [])]
    exact Container.openData_eq ⟨[], _, rfl, rfl⟩ (by decide) (by decide) (by decide)
  refine ⟨_, hload, hlength, ?_⟩
  apply load_of_refers (hfind 0 []) (hfind 255 [9]) hopen hload hlength
  rintro i ⟨metadata, ds, c', hindex, hi⟩
  rw [Container.readsIndex_iff] at hindex
  have hds : (exec Container.readIndex gappedOpened).1
      = .ok (.empty, [⟨"a", [1], .i8, 0⟩, ⟨"b", [2], .i8, 64⟩]) := by
    decide +kernel
  have hoffset : (exec Container.readIndex gappedOpened).2.offset = 90 := by
    decide +kernel
  have hstart : (exec Container.readIndex gappedOpened).2.dataStart = .ok 96 := by
    decide +kernel
  rw [hindex] at hds hoffset hstart
  rw [Except.ok.injEq, Prod.mk.injEq] at hds
  dsimp only at hoffset hstart
  have hplace : i < 90 ∨ i = 96 ∨ i = 160 ∨ i = 161 := by
    rw [hoffset, hds.2, hstart] at hi
    simp only [List.mem_cons, List.not_mem_nil, or_false, exists_eq_or_imp, exists_eq_left,
      Except.ok.injEq] at hi
    rcases hi with hi | ⟨start, size, rfl, hsize, hi⟩ | ⟨start, size, rfl, hsize, hi⟩
    . exact .inl hi
    . have hone : size = 1 := Descriptor.eq_size_of_byteSize hsize
      omega
    . have htwo : size = 2 := Descriptor.eq_size_of_byteSize hsize
      omega
  have hfront : ∀ i < 90, (gapped 255 [9])[i]? = (gapped 0 [])[i]? := by
    decide +kernel
  rcases hplace with hi | rfl | rfl | rfl
  . exact hfront i hi
  . rfl
  . rfl
  . rfl

end TensorFiles.Gguf
