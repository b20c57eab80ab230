import TensorFiles.Proofs.Gguf.Decode
import TensorFiles.Proofs.Gguf.Parts
/-!
This module contains the shapes that files declare and the shapes of the tensors that come out of
them. A shape that has been read has a product that fits a machine word, and so does every shape
with dimensions that are not larger.
-/

namespace TensorFiles.Gguf

variable {limit : Nat}

theorem exec_dims_eq_ok {count : Nat} {c c' : Cursor} {dims : List Nat}
    (h : exec (Read.dims count) c = (.ok dims, c'))
    : dims.length = count ∧ ∀ d ∈ dims, d < wordBound := by
  induction count generalizing c c' dims with
  | zero =>
    unfold Read.dims at h
    rw [exec_pure_eq_ok_iff] at h
    rw [← h.1]
    exact ⟨rfl, by simp⟩
  | succ count ih =>
    unfold Read.dims at h
    obtain ⟨d, c₁, hd, h⟩ := exec_bind_eq_ok h
    obtain ⟨rest, c₂, hrest, h⟩ := exec_bind_eq_ok h
    rw [exec_pure_eq_ok_iff] at h
    rw [← h.1]
    obtain ⟨hlength, hall⟩ := ih hrest
    rw [List.forall_mem_cons, List.length_cons, hlength]
    exact ⟨rfl, (exec_u64_eq_ok hd).1, hall⟩

/--
What the shape of every descriptor is like that has been read.
-/
structure Descriptor.Shaped (t : Descriptor) : Prop where
  rank : t.shape.length ≤ maxRank
  shape : Shape.Fits t.shape

theorem shaped_of_exec {c c' : Cursor} {t : Descriptor}
    (h : exec Read.descriptor c = (.ok t, c')) : t.Shaped := by
  unfold Read.descriptor at h
  obtain ⟨name, c₁, _, h⟩ := exec_bind_eq_ok h
  obtain ⟨rank, c₂, _, h⟩ := exec_bind_eq_ok h
  split at h
  . rw [exec_bind_of_error (exec_throw _ _)] at h
    simp at h
  . next hrank =>
    obtain ⟨stored, c₃, hstored, h⟩ := exec_bind_eq_ok h
    obtain ⟨hlength, hdims⟩ := exec_dims_eq_ok hstored
    dsimp only at h
    split at h
    . rw [exec_bind_of_error (exec_throw _ _)] at h
      simp at h
    . next hproduct =>
      obtain ⟨code, c₄, _, h⟩ := exec_bind_eq_ok h
      split at h
      . simp at h
      . obtain ⟨offset, c₅, _, h⟩ := exec_bind_eq_ok h
        rw [exec_pure_eq_ok_iff] at h
        rw [← h.1]
        refine ⟨?_, ?_, ?_⟩
        . rw [List.length_reverse, hlength]
          exact Nat.not_lt.1 hrank
        . exact fun d hd => hdims d (List.mem_reverse.1 hd)
        . simpa [Option.isSome_iff_ne_none] using hproduct

theorem Parts.shaped_of_mem {p : Parts limit} {t : Descriptor} (ht : t ∈ p.tensors)
    : t.Shaped := by
  obtain ⟨piece, _, rfl⟩ := List.mem_map.1 ht
  exact shaped_of_exec (piece.reads.exec_eq (stands_of_append [] piece.bytes []))

/--
What the index of a file leaves when it has been read.
-/
theorem Container.ReadsIndex.exists_located {path : String} {file : Nat} {data : List UInt8}
    {config : CodecConfig} {c c' : Container} {metadata : Table MetaValue} {ds : List Descriptor}
    (h : c.ReadsIndex metadata ds c') (hopen : openData path file data config = .ok c)
    : ∃ (p : Parts config.maxStringLen) (alignment : Nat), p.file = data ∧
        declaredAlignment? defaultAlignment p.entries = some alignment ∧ ds = p.tensors ∧
        c' = p.located path file alignment := by
  obtain ⟨p, rfl⟩ := Parts.exists_of_readsIndex hopen h
  rw [Parts.openData_eq p, Except.ok.injEq] at hopen
  rw [← hopen] at h
  obtain ⟨alignment, halign, _, hds, hc'⟩ := Parts.readsIndex_iff.1 h
  exact ⟨p, alignment, rfl, halign, hds, hc'⟩

namespace Container

variable {c : Container} {t : Descriptor} {out : List (String × Tensor)}

/--
The shape of a tensor is that of its descriptor, or one with a last dimension that is not larger.
-/
theorem shape_of_decode (h : c.decode t = .ok out) {e : String × Tensor} (he : e ∈ out)
    : e.2.shape = t.shape ∨ ∃ last n, t.shape.getLast? = some last ∧ n ≤ last ∧
        e.2.shape = t.shape.dropLast ++ [n] := by
  unfold decode at h
  split at h
  . next s stem hsome =>
    have hs := (Scheme.mem_of_ofType? (unpacking?_eq_some_iff.1 hsome).1).1
    simp only [bind_eq_ok_iff, pure_eq_ok_iff] at h
    obtain ⟨_, _, _, _, q, hq, rfl⟩ := h
    obtain ⟨last, hlast, _, _, _, parts, _, hweights, hscales, hbiases⟩ :=
      (Quantized.ofPayload_eq_ok_iff hs).1 hq
    have hlast' := ((Scheme.lastDim_eq_ok_iff hs).1 hlast).1
    have hgroups : last / s.weights ≤ last := Nat.div_le_self last s.weights
    simp only [List.mem_cons, List.not_mem_nil, or_false] at he
    rcases he with rfl | rfl | rfl
    . exact .inr ⟨last, _, hlast', Scheme.packed_le hs last, (Tensor.ofBytes_eq_ok_iff.1 hweights).2.1⟩
    . exact .inr ⟨last, _, hlast', hgroups, (Tensor.ofBytes_eq_ok_iff.1 hscales).2.1⟩
    . exact .inr ⟨last, _, hlast', hgroups, (Tensor.ofBytes_eq_ok_iff.1 hbiases).2.1⟩
  . rw [bind_eq_ok_iff] at h
    obtain ⟨payload, _, h⟩ := h
    split at h
    . simp only [bind_eq_ok_iff, pure_eq_ok_iff] at h
      obtain ⟨x, hx, rfl⟩ := h
      rw [List.mem_singleton] at he
      rw [he]
      exact .inl (Tensor.ofBytes_eq_ok_iff.1 hx).2.1
    . simp only [bind_eq_ok_iff, pure_eq_ok_iff] at h
      obtain ⟨x, hx, rfl⟩ := h
      obtain ⟨_, _, _, _, _, hx⟩ := widen_eq_ok_iff.1 hx
      rw [List.mem_singleton] at he
      rw [he]
      exact .inl (Tensor.ofBytes_eq_ok_iff.1 hx).2.1

theorem fits_of_decode (h : c.decode t = .ok out) (hshaped : t.Shaped) {e : String × Tensor}
    (he : e ∈ out) : e.2.rank ≤ maxRank ∧ Shape.Fits e.2.shape := by
  unfold Tensor.rank
  rcases shape_of_decode h he with hshape | ⟨last, n, hlast, hle, hshape⟩
  . rw [hshape]
    exact ⟨hshaped.rank, hshaped.shape⟩
  . have hlength : (t.shape.dropLast ++ [n]).length = t.shape.length := by
      rw [← List.dropLast_append_getLast? _ hlast]
      simp
    rw [hshape, hlength]
    exact ⟨hshaped.rank, hshaped.shape.dropLast_append hlast hle⟩

end Container

/--
The shapes of the tensors that are loaded.
-/
theorem fits_of_load {d : Disk} {path : String} {config : CodecConfig} {content : Content}
    (h : load d path config = .ok content)
    : ∀ e ∈ content.tensors.entries, e.2.rank ≤ maxRank ∧ Shape.Fits e.2.shape := by
  obtain ⟨c, hopen, hcontent⟩ := load_eq_ok_iff.1 h
  obtain ⟨ds, c', hindex, hdecode⟩ := Container.readContent_eq_ok_iff.1 hcontent
  obtain ⟨outs, houts, hinsert⟩ := Container.decodeAll_eq_ok_iff.1 hdecode
  obtain ⟨_, _, htable⟩ := Container.insertNew_eq_ok_iff.1 hinsert
  unfold Container.ofFile at hopen
  split at hopen
  . simp at hopen
  . next file data _ =>
    obtain ⟨p, alignment, _, _, rfl, _⟩ := hindex.exists_located hopen
    intro e he
    rw [htable] at he
    cases Table.mem_of_mem_insertAll he with
    | inl hempty => simp [Table.empty] at hempty
    | inr hmem =>
      obtain ⟨out, hout, he⟩ := List.mem_flatten.1 hmem
      obtain ⟨t, ht, hdecode⟩ := exists_left_of_forall₂ houts hout
      exact Container.fits_of_decode hdecode (Parts.shaped_of_mem ht) he

end TensorFiles.Gguf
