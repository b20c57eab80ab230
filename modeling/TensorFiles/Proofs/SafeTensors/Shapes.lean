import Mathlib.Algebra.Order.BigOperators.Group.List
import Mathlib.Algebra.Order.Group.Nat
import TensorFiles.Proofs.Bytes.Utf8
import TensorFiles.Proofs.Gguf.Reads
import TensorFiles.Proofs.Json.Bounds
import TensorFiles.Proofs.SafeTensors.RoundTrip
/-!
This module contains the shapes of the tensors of archives: their products fit a machine word, and
the header has room for all their dimensions.
-/

namespace TensorFiles.SafeTensors

variable {room : Nat} {json : Json}

/--
What the shapes are like that stand in a header of some length.
-/
structure Shaped (room : Nat) (shape : List Nat) : Prop where
  rank : shape.length ≤ room
  dims : ∀ d ∈ shape, d < wordBound

namespace Entry

theorem lt_of_nat? {n : Nat} (hjson : json.Within room) (h : nat? json = some n)
    : n < wordBound := by
  unfold nat? at h
  split at h
  . rw [Option.some.injEq] at h
    cases hjson with
    | int hlt => exact h ▸ Int.ofNat_lt.1 hlt
  . simp at h

theorem shaped_of_shape? {shape : List Nat} (hjson : json.Within room)
    (h : shape? json = some shape) : Shaped room shape := by
  unfold shape? at h
  split at h
  . next dims =>
    cases hjson with
    | array hlength hall =>
      rw [mapM_eq_some_iff] at h
      refine ⟨h.length_eq ▸ hlength, ?_⟩
      intro d hd
      obtain ⟨dim, hdim, hd⟩ := exists_left_of_forall₂ h hd
      exact lt_of_nat? (hall dim hdim) hd
  . simp at h

theorem shaped_of_ofParts? {type shape range : Json} {e : Entry} (hshape : shape.Within room)
    (h : ofParts? type shape range = some e) : Shaped room e.shape := by
  unfold ofParts? at h
  simp only [Option.bind_eq_bind, Option.bind_eq_some_iff] at h
  obtain ⟨_, _, dims, hdims, ⟨_, _⟩, _, h⟩ := h
  cases h
  exact shaped_of_shape? hshape hdims

theorem shaped_of_ofJson? {e : Entry} (hjson : json.Within room) (h : ofJson? json = some e)
    : Shaped room e.shape := by
  unfold ofJson? at h
  split at h
  . next fields =>
    split at h
    . next type shape range _ hshape _ =>
      cases hjson with
      | object _ hall =>
        have hmem : shape ∈ Json.fieldsNamed "shape" fields := by
          rw [hshape]
          exact List.mem_singleton_self shape
        unfold Json.fieldsNamed at hmem
        rw [List.mem_map] at hmem
        obtain ⟨f, hf, rfl⟩ := hmem
        exact shaped_of_ofParts? (hall f (List.mem_of_mem_filter hf)) h
    . simp at h
  . next type shape range =>
    cases hjson with
    | array _ hall => exact shaped_of_ofParts? (hall shape (by simp)) h
  . simp at h

end Entry

namespace Header

variable {header : Header}

theorem exists_of_ofJson? (hjson : json.Within room) (h : ofJson? json = some header)
    : ∃ (fields : List (String × Json)) (entries : List (String × Entry)),
        fields.length ≤ room ∧ (∀ f ∈ fields, f.2.Within room) ∧
        List.Forall₂ (fun f e => (Entry.ofJson? f.2).map (fun entry => (f.1, entry)) = some e)
          (fields.filter (fun f => f.1 != metadataKey)) entries ∧
        header.entries = Table.ofList entries := by
  unfold ofJson? at h
  split at h
  . next fields =>
    simp only [Option.bind_eq_bind, Option.bind_eq_some_iff] at h
    obtain ⟨metadata, _, entries, hentries, h⟩ := h
    rw [mapM_eq_some_iff] at hentries
    cases h
    cases hjson with
    | object hlength hall => exact ⟨fields, entries, hlength, hall, hentries, rfl⟩
  . simp at h

theorem shaped_of_ofJson? (hjson : json.Within room) (h : ofJson? json = some header)
    : ∀ e ∈ header.entries.entries, Shaped room e.2.shape := by
  obtain ⟨fields, entries, _, hall, hentries, hheader⟩ := exists_of_ofJson? hjson h
  intro e he
  rw [hheader] at he
  obtain ⟨f, hf, hentry⟩ := exists_left_of_forall₂ hentries (Table.mem_of_mem_ofList he)
  rw [Option.map_eq_some_iff] at hentry
  obtain ⟨entry, hentry, rfl⟩ := hentry
  exact Entry.shaped_of_ofJson? (hall f (List.mem_of_mem_filter hf)) hentry

theorem length_le_of_ofJson? (hjson : json.Within room) (h : ofJson? json = some header)
    : header.entries.entries.length ≤ room := by
  obtain ⟨fields, entries, hlength, _, hentries, hheader⟩ := exists_of_ofJson? hjson h
  rw [hheader]
  refine Nat.le_trans (Table.length_ofList_le entries) ?_
  rw [← hentries.length_eq]
  exact Nat.le_trans (List.length_filter_le _ fields) hlength

/--
No tensor that is read has the name of the table of strings.
-/
theorem ne_metadataKey_of_ofJson? (hjson : json.Within room) (h : ofJson? json = some header)
    : ∀ e ∈ header.entries.entries, e.1 ≠ metadataKey := by
  obtain ⟨fields, entries, _, _, hentries, hheader⟩ := exists_of_ofJson? hjson h
  intro e he
  rw [hheader] at he
  obtain ⟨f, hf, hentry⟩ := exists_left_of_forall₂ hentries (Table.mem_of_mem_ofList he)
  rw [Option.map_eq_some_iff] at hentry
  obtain ⟨_, _, rfl⟩ := hentry
  exact bne_iff_ne.1 (List.mem_filter.1 hf).2

end Header

/--
The header of a file that is not too long for its text.
-/
theorem exists_json_of_decodeHeader {file data : List UInt8} {header : Header}
    (h : decodeHeader file = .ok (header, data))
    : data.length ≤ file.length ∧ ∃ room json, room ≤ maxHeaderLength ∧ Json.Within room json ∧
        Header.ofJson? json = some header := by
  unfold decodeHeader at h
  split at h
  . simp at h
  . dsimp only at h
    split at h
    . simp at h
    . next hsmall =>
      split at h
      . simp at h
      . split at h
        . simp at h
        . next text htext =>
          split at h
          . simp at h
          . next header' hjson =>
            rw [pure_eq_ok_iff, Prod.mk.injEq] at h
            rw [← h.1, ← h.2]
            obtain ⟨json, hparse, hheader⟩ := Option.bind_eq_some_iff.1 hjson
            have hlength := Utf8.length_decodeFrom_le htext
            rw [List.length_take] at hlength
            refine ⟨?_, text.length, json, by omega, Json.within_of_parse? hparse, hheader⟩
            rw [List.length_drop, List.length_drop]
            omega

theorem shaped_of_decodeHeader {file data : List UInt8} {header : Header}
    (h : decodeHeader file = .ok (header, data))
    : ∀ e ∈ header.entries.entries, Shaped maxHeaderLength e.2.shape := by
  obtain ⟨_, room, json, hroom, hwithin, hjson⟩ := exists_json_of_decodeHeader h
  intro e he
  have hshaped := Header.shaped_of_ofJson? hwithin hjson e he
  exact ⟨Nat.le_trans hshaped.rank hroom, hshaped.dims⟩

namespace Header

theorem sized_of_endFrom {start stop : Nat} {l : List (String × Entry)}
    (h : endFrom start l = .ok stop) : ∀ e ∈ l, Sized e := by
  induction l generalizing start with
  | nil => simp
  | cons e l ih =>
    unfold endFrom at h
    split at h
    . simp at h
    . next hfollows =>
      split at h
      . simp at h
      . next n hsize =>
        split at h
        . next hlength =>
          rw [List.forall_mem_cons]
          exact ⟨⟨by omega, hlength ▸ hsize⟩, ih h⟩
        . simp at h

/--
Entries that follow each other have as many bytes as there are from their start to their end.
-/
theorem sum_of_endFrom {start stop : Nat} {l : List (String × Entry)}
    (h : endFrom start l = .ok stop)
    : start + (l.map (fun e => e.2.stop - e.2.start)).sum = stop := by
  induction l generalizing start with
  | nil =>
    unfold endFrom at h
    rw [Except.ok.injEq] at h
    simpa using h
  | cons e l ih =>
    unfold endFrom at h
    split at h
    . simp at h
    . next hfollows =>
      split at h
      . simp at h
      . split at h
        . have hrest := ih h
          rw [List.map_cons, List.sum_cons]
          omega
        . simp at h

end Header

/--
The product of the shape and the bits of an entry fit a machine word.
-/
theorem Sized.fits {e : String × Entry} (h : Sized e)
    : (Shape.productFrom? 1 e.2.shape).isSome ∧
        Shape.numel e.2.shape * e.2.type.bits < wordBound := by
  have hsize := h.2
  unfold Header.size at hsize
  cases hproduct : Shape.productFrom? 1 e.2.shape with
  | none =>
    rw [hproduct] at hsize
    simp at hsize
  | some n =>
    have hn := Shape.eq_of_productFrom? hproduct
    rw [Nat.one_mul] at hn
    refine ⟨rfl, ?_⟩
    rw [hproduct, Option.bind_some, hn] at hsize
    unfold Shape.productFrom? at hsize
    split at hsize
    . next hnone =>
      split at hnone
      . simp [Shape.productFrom?] at hnone
      . next hlarge => simp at hsize
    . next bits hsome =>
      split at hsome
      . next hlt => exact hlt
      . simp at hsome

/--
What is loaded from a file that covers its entries.
-/
theorem exists_loaded_of_decode {file : List UInt8} {archive : Archive}
    (h : decode file = .ok archive)
    : ∃ header data, decodeHeader file = .ok (header, data) ∧
        Header.endFrom 0 header.layout = .ok data.length ∧
        ∃ loaded, List.Forall₂ (fun entry e => loadEntry data entry = .ok e) header.layout loaded ∧
          archive.tensors.entries.Perm loaded := by
  obtain ⟨header, data, loaded, hheader, hend, hloaded, rfl⟩ := decode_eq_ok_iff.1 h
  rw [mapM_eq_ok_iff] at hloaded
  refine ⟨header, data, hheader, hend, loaded, hloaded, ?_⟩
  apply Table.entries_ofList_perm
  have hnames : loaded.map (·.1) = header.layout.map (·.1) := by
    rw [← List.forall₂_eq_eq_eq, List.forall₂_map_left_iff, List.forall₂_map_right_iff]
    exact hloaded.flip.imp (fun _ _ hentry => (loadEntry_eq_ok_iff.1 hentry).1)
  rw [hnames, (header.layout_perm.map (·.1)).nodup_iff]
  exact header.entries.keys_nodup

/--
The shapes of the tensors that are decoded.
-/
theorem fits_of_decode {file : List UInt8} {archive : Archive} (h : decode file = .ok archive)
    : ∀ e ∈ archive.tensors.entries, e.2.rank ≤ maxHeaderLength ∧ Shape.Fits e.2.shape := by
  obtain ⟨header, data, hheader, hend, loaded, hloaded, hperm⟩ := exists_loaded_of_decode h
  intro e he
  obtain ⟨entry, hentry, hload⟩ := exists_left_of_forall₂ hloaded (hperm.mem_iff.1 he)
  obtain ⟨_, _, hshape, _⟩ := loadEntry_eq_ok_iff.1 hload
  have hsized := Header.sized_of_endFrom hend entry hentry
  have hshaped := shaped_of_decodeHeader hheader entry (header.layout_perm.mem_iff.1 hentry)
  unfold Tensor.rank
  rw [hshape]
  exact ⟨hshaped.rank, hshaped.dims, hsized.fits.1⟩

/--
How many tensors come out of a file, and how many bytes.
-/
theorem sizes_of_decode {file : List UInt8} {archive : Archive} (h : decode file = .ok archive)
    : archive.tensors.entries.length ≤ maxHeaderLength ∧
        (archive.tensors.entries.map (fun e => e.2.data.length)).sum ≤ file.length ∧
        ∀ e ∈ archive.tensors.entries, e.2.data.length * 8 < wordBound := by
  obtain ⟨header, data, hheader, hend, loaded, hloaded, hperm⟩ := exists_loaded_of_decode h
  obtain ⟨hdata, room, json, hroom, hwithin, hjson⟩ := exists_json_of_decodeHeader hheader
  refine ⟨?_, ?_, ?_⟩
  . rw [hperm.length_eq, ← hloaded.length_eq, header.layout_perm.length_eq]
    exact Nat.le_trans (Header.length_le_of_ofJson? hwithin hjson) hroom
  . have hsum := Header.sum_of_endFrom hend
    have hle : (loaded.map (fun e => e.2.data.length)).sum
        ≤ (header.layout.map (fun e => e.2.stop - e.2.start)).sum := by
      apply List.Forall₂.sum_le_sum
      rw [List.forall₂_map_left_iff, List.forall₂_map_right_iff]
      refine hloaded.flip.imp ?_
      intro e entry hload
      obtain ⟨_, _, _, hbytes⟩ := loadEntry_eq_ok_iff.1 hload
      rw [hbytes]
      exact List.length_take_le _ _
    rw [(hperm.map (fun e => e.2.data.length)).sum_nat]
    omega
  . intro e he
    obtain ⟨entry, hentry, hload⟩ := exists_left_of_forall₂ hloaded (hperm.mem_iff.1 he)
    obtain ⟨_, hdtype, hshape, _⟩ := loadEntry_eq_ok_iff.1 hload
    obtain ⟨_, hbits⟩ := (Header.sized_of_endFrom hend entry hentry).fits
    rw [ElementType.bits_of_dtype? hdtype, ← hshape] at hbits
    rw [e.2.length_data, Nat.mul_assoc, Nat.mul_comm e.2.dtype.size]
    exact hbits

theorem dtype_ne_c64_of_decode {file : List UInt8} {archive : Archive}
    (h : decode file = .ok archive) : ∀ e ∈ archive.tensors.entries, e.2.dtype ≠ .c64 := by
  obtain ⟨header, data, _, _, loaded, hloaded, hperm⟩ := exists_loaded_of_decode h
  intro e he
  obtain ⟨entry, _, hload⟩ := exists_left_of_forall₂ hloaded (hperm.mem_iff.1 he)
  obtain ⟨_, hdtype, _⟩ := loadEntry_eq_ok_iff.1 hload
  intro hc64
  rw [hc64] at hdtype
  exact entry.2.type.dtype?_ne_c64 hdtype

theorem metadataKey_not_mem_of_decode {file : List UInt8} {archive : Archive}
    (h : decode file = .ok archive) : metadataKey ∉ archive.tensors.keys := by
  obtain ⟨header, data, hheader, _, loaded, hloaded, hperm⟩ := exists_loaded_of_decode h
  obtain ⟨_, room, json, _, hwithin, hjson⟩ := exists_json_of_decodeHeader hheader
  intro hmem
  obtain ⟨e, he, hname⟩ := List.mem_map.1 hmem
  obtain ⟨entry, hentry, hload⟩ := exists_left_of_forall₂ hloaded (hperm.mem_iff.1 he)
  obtain ⟨hentryName, _⟩ := loadEntry_eq_ok_iff.1 hload
  exact Header.ne_metadataKey_of_ofJson? hwithin hjson entry (header.layout_perm.mem_iff.1 hentry)
    (hentryName.symm.trans hname)

theorem length_place (start : Nat) (tensors : List Prepared)
    : (place start tensors).length = tensors.length := by
  have hnames : ((place start tensors).map (·.1)).length = (tensors.map (·.name)).length :=
    congrArg List.length names_place
  rw [List.length_map, List.length_map] at hnames
  exact hnames

/--
The header has room for every entry.
-/
theorem length_le_encodeHeader (metadata : Table String) (entries : List (String × Entry))
    : entries.length ≤ (encodeHeader (Header.toJson metadata entries)).length := by
  unfold encodeHeader Header.toJson
  dsimp only
  rw [List.length_append]
  refine Nat.le_trans ?_ (Nat.le_add_right _ _)
  refine Nat.le_trans ?_ (Utf8.length_le_encodeChars _)
  refine Nat.le_trans ?_ (Json.length_le_print_object _)
  rw [List.length_append, List.length_map]
  exact Nat.le_add_left _ _

/--
How many tensors an archive has, and how many bytes.
-/
theorem sizes_of_encode {tensors : Table Tensor} {metadata : Table String} {file : List UInt8}
    (h : encode (tensors.map (fun _ t => t.toView)) metadata = .ok file)
    : tensors.entries.length ≤ maxHeaderLength ∧
        (tensors.entries.map (fun e => e.2.data.length)).sum ≤ file.length := by
  obtain ⟨prepared, hprepares, _, hheader, rfl⟩ := exists_prepared_of_encode h
  constructor
  . rw [hprepares.length_eq, ← (arrange_perm prepared).length_eq, ← length_place 0]
    exact Nat.le_trans (length_le_encodeHeader metadata _) hheader
  . rw [← (arranges_arrange hprepares).totalLength_eq]
    exact totalLength_le_image metadata _

end TensorFiles.SafeTensors
