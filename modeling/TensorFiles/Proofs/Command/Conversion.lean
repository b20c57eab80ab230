import TensorFiles.Proofs.Command.Loaded
import TensorFiles.Proofs.Disk
import TensorFiles.Proofs.Gguf.SaveLoad
import TensorFiles.Proofs.Npy.Readable
/-!
This module contains what conversions keep. What a content is saved as is loaded again: the tensors
as they were, and the metadata as far as the format can hold it.
-/

namespace TensorFiles.Command

/--
The views of tensors that are saved.
-/
def views (tensors : Table Tensor) : Table View :=
  tensors.map (fun _ t => t.toView)

/--
What a content is loaded as when it has been saved in some format. A format without names or metadata
does not keep these.
-/
def stored (format : FileFormat) (output : String) (content : Gguf.Content) (s : Settings)
    : Gguf.Content :=
  match format with
  | .npy =>
    ⟨.ofList (content.tensors.entries.map (fun e => (tensorName output, e.2))), .empty⟩
  | .safeTensors => ⟨content.tensors, content.metadata.map (fun _ v => .string v.text)⟩
  | .gguf => ⟨content.tensors, Gguf.loadedMetadata content.metadata s.codec⟩

/--
What lets a content be loaded again from a file of some format: sizes that fit a machine word on the
way to them, no tensor with the name of the table of strings, or strings that are not too long for the
reader.
-/
def Storable (format : FileFormat) (content : Gguf.Content) (s reader : Settings) : Prop :=
  match format with
  | .npy =>
    ∀ e ∈ content.tensors.entries, ∀ front, front <+: e.2.shape →
      e.2.dtype.size * Shape.numel front < wordBound
  | .safeTensors => SafeTensors.metadataKey ∉ content.tensors.keys
  | .gguf =>
    ∀ text ∈ Gguf.writtenTexts (views content.tensors) content.metadata s.codec,
      text.utf8ByteSize ≤ reader.codec.maxStringLen

variable {d d' : Disk} {input output written : String} {s reader : Settings}
  {content : Gguf.Content}

theorem onlyTensor_eq_ok_iff {tensors : Table Tensor} {t : Tensor}
    : onlyTensor input tensors = .ok t ↔ ∃ name, tensors.entries = [(name, t)] := by
  unfold onlyTensor
  split
  . next name t' hentries => simp [hentries]
  . next entries hne =>
    simp only [reduceCtorEq, false_iff, not_exists]
    intro name hentries
    exact hne name t hentries

/--
Saving a content in some format leaves the disk `d'`.
-/
def Saves (format : FileFormat) (d : Disk) (output : String) (content : Gguf.Content) (s : Settings)
    (written : String) (d' : Disk) : Prop :=
  match format with
  | .npy => ∃ name t, content.tensors.entries = [(name, t)] ∧
      Npy.save d output t.toView = (.ok written, d')
  | .safeTensors =>
    SafeTensors.save d output (views content.tensors) (content.metadata.map (fun _ v => v.text))
      = (.ok written, d')
  | .gguf =>
    Gguf.save d output (views content.tensors) content.metadata s.codec = (.ok written, d')

theorem lift_eq_ok_iff {r : Except Error String × Disk}
    : (Failure.lift r.1, r.2) = (.ok written, d') ↔ r = (.ok written, d') := by
  rw [Prod.mk.injEq, Failure.lift_eq_ok_iff, Prod.ext_iff]

theorem saveAs_eq_ok_iff {format : FileFormat}
    : saveAs format d input output content s = (.ok written, d') ↔
        Saves format d output content s written d' := by
  cases format with
  | npy =>
    unfold saveAs Saves
    cases hone : onlyTensor input content.tensors with
    | error f =>
      have hnot (name : String) (t : Tensor) : content.tensors.entries ≠ [(name, t)] := by
        intro hentries
        rw [onlyTensor_eq_ok_iff.2 ⟨name, hentries⟩] at hone
        simp at hone
      simp [hnot]
    | ok t =>
      obtain ⟨name, hentries⟩ := onlyTensor_eq_ok_iff.1 hone
      refine (lift_eq_ok_iff (r := Npy.save d output t.toView)).trans ?_
      simp [hentries]
  | safeTensors => exact lift_eq_ok_iff
  | gguf => exact lift_eq_ok_iff

namespace Saves

variable {format : FileFormat}

theorem eq_output (h : Saves format d output content s written d')
    (hformat : formatOf output = .ok format) : written = output := by
  have hnormalize := normalize_of_formatOf hformat
  cases format with
  | npy =>
    obtain ⟨_, _, _, h⟩ := h
    exact (Npy.save_eq_ok_iff.1 h).1.symm.trans hnormalize
  | safeTensors => exact (SafeTensors.save_eq_ok_iff.1 h).1.symm.trans hnormalize
  | gguf => exact (Gguf.eq_normalize_of_save h).trans hnormalize

/--
A content that has been saved is loaded as what its format keeps of it.
-/
theorem loadAny_eq (h : Saves format d output content s written d')
    (hformat : formatOf output = .ok format) (hfits : Gguf.fileFits d' output = true)
    (hshapes : ∀ e ∈ content.tensors.entries, Shape.Fits e.2.shape)
    (hheaders : format = .npy → ∀ e ∈ content.tensors.entries,
      (Npy.longHeader e.2).length < halfWordBound)
    (hstorable : Storable format content s reader)
    : loadAny d' output reader = .ok (stored format output content s) := by
  have hwritten := h.eq_output hformat
  subst hwritten
  refine loadAny_eq_ok_iff.2 ⟨format, hformat, ?_⟩
  cases format with
  | npy =>
    obtain ⟨name, t, hentries, h⟩ := h
    obtain ⟨hpath, _, stream, hencode, hwrite⟩ := Npy.save_eq_ok_iff.1 h
    rw [hpath] at hwrite
    obtain ⟨id, hfind⟩ := Disk.find_write hwrite
    have hmem : (name, t) ∈ content.tensors.entries := hentries ▸ List.mem_cons_self
    have hdecode := Npy.decode_of_encode hencode (hshapes (name, t) hmem).dims
      (hstorable (name, t) hmem) (hheaders rfl (name, t) hmem) []
    rw [List.append_nil] at hdecode
    refine ⟨t, Npy.load_eq_ok_iff.2 ⟨id, stream, hfind, hdecode⟩, ?_⟩
    unfold stored
    rw [hentries]
    rfl
  | safeTensors =>
    obtain ⟨hpath, file, hencode, hwrite⟩ := SafeTensors.save_eq_ok_iff.1 h
    rw [hpath] at hwrite
    obtain ⟨id, hfind⟩ := Disk.find_write hwrite
    have hfile : file.length < wordBound :=
      Nat.lt_trans ((Gguf.fileFits_iff_of_find hfind).1 hfits) (by decide)
    have htotal := Nat.lt_of_le_of_lt (SafeTensors.sizes_of_encode hencode).2 hfile
    have hdecode := SafeTensors.decode_of_encode hencode htotal hstorable hshapes
    refine ⟨_, SafeTensors.load_eq_ok_iff.2 ⟨id, file, hfind, hdecode⟩, ?_⟩
    unfold stored
    dsimp only
    rw [Table.map_map]
  | gguf => exact Gguf.load_of_saveTensors h hfits hshapes hstorable

end Saves

theorem convert_eq {format : FileFormat} (hformat : formatOf output = .ok format)
    (hload : loadAny d input s = .ok content)
    : convert d input output s = saveAs format d input output content s := by
  have hduring := (Failure.during_eq_ok_iff s!"failed to read {input}").2 hload
  unfold convert
  rw [hformat, hduring]
  rfl

theorem exists_of_convert (h : convert d input output s = (.ok written, d'))
    : ∃ format content, formatOf output = .ok format ∧ loadAny d input s = .ok content ∧
        Saves format d output content s written d' := by
  cases hformat : formatOf output with
  | error failure =>
    unfold convert at h
    rw [hformat] at h
    simp [bind, Except.bind] at h
  | ok format =>
    cases hload : loadAny d input s with
    | error failure =>
      unfold convert at h
      rw [hformat, hload] at h
      simp [bind, Except.bind, Failure.during, Except.mapError] at h
    | ok content =>
      rw [convert_eq hformat hload, saveAs_eq_ok_iff] at h
      exact ⟨format, content, rfl, rfl, h⟩

/--
The tensors after a conversion are those before it. The only tensor of an `.npy` file is called after
the file.
-/
def SameTensors (format : FileFormat) (output : String) (before after : Table Tensor) : Prop :=
  match format with
  | .npy => ∃ name t, before.entries = [(name, t)] ∧ after.entries = [(tensorName output, t)]
  | .safeTensors | .gguf => after = before

/--
Conversions keep tensors. The file that is written is the one that was asked for, and the tensors that
are loaded from it are those that were loaded from the input. Of all files only `.npy` streams have
room for so many dimensions that the length of the header to write would not fit its field.
-/
theorem loadAny_of_convert (h : convert d input output s = (.ok written, d'))
    : written = output ∧ ∃ format before,
        formatOf output = .ok format ∧ loadAny d input s = .ok before ∧
          (Gguf.fileFits d' output = true → Storable format before s s →
            (formatOf input = .ok .npy → format = .npy → ∀ e ∈ before.tensors.entries,
              (Npy.longHeader e.2).length < halfWordBound) →
            ∃ after, loadAny d' output s = .ok after ∧
              SameTensors format output before.tensors after.tensors) := by
  obtain ⟨format, before, hformat, hload, hsave⟩ := exists_of_convert h
  refine ⟨hsave.eq_output hformat, format, before, hformat, hload, ?_⟩
  intro hfits hstorable hstream
  have hshapes := fits_of_loadAny hload
  have hheaders : format = .npy → ∀ e ∈ before.tensors.entries,
      (Npy.longHeader e.2).length < halfWordBound := by
    intro hnpy e he
    by_cases hinput : formatOf input = .ok .npy
    . exact hstream hinput hnpy e he
    . have hlength := Npy.length_longHeader_le (hshapes e he).dims
      have hrank := rank_of_loadAny hload hinput e he
      unfold SafeTensors.maxHeaderLength at hrank
      unfold halfWordBound
      omega
  refine ⟨_, hsave.loadAny_eq hformat hfits hshapes hheaders hstorable, ?_⟩
  cases format with
  | npy =>
    obtain ⟨name, t, hentries, _⟩ := hsave
    refine ⟨name, t, hentries, ?_⟩
    unfold stored
    rw [hentries]
    rfl
  | safeTensors => rfl
  | gguf => rfl

/--
A disk with a file of a single tensor and a number.
-/
def singleDisk : Disk :=
  (Gguf.save .empty "m.gguf" (views (.ofList [("t", Tensor.zeros .f16 [2, 1])])) Gguf.oneNumber
    {}).2

theorem loadAny_of_convert_singleDisk
    : (convert singleDisk "m.gguf" "o.npy" {}).1 = .ok "o.npy" ∧
        ∃ before after, loadAny singleDisk "m.gguf" {} = .ok before ∧
          loadAny (convert singleDisk "m.gguf" "o.npy" {}).2 "o.npy" {} = .ok after ∧
          before.tensors.entries = [("t", Tensor.zeros .f16 [2, 1])] ∧
          SameTensors .npy "o.npy" before.tensors after.tensors := by
  have hconverted : (convert singleDisk "m.gguf" "o.npy" {}).1 = .ok "o.npy" := by
    decide +kernel
  have hnpy : formatOf "o.npy" = .ok .npy := by
    decide +kernel
  have hgguf : formatOf "m.gguf" ≠ .ok .npy := by
    decide +kernel
  have hloaded : (loadAny singleDisk "m.gguf" {}).map (·.tensors.entries)
      = .ok [("t", Tensor.zeros .f16 [2, 1])] := by
    decide +kernel
  have hsizes : ∀ front ∈ [2, 1].inits, 2 * Shape.numel front < wordBound := by
    decide
  obtain ⟨_, format, before, hformat, hload, hkept⟩ :=
    loadAny_of_convert (Prod.fst_eq_iff.1 hconverted)
  rw [hnpy, Except.ok.injEq] at hformat
  subst hformat
  rw [hload, map_eq_ok_iff] at hloaded
  obtain ⟨_, hbefore, hentries⟩ := hloaded
  rw [Except.ok.injEq] at hbefore
  subst hbefore
  have hstorable : Storable .npy before {} {} := by
    unfold Storable
    dsimp only
    rw [hentries, List.forall_mem_singleton]
    intro front hfront
    exact hsizes front ((List.mem_inits front [2, 1]).2 hfront)
  obtain ⟨after, hafter, hsame⟩ :=
    hkept (by decide +kernel) hstorable (fun h _ => absurd h hgguf)
  exact ⟨hconverted, before, after, hload, hafter, hentries, hsame⟩

/--
Nothing can be loaded from an `.npy` stream whose header is too long for its length field.
-/
theorem loadAny_ne_ok_of_longHeader (h : convert d input output s = (.ok written, d'))
    (hformat : formatOf output = .ok .npy) (hload : loadAny d input s = .ok content)
    (hlong : ∃ e ∈ content.tensors.entries, halfWordBound ≤ (Npy.longHeader e.2).length)
    (after : Gguf.Content) : loadAny d' output reader ≠ .ok after := by
  obtain ⟨format, before, hformat', hload', hsave⟩ := exists_of_convert h
  rw [hformat, Except.ok.injEq] at hformat'
  rw [hload, Except.ok.injEq] at hload'
  subst hformat' hload'
  have hwritten := hsave.eq_output hformat
  subst hwritten
  obtain ⟨name, t, hentries, hsaved⟩ := hsave
  obtain ⟨hpath, _, stream, hencode, hwrite⟩ := Npy.save_eq_ok_iff.1 hsaved
  rw [hpath] at hwrite
  obtain ⟨id, hfind⟩ := Disk.find_write hwrite
  rw [hentries] at hlong
  obtain ⟨e, he, hlong⟩ := hlong
  rw [List.mem_singleton.1 he] at hlong
  intro hafter
  obtain ⟨format, hformat', hloads⟩ := loadAny_eq_ok_iff.1 hafter
  rw [hformat, Except.ok.injEq] at hformat'
  subst hformat'
  obtain ⟨t', hloaded, _⟩ := hloads
  obtain ⟨_, _, hfind', hdecode⟩ := Npy.load_eq_ok_iff.1 hloaded
  rw [hfind, Except.ok.injEq, Disk.Node.file.injEq] at hfind'
  rw [← hfind'.2] at hdecode
  exact Npy.decode_ne_ok_of_long hencode hlong t' hdecode

/--
A disk with an `.npy` file of one byte in `rank` dimensions.
-/
def flatDisk (rank : Nat) : Disk := ⟨[(["m.npy"], .file 0 (Npy.compactStream rank))], 1⟩

def flatContent (rank : Nat) : Gguf.Content :=
  ⟨Table.empty.insert "m" (Npy.flat rank), .empty⟩

theorem loadAny_flatDisk {rank : Nat} (hrank : rank * 2 + 48 < halfWordBound)
    : loadAny (flatDisk rank) "m.npy" {} = .ok (flatContent rank) := by
  have hname : tensorName "m.npy" = "m" := by decide +kernel
  have hload : Npy.load (flatDisk rank) "m.npy" = .ok (Npy.flat rank) :=
    Npy.load_eq_ok_iff.2 ⟨0, _, rfl, Npy.decode_compactStream hrank⟩
  refine loadAny_eq_ok_iff.2 ⟨.npy, by decide +kernel, _, hload, ?_⟩
  rw [hname]
  rfl

theorem storable_flatContent (rank : Nat) : Storable .npy (flatContent rank) {} {} := by
  have hentries : (flatContent rank).tensors.entries = [("m", Npy.flat rank)] := rfl
  unfold Storable
  dsimp only
  rw [hentries, List.forall_mem_singleton]
  intro front hfront
  obtain ⟨_, hfront⟩ := List.prefix_replicate_iff.1 hfront
  have hsize : DType.u8.size * 1 < wordBound := by decide
  rw [hfront, Shape.numel_replicate_one]
  exact hsize

theorem exists_write_flatDisk (rank : Nat) (data : List UInt8)
    : ∃ d', (flatDisk rank).write "o.npy" data = .ok d' :=
  ⟨_, rfl⟩

theorem exists_encode_flat {rank : Nat} (hrank : rank * 2 + 48 < halfWordBound)
    : ∃ stream, Npy.encode (Npy.flat rank).toView = .ok stream ∧ stream.length < Gguf.fileBound := by
  have hdescr : Npy.descr? (Npy.flat rank).dtype = some "|u1" := rfl
  have hcode : (Npy.descr? .u8).getD "" = "|u1" := rfl
  refine ⟨_, Npy.encode_toView hdescr, ?_⟩
  have hdims : ∀ n ∈ (Npy.flat rank).shape, n < wordBound := by
    intro n hn
    rw [List.eq_of_mem_replicate hn]
    decide
  have hlength : (Npy.flat rank).shape.length = rank := List.length_replicate
  have hdata : (Npy.flat rank).data.length = 1 := rfl
  have hdictionary := Npy.Header.length_dictionary_le .u8 hdims
  have hascii := Utf8.length_encodeChars (Npy.Header.isAscii_dictionary .u8 (Npy.flat rank).shape)
  rw [hcode] at hdictionary hascii
  have hpreamble := Npy.Opening.length_preamble_le
    (Utf8.encode (Npy.Header.dictionary "|u1" (Npy.flat rank).shape))
  unfold Utf8.encode at hpreamble
  rw [List.length_append, hdata]
  unfold halfWordBound at hrank
  unfold Gguf.fileBound Utf8.encode
  omega

/--
The tensor is written, though its header does not fit the length field.
-/
theorem exists_convert_flatDisk {rank : Nat} (hrank : rank * 2 + 48 < halfWordBound)
    : ∃ d', convert (flatDisk rank) "m.npy" "o.npy" {} = (.ok "o.npy", d') ∧
        Gguf.fileFits d' "o.npy" = true := by
  have hnpy : formatOf "o.npy" = .ok .npy := by decide +kernel
  have hnormalize := normalize_of_formatOf hnpy
  have hproduct : Shape.product (Npy.flat rank).toView.shape = .ok 1 :=
    Shape.product_eq_ok_iff.2 ⟨(Npy.flat rank).small, (Shape.numel_replicate_one rank).symm⟩
  have hreserve : Npy.reserve (Npy.flat rank).toView = .ok () := by
    unfold Npy.reserve
    rw [hproduct]
    rfl
  obtain ⟨stream, hencode, hlength⟩ := exists_encode_flat hrank
  obtain ⟨d', hwrite⟩ := exists_write_flatDisk rank stream
  refine ⟨d', ?_, ?_⟩
  . rw [convert_eq hnpy (loadAny_flatDisk hrank), saveAs_eq_ok_iff]
    refine ⟨"m", Npy.flat rank, rfl, Npy.save_eq_ok_iff.2 ⟨hnormalize, hreserve, stream, hencode, ?_⟩⟩
    rw [hnormalize]
    exact hwrite
  . obtain ⟨id, hfind⟩ := Disk.find_write hwrite
    rw [Gguf.fileFits_iff_of_find hfind]
    exact hlength

/--
A disk with a `.safetensors` file of a tensor with a short name.
-/
def namedDisk : Disk :=
  (SafeTensors.save .empty "m.safetensors" (views (.ofList [("t", Tensor.zeros .f16 [1])])) .empty).2

/--
Settings that declare an alignment, and read strings of four bytes only.
-/
def narrow : Settings := { codec := { alignment := 64, maxStringLen := 4 } }

/--
What is asked of the content is not enough. An alignment is written under a key that the content does
not have, and that may be too long for the reader; and a header may be too long though no size is.
-/
theorem not_loadAny_of_convert
    : (∃ content, loadAny namedDisk "m.safetensors" narrow = .ok content ∧
        narrow.codec.validate = .ok () ∧ content.metadata = .empty ∧
        (∀ name ∈ content.tensors.keys, name.utf8ByteSize ≤ narrow.codec.maxStringLen) ∧
        (convert namedDisk "m.safetensors" "o.gguf" narrow).1 = .ok "o.gguf" ∧
        loadAny (convert namedDisk "m.safetensors" "o.gguf" narrow).2 "o.gguf" narrow
          = .error (.ofError (.gguf (.stringTooLong 17 4 24)))) ∧
      ∃ content d', loadAny (flatDisk 1500000000) "m.npy" {} = .ok content ∧
        Storable .npy content {} {} ∧
        convert (flatDisk 1500000000) "m.npy" "o.npy" {} = (.ok "o.npy", d') ∧
        Gguf.fileFits d' "o.npy" = true ∧ ∀ after, loadAny d' "o.npy" {} ≠ .ok after := by
  constructor
  . refine ⟨⟨.ofList [("t", Tensor.zeros .f16 [1])], .empty⟩, ?_, ?_, rfl, ?_, ?_, ?_⟩
    . decide +kernel
    . decide +kernel
    . decide +kernel
    . decide +kernel
    . decide +kernel
  . have hrank : 1500000000 * 2 + 48 < halfWordBound := by decide
    have hrow : (Npy.flat 1500000000).rank = 1500000000 := List.length_replicate
    have hle := Npy.le_length_longHeader (Npy.flat 1500000000)
    have hlong : halfWordBound ≤ (Npy.longHeader (Npy.flat 1500000000)).length := by
      rw [hrow] at hle
      unfold halfWordBound
      omega
    have hload := loadAny_flatDisk hrank
    obtain ⟨d', hconvert, hfits⟩ := exists_convert_flatDisk hrank
    exact ⟨_, d', hload, storable_flatContent _, hconvert, hfits, loadAny_ne_ok_of_longHeader hconvert
      (by decide +kernel) hload ⟨_, List.mem_singleton_self _, hlong⟩⟩

end TensorFiles.Command
