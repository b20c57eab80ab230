import TensorFiles.Proofs.Command.Conversion
import TensorFiles.Proofs.Gguf.Savable
/-!
This module contains the way of a GGUF file through a `.safetensors` file and back. The tensors are
kept, and every metadata value becomes its text. A file that declares its alignment does not come
back, since the alignment must not be a text.
-/

namespace TensorFiles

namespace Gguf

theorem dataBound_map_toView (tensors : Table Tensor)
    : dataBound (tensors.map (fun _ t => t.toView)).entries
        = (tensors.entries.map (fun e => e.2.data.length)).sum
          + tensors.entries.length * halfWordBound := by
  have hviews : (tensors.map (fun _ t => t.toView)).entries
      = tensors.entries.map (fun e => (e.1, e.2.toView)) := rfl
  have hnbytes (t : Tensor) : t.toView.nbytes = t.data.length := t.length_data.symm
  unfold dataBound
  rw [hviews, List.map_map]
  simp only [Function.comp_def, hnbytes, List.sum_map_add, List.map_const', List.sum_replicate,
    smul_eq_mul]

theorem placeable_toView {t : Tensor} (h : t.dtype ∈ tensorTypes) : Placeable t.toView :=
  ⟨h, rfl, .inl ⟨t.data, rfl, t.length_data⟩⟩

/--
An alignment that is a text is refused before anything is written.
-/
theorem save_of_string_alignment {d : Disk} {path text : String} {tensors : Table View}
    {metadata : Table MetaValue} {config : CodecConfig} (hvalid : config.validate = .ok ())
    (h : metadata.find? alignmentKey = some (.string text))
    : save d path tensors metadata config = (.error (.gguf .alignmentNotU32), d) := by
  have hplan : plan tensors metadata config = .error (.gguf .alignmentNotU32) := by
    unfold plan chooseAlignment
    rw [hvalid, h]
    rfl
  rw [save_eq, hplan]

end Gguf

namespace Command

variable {d d' : Disk} {input middle output written : String} {s : Settings}
  {content : Gguf.Content}

/--
The metadata values as texts.
-/
def texts (metadata : Table Gguf.MetaValue) : Table Gguf.MetaValue :=
  metadata.map (fun _ v => .string v.text)

/--
Strings as metadata values.
-/
def strings (table : Table String) : Table Gguf.MetaValue :=
  table.map (fun _ text => .string text)

theorem texts_eq (metadata : Table Gguf.MetaValue)
    : texts metadata = strings (metadata.map (fun _ v => v.text)) :=
  (Table.map_map _ _ metadata).symm

/--
Tensors that fit a `.safetensors` file fit the data section of a GGUF file: there are not enough of
them for the padding between them to matter.
-/
theorem dataBound_lt {tensors : Table Tensor}
    (hcount : tensors.entries.length ≤ SafeTensors.maxHeaderLength)
    (hbytes : (tensors.entries.map (fun e => e.2.data.length)).sum < Gguf.fileBound)
    : Gguf.dataBound (views tensors).entries < wordBound := by
  have hpadding := Nat.mul_le_mul_right halfWordBound hcount
  unfold views
  rw [Gguf.dataBound_map_toView]
  unfold Gguf.fileBound at hbytes
  unfold SafeTensors.maxHeaderLength halfWordBound at hpadding
  unfold wordBound halfWordBound
  omega

theorem small_of_mem_views (tensors : Table Tensor)
    : ∀ e ∈ (views tensors).entries, Shape.Small e.2.shape :=
  List.forall_mem_map.2 fun e _ => e.2.small

theorem Saves.dataBound_lt (h : Saves .safeTensors d output content s written d')
    (hfits : Gguf.fileFits d' written = true)
    : Gguf.dataBound (views content.tensors).entries < wordBound := by
  obtain ⟨hpath, file, hencode, hwrite⟩ := SafeTensors.save_eq_ok_iff.1 h
  rw [hpath] at hwrite
  obtain ⟨id, hfind⟩ := Disk.find_write hwrite
  have hfile := (Gguf.fileFits_iff_of_find hfind).1 hfits
  obtain ⟨hcount, hbytes⟩ := SafeTensors.sizes_of_encode hencode
  exact Command.dataBound_lt hcount (Nat.lt_of_le_of_lt hbytes hfile)

theorem savable_strings {tensors : Table Tensor} {table : Table String} {config : CodecConfig}
    (hvalid : config.validate = .ok ())
    (hdtypes : ∀ e ∈ tensors.entries, e.2.dtype ∈ Gguf.tensorTypes)
    (hranks : ∀ e ∈ tensors.entries, e.2.rank ≤ Gguf.maxRank)
    (hkey : Gguf.alignmentKey ∉ table.keys)
    : Gguf.Savable (views tensors) (strings table) config := by
  refine ⟨hvalid, ?_, ?_, ?_, ?_⟩
  . intro v hv
    have hmem : Gguf.alignmentKey ∈ (strings table).keys := Table.mem_keys_iff.2 ⟨v, hv⟩
    unfold strings at hmem
    rw [Table.keys_map] at hmem
    exact absurd hmem hkey
  . exact List.forall_mem_map.2 fun _ _ => trivial
  . exact List.forall_mem_map.2 fun e he => Gguf.placeable_toView (hdtypes e he)
  . exact List.forall_mem_map.2 hranks

theorem savable_texts (hinput : formatOf input = .ok .gguf)
    (hload : loadAny d input s = .ok content) (hvalid : s.codec.validate = .ok ())
    (hdtypes : ∀ e ∈ content.tensors.entries, e.2.dtype ∈ Gguf.tensorTypes)
    (hkey : Gguf.alignmentKey ∉ content.metadata.keys)
    : Gguf.Savable (views content.tensors) (texts content.metadata) s.codec := by
  obtain ⟨format, hformat, hloads⟩ := loadAny_eq_ok_iff.1 hload
  rw [hinput, Except.ok.injEq] at hformat
  subst hformat
  have hkeys : Gguf.alignmentKey ∉ (content.metadata.map (fun _ v => v.text)).keys := by
    rw [Table.keys_map]
    exact hkey
  rw [texts_eq]
  exact savable_strings hvalid hdtypes (fun e he => (Gguf.fits_of_load hloads e he).1) hkeys

/--
Metadata values come back as their texts.
-/
theorem find?_stored_texts {key : String} {v : Gguf.MetaValue}
    (hkey : Gguf.alignmentKey ∉ content.metadata.keys) (hv : content.metadata.find? key = some v)
    : (Gguf.loadedMetadata (texts content.metadata) s.codec).find? key = some (.string v.text) := by
  have hne : key ≠ Gguf.alignmentKey := by
    rintro rfl
    exact hkey (Table.mem_keys_iff.2 ⟨v, hv⟩)
  unfold texts
  rw [Gguf.find?_loadedMetadata _ _ hne, Table.find?_map, hv]
  rfl

/--
A GGUF file that has become a `.safetensors` file is converted back exactly if it does not declare its
alignment. The file that comes back has the same tensors, and the texts of the metadata values.
-/
theorem convert_back (hinput : formatOf input = .ok .gguf)
    (hmiddle : formatOf middle = .ok .safeTensors) (houtput : formatOf output = .ok .gguf)
    (h : convert d input middle s = (.ok written, d')) (hload : loadAny d input s = .ok content)
    (hfits : Gguf.fileFits d' middle = true) (hvalid : s.codec.validate = .ok ())
    (hdtypes : ∀ e ∈ content.tensors.entries, e.2.dtype ∈ Gguf.tensorTypes)
    (hnames : SafeTensors.metadataKey ∉ content.tensors.keys)
    (hpath : ∃ made, d'.create output = .ok made)
    : (Gguf.alignmentKey ∉ content.metadata.keys →
        (convert d' middle output s).1 = .ok output ∧
          ∀ reader : Settings, Gguf.fileFits (convert d' middle output s).2 output = true →
            (∀ text ∈ Gguf.writtenTexts (views content.tensors) (texts content.metadata) s.codec,
              text.utf8ByteSize ≤ reader.codec.maxStringLen) →
            ∃ back, loadAny (convert d' middle output s).2 output reader = .ok back ∧
              back.tensors = content.tensors ∧
              ∀ key v, content.metadata.find? key = some v →
                back.metadata.find? key = some (.string v.text)) ∧
      (Gguf.alignmentKey ∈ content.metadata.keys →
        convert d' middle output s = (.error (.ofError (.gguf .alignmentNotU32)), d')) := by
  obtain ⟨format, content', hformat, hload', hsave⟩ := exists_of_convert h
  rw [hmiddle, Except.ok.injEq] at hformat
  rw [hload, Except.ok.injEq] at hload'
  subst hformat hload'
  have hshapes := fits_of_loadAny hload
  have hwritten := hsave.eq_output hmiddle
  subst hwritten
  have hreloaded : loadAny d' written s = .ok ⟨content.tensors, texts content.metadata⟩ :=
    hsave.loadAny_eq hmiddle hfits hshapes (by simp) hnames
  have hconvert := convert_eq houtput hreloaded
  rw [hconvert]
  constructor
  . intro hkey
    have hsavable := savable_texts hinput hload hvalid hdtypes hkey
    have hnormalize := normalize_of_formatOf houtput
    rw [← hnormalize] at hpath
    have hsaved := hsavable.save_fst (small_of_mem_views _) (hsave.dataBound_lt hfits) hpath
    rw [hnormalize] at hsaved
    refine ⟨Failure.lift_eq_ok_iff.2 hsaved, ?_⟩
    intro reader hfits' htexts
    have hsaves : Saves .gguf d' output ⟨content.tensors, texts content.metadata⟩ s output _ :=
      Prod.fst_eq_iff.1 hsaved
    have hback := hsaves.loadAny_eq houtput hfits' hshapes (by simp) htexts
    exact ⟨_, hback, rfl, fun key v hv => find?_stored_texts hkey hv⟩
  . intro hkey
    obtain ⟨v, hv⟩ := Table.mem_keys_iff.1 hkey
    have htext : (texts content.metadata).find? Gguf.alignmentKey = some (.string v.text) := by
      unfold texts
      rw [Table.find?_map, hv]
      rfl
    unfold saveAs
    dsimp only
    rw [Gguf.save_of_string_alignment hvalid htext]
    rfl

/--
The disk with a file of a single tensor, after its file has become a `.safetensors` file.
-/
def singleConverted : Disk :=
  (convert singleDisk "m.gguf" "o.safetensors" {}).2

theorem convert_back_singleDisk
    : (convert singleDisk "m.gguf" "o.safetensors" {}).1 = .ok "o.safetensors" ∧
        (convert singleConverted "o.safetensors" "n.gguf" {}).1 = .ok "n.gguf" ∧
        ∃ back, loadAny (convert singleConverted "o.safetensors" "n.gguf" {}).2 "n.gguf" {}
            = .ok back ∧
          back.tensors = .ofList [("t", Tensor.zeros .f16 [2, 1])] ∧
          back.metadata.find? "n" = some (.string "7") := by
  let content : Gguf.Content :=
    ⟨.ofList [("t", Tensor.zeros .f16 [2, 1])], .ofList [("n", .scalar ⟨.u16, [], [7, 0], rfl⟩)]⟩
  have hconverted : (convert singleDisk "m.gguf" "o.safetensors" {}).1 = .ok "o.safetensors" := by
    decide +kernel
  have hloaded : loadAny singleDisk "m.gguf" {} = .ok content := by
    decide +kernel
  have hmade : ∃ made, singleConverted.create "n.gguf" = .ok made :=
    isSome_toOption_iff.1 (by decide +kernel)
  obtain ⟨hreturns, _⟩ := convert_back (by decide +kernel) (by decide +kernel)
    (by decide +kernel) (Prod.fst_eq_iff.1 hconverted) hloaded (by decide +kernel)
    (by decide +kernel) (by decide +kernel) (by decide +kernel) hmade
  obtain ⟨hreturned, hkept⟩ := hreturns (by decide +kernel)
  obtain ⟨back, hback, htensors, hmetadata⟩ :=
    hkept {} (by decide +kernel) (by decide +kernel)
  have hn := hmetadata "n" (.scalar ⟨.u16, [], [7, 0], rfl⟩) (by decide +kernel)
  have htext : (Gguf.MetaValue.scalar ⟨.u16, [], [7, 0], rfl⟩).text = "7" := by
    decide +kernel
  rw [htext] at hn
  exact ⟨hconverted, hreturned, back, hback, htensors, hn⟩

/--
A disk with a file of a single tensor that declares its alignment.
-/
def alignedDisk : Disk :=
  (Gguf.save .empty "m.gguf" (views (.ofList [("t", Tensor.zeros .f16 [2, 1])]))
    (.ofList [(Gguf.alignmentKey, Gguf.alignmentValue 64)]) {}).2

/--
The text of an alignment is no alignment.
-/
theorem not_convert_back_alignedDisk
    : ∃ content, loadAny alignedDisk "m.gguf" {} = .ok content ∧
        (∀ e ∈ content.tensors.entries, e.2.dtype ∈ Gguf.tensorTypes ∧ e.2.rank ≤ 8) ∧
        SafeTensors.metadataKey ∉ content.tensors.keys ∧
        (∀ text ∈ Gguf.writtenTexts (views content.tensors) content.metadata {},
          text.utf8ByteSize ≤ ({} : Settings).codec.maxStringLen) ∧
        (convert alignedDisk "m.gguf" "o.safetensors" {}).1 = .ok "o.safetensors" ∧
        (convert (convert alignedDisk "m.gguf" "o.safetensors" {}).2 "o.safetensors" "n.gguf" {}).1
          = .error (.ofError (.gguf .alignmentNotU32)) := by
  refine ⟨⟨.ofList [("t", Tensor.zeros .f16 [2, 1])],
    .ofList [(Gguf.alignmentKey, Gguf.alignmentValue 64)]⟩, ?_, ?_, ?_, ?_, ?_, ?_⟩
  . decide +kernel
  . decide +kernel
  . decide +kernel
  . decide +kernel
  . decide +kernel
  . decide +kernel

end Command

end TensorFiles
