import TensorFiles.Proofs.Command.RoundTrip
import TensorFiles.Proofs.SafeTensors.Acceptance
/-!
This module contains the way of a `.safetensors` file through a GGUF file and back. Strings are
metadata values and the texts of these, so the table of strings comes back as it was.
-/

namespace TensorFiles.Command

variable {d : Disk} {input middle output : String} {s : Settings}
  {archive : SafeTensors.Archive}

/--
All strings of an archive: the names of the tensors, and the keys and the strings of the table.
-/
def archiveTexts (archive : SafeTensors.Archive) : List String :=
  archive.tensors.keys ++ archive.metadata.entries.flatMap (fun e => [e.1, e.2])

theorem map_text_strings (table : Table String)
    : (strings table).map (fun _ v => v.text) = table := by
  unfold strings
  rw [Table.map_map]
  exact Table.ext (List.map_id' table.entries)

theorem map_settled_strings (table : Table String)
    : (strings table).map (fun _ v => v.settled) = strings table := by
  unfold strings
  rw [Table.map_map]
  rfl

variable {config : CodecConfig}

/--
No record is added for the alignment that is assumed without one.
-/
theorem addsAlignment_of_default (halign : config.alignment = defaultAlignment)
    (metadata : Table Gguf.MetaValue) : Gguf.addsAlignment metadata config = false := by
  unfold Gguf.addsAlignment
  rw [halign, bne_self_eq_false, Bool.and_false]

theorem loadedMetadata_strings (halign : config.alignment = defaultAlignment)
    (table : Table String) : Gguf.loadedMetadata (strings table) config = strings table := by
  unfold Gguf.loadedMetadata
  rw [addsAlignment_of_default halign]
  exact map_settled_strings table

theorem writtenTexts_strings (halign : config.alignment = defaultAlignment)
    (archive : SafeTensors.Archive)
    : Gguf.writtenTexts (views archive.tensors) (strings archive.metadata) config
        = archiveTexts archive := by
  have hentries : (strings archive.metadata).entries
      = archive.metadata.entries.map (fun e => (e.1, .string e.2)) := rfl
  unfold Gguf.writtenTexts Gguf.writtenEntries archiveTexts views
  rw [addsAlignment_of_default halign, Table.keys_map, if_neg Bool.false_ne_true, hentries,
    List.flatMap_map]
  rfl

theorem loadAny_of_load (hinput : formatOf input = .ok .safeTensors)
    (hload : SafeTensors.load d input = .ok archive)
    : loadAny d input s = .ok ⟨archive.tensors, strings archive.metadata⟩ :=
  loadAny_eq_ok_iff.2 ⟨.safeTensors, hinput, archive, hload, rfl⟩

/--
An archive becomes a GGUF file if its tensors can be those of one.
-/
theorem exists_convert_gguf (hinput : formatOf input = .ok .safeTensors)
    (hmiddle : formatOf middle = .ok .gguf) (hload : SafeTensors.load d input = .ok archive)
    (hcount : archive.tensors.entries.length ≤ SafeTensors.maxHeaderLength)
    (hbytes : (archive.tensors.entries.map (fun e => e.2.data.length)).sum < Gguf.fileBound)
    (hsavable : Gguf.Savable (views archive.tensors) (strings archive.metadata) s.codec)
    (hmade : ∃ made, d.create middle = .ok made)
    : ∃ d', convert d input middle s = (.ok middle, d') ∧
        Saves .gguf d middle ⟨archive.tensors, strings archive.metadata⟩ s middle d' := by
  have hnormalize := normalize_of_formatOf hmiddle
  rw [← hnormalize] at hmade
  have hsaved := hsavable.save_fst (small_of_mem_views _) (dataBound_lt hcount hbytes) hmade
  rw [hnormalize] at hsaved
  have hsaves : Saves .gguf d middle ⟨archive.tensors, strings archive.metadata⟩ s middle _ :=
    Prod.fst_eq_iff.1 hsaved
  refine ⟨_, ?_, hsaves⟩
  rw [convert_eq hmiddle (loadAny_of_load hinput hload)]
  exact saveAs_eq_ok_iff.2 hsaves

/--
A file of strings becomes an archive if that is storable.
-/
theorem exists_convert_safeTensors (houtput : formatOf output = .ok .safeTensors)
    (hload : loadAny d input s = .ok ⟨archive.tensors, strings archive.metadata⟩)
    (hstorable : archive.Storable)
    (htotal : (archive.tensors.entries.map (fun e => e.2.data.length)).sum < wordBound)
    (hmade : ∃ made, d.create output = .ok made)
    : ∃ d', convert d input output s = (.ok output, d') ∧
        SafeTensors.load d' output = .ok archive := by
  have hnormalize := normalize_of_formatOf houtput
  rw [← hnormalize] at hmade
  obtain ⟨d', hsave, hloaded⟩ := hstorable.exists_save htotal hmade
  rw [hnormalize] at hsave hloaded
  refine ⟨d', ?_, hloaded⟩
  rw [convert_eq houtput hload, saveAs_eq_ok_iff]
  unfold Saves
  dsimp only
  rw [map_text_strings]
  exact hsave

/--
A `.safetensors` file that becomes a GGUF file and is converted back holds the tensors and the table
of strings that it held before, whatever characters the strings are made of. The header is written
anew, and need not be as long as the one that was read.
-/
theorem convert_through_gguf (hinput : formatOf input = .ok .safeTensors)
    (hmiddle : formatOf middle = .ok .gguf) (houtput : formatOf output = .ok .safeTensors)
    (hload : SafeTensors.load d input = .ok archive) (hfits : Gguf.fileFits d input = true)
    (hvalid : s.codec.validate = .ok ()) (halign : s.codec.alignment = defaultAlignment)
    (hdtypes : ∀ e ∈ archive.tensors.entries, e.2.dtype ∈ Gguf.tensorTypes)
    (hranks : ∀ e ∈ archive.tensors.entries, e.2.rank ≤ Gguf.maxRank)
    (hkey : Gguf.alignmentKey ∉ archive.metadata.keys)
    (htexts : ∀ text ∈ archiveTexts archive, text.utf8ByteSize ≤ s.codec.maxStringLen)
    (hheader : archive.header.length ≤ SafeTensors.maxHeaderLength)
    (hmade : ∃ made, d.create middle = .ok made)
    : ∃ d', convert d input middle s = (.ok middle, d') ∧
        (Gguf.fileFits d' middle = true → (∃ made, d'.create output = .ok made) →
          ∃ d'', convert d' middle output s = (.ok output, d'') ∧
            SafeTensors.load d'' output = .ok archive) := by
  obtain ⟨id, file, hfind, hdecode⟩ := SafeTensors.load_eq_ok_iff.1 hload
  obtain ⟨hcount, hsum, _⟩ := SafeTensors.sizes_of_decode hdecode
  have hfile := (Gguf.fileFits_iff_of_find hfind).1 hfits
  have hbytes := Nat.lt_of_le_of_lt hsum hfile
  have hsavable := savable_strings hvalid hdtypes hranks hkey
  obtain ⟨d', hconvert, hsaves⟩ :=
    exists_convert_gguf hinput hmiddle hload hcount hbytes hsavable hmade
  refine ⟨d', hconvert, ?_⟩
  intro hfits' hmade'
  rw [← writtenTexts_strings halign archive] at htexts
  have hshapes := fun e he => (SafeTensors.fits_of_decode hdecode e he).2
  have hreloaded := hsaves.loadAny_eq hmiddle hfits' hshapes (by simp) htexts
  unfold stored at hreloaded
  dsimp only at hreloaded
  -- without a record for the alignment the GGUF file holds exactly the strings
  rw [loadedMetadata_strings halign] at hreloaded
  have htotal := Nat.lt_trans hbytes (by decide : Gguf.fileBound < wordBound)
  exact exists_convert_safeTensors houtput hreloaded (.of_decode hdecode hheader) htotal hmade'

/--
A tensor and strings that are empty, look like JSON, or have to be escaped in it.
-/
def quotedArchive : SafeTensors.Archive where
  tensors := .ofList [("é\"", Tensor.zeros .i16 [2, 1])]
  metadata := .ofList [("", "\x7b\"a\": [1, null]\x7d"), ("k", ""), ("\\", "\n\"😀")]

/--
A disk with the file of these.
-/
def quotedDisk : Disk :=
  (SafeTensors.save .empty "a.safetensors" (views quotedArchive.tensors) quotedArchive.metadata).2

theorem convert_through_gguf_quotedDisk
    : (convert quotedDisk "a.safetensors" "b.gguf" {}).1 = .ok "b.gguf" ∧
        ∃ d', convert (convert quotedDisk "a.safetensors" "b.gguf" {}).2 "b.gguf" "c.safetensors" {}
            = (.ok "c.safetensors", d') ∧
          SafeTensors.load d' "c.safetensors" = .ok quotedArchive := by
  have hload : SafeTensors.load quotedDisk "a.safetensors" = .ok quotedArchive := by
    decide +kernel
  obtain ⟨d', hconvert, hback⟩ := convert_through_gguf (by decide +kernel) (by decide +kernel)
    (by decide +kernel : formatOf "c.safetensors" = .ok .safeTensors) hload (by decide +kernel)
    (by decide +kernel : ({} : Settings).codec.validate = .ok ()) rfl (by decide +kernel)
    (by decide +kernel) (by decide +kernel) (by decide +kernel) (by decide +kernel)
    (isSome_toOption_iff.1 (by decide +kernel) : ∃ made, quotedDisk.create "b.gguf" = .ok made)
  have hdisk : (convert quotedDisk "a.safetensors" "b.gguf" {}).2 = d' :=
    congrArg Prod.snd hconvert
  subst hdisk
  exact ⟨congrArg Prod.fst hconvert,
    hback (by decide +kernel) (isSome_toOption_iff.1 (by decide +kernel))⟩

end TensorFiles.Command
