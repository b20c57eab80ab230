import TensorFiles.Proofs.Command.RoundTrip
import TensorFiles.Proofs.Gguf.Truncated
/-!
This module contains the alignment that conversions to GGUF files arrive at. A record of the input that
declares one is carried over and wins over the settings. The file that is written shows the alignment to
everyone who inspects it, and all its offsets keep to it.
-/

namespace TensorFiles

namespace Gguf

/--
The data section and all payloads in it begin at multiples of the alignment.
-/
structure Summary.Aligned (s : Summary) : Prop where
  power : isPowerOfTwo s.alignment = true
  start : s.alignment ∣ s.dataStart
  offsets : ∀ t ∈ s.tensors, s.alignment ∣ t.offset

namespace Container

/--
An index that has been read leaves behind a valid alignment, and a data section that begins at a
multiple of it.
-/
theorem ReadsIndex.aligned {d : Disk} {path : String} {config : CodecConfig} {c c' : Container}
    {metadata : Table MetaValue} {ds : List Descriptor} {start : Nat}
    (hopen : ofFile d path config = .ok c) (h : c.ReadsIndex metadata ds c')
    (hstart : c'.dataStart = .ok start)
    : isPowerOfTwo c'.alignment = true ∧ c'.alignment ∣ start := by
  unfold ofFile at hopen
  split at hopen
  . simp at hopen
  . obtain ⟨p, alignment, _, hdeclared, _, rfl⟩ := h.exists_located hopen
    obtain ⟨hpower, _⟩ := declaredAlignment?_valid hdeclared (by decide) (by decide)
    have hat : alignUp p.index.length alignment = start := Except.ok.inj hstart
    rw [← hat]
    exact ⟨hpower, dvd_alignUp _ hpower⟩

end Container

/--
Whatever a file holds, what inspecting it gives is aligned.
-/
theorem aligned_of_inspect {d : Disk} {path : String} {config : CodecConfig} {summary : Summary}
    (h : inspect d path config = .ok summary) : summary.Aligned := by
  obtain ⟨c, hopen, hsummary⟩ := inspect_eq_ok_iff.1 h
  obtain ⟨c', hindex, hpayloads, hstart, _, halign⟩ := Container.readSummary_eq_ok_iff.1 hsummary
  obtain ⟨hpower, hdvd⟩ := hindex.aligned hopen hstart
  rw [halign] at hpower hdvd
  refine ⟨hpower, hdvd, fun t ht => ?_⟩
  obtain ⟨bytes, hpayload⟩ := Container.checkPayloads_eq_ok_iff.1 hpayloads t ht
  obtain ⟨_, haligned, _⟩ := Container.payload_eq_ok_iff.1 hpayload
  rw [halign] at haligned
  exact Nat.dvd_of_mod_eq_zero haligned

variable {d d' : Disk} {path written : String} {tensors : Table View} {metadata : Table MetaValue}
  {config reader : CodecConfig} {alignment : Nat} {summary : Summary}

/--
The file that is saved can be inspected if its strings are not too long for the reader.
-/
theorem exists_inspect_of_save (h : save d path tensors metadata config = (.ok written, d'))
    (hsize : fileFits d' written = true)
    (hshapes : ∀ e ∈ tensors.entries, Shape.Fits e.2.shape)
    (htexts : ∀ s ∈ writtenTexts tensors metadata config, s.utf8ByteSize ≤ reader.maxStringLen)
    : ∃ summary, inspect d' written reader = .ok summary := by
  obtain ⟨alignment, records, placed, w, id, hplan, hcomplete, hrecords, hdescriptors, hpayloads,
    hfind⟩ := exists_complete_of_save h hsize
  obtain ⟨c, c', hopen, hindex, _, hgiven⟩ := exists_index_of_plan hplan hcomplete hrecords
    hdescriptors hpayloads hfind hshapes htexts
  obtain ⟨start, hstart⟩ := hindex.exists_dataStart (Container.tensorsDone_of_ofFile hopen)
  have hthere : c'.checkPayloads w.descriptors = .ok () := by
    rw [Container.checkPayloads_eq_ok_iff, hdescriptors, List.forall_mem_map]
    exact fun t ht => ⟨t.payload, hgiven t ht⟩
  exact ⟨⟨c'.version, c'.alignment, start, _, w.descriptors⟩, inspect_eq_ok_iff.2 ⟨c, hopen,
    Container.readSummary_eq_ok_iff.2 ⟨c', hindex, hthere, hstart, rfl, rfl⟩⟩⟩

/--
Everyone who can inspect the file that is saved finds the alignment that was chosen for it.
-/
theorem alignment_of_inspect (h : save d path tensors metadata config = (.ok written, d'))
    (hsize : fileFits d' written = true)
    (hshapes : ∀ e ∈ tensors.entries, Shape.Fits e.2.shape)
    (hchoose : chooseAlignment metadata config = .ok alignment)
    (hinspect : inspect d' written reader = .ok summary) : summary.alignment = alignment := by
  obtain ⟨alignment', records, placed, w, id, hplan, hcomplete, hrecords, hdescriptors, hpayloads,
    hfind⟩ := exists_complete_of_save h hsize
  have hsame := (plan_eq_ok_iff.1 hplan).2.1
  rw [hchoose, Except.ok.injEq] at hsame
  subst hsame
  obtain ⟨c, hopen, hsummary⟩ := inspect_eq_ok_iff.1 hinspect
  rw [Container.ofFile_eq_of_find hfind] at hopen
  obtain ⟨c', hindex, _, _, _, halign⟩ := Container.readSummary_eq_ok_iff.1 hsummary
  -- what is read is also read with room for all strings
  obtain ⟨bytes, hstands, _, _, hreplay⟩ := hindex.replay hopen
  obtain ⟨limit, hlimit, htexts⟩ :=
    exists_limit (writtenTexts tensors metadata config) reader.maxStringLen
  let roomy : CodecConfig := { reader with maxStringLen := limit }
  have htexts : ∀ s ∈ writtenTexts tensors metadata config,
      s.utf8ByteSize ≤ roomy.maxStringLen := htexts
  obtain ⟨c₀, c₁, hopen₀, hindex₀, halike⟩ :=
    hreplay written id (w.file config.version) roomy hlimit hstands
  obtain ⟨c₂, c₃, hopen₂, hindex₂, halign₂, _⟩ := exists_index_of_plan hplan hcomplete hrecords
    hdescriptors hpayloads hfind hshapes htexts
  rw [Container.ofFile_eq_of_find hfind, hopen₀, Except.ok.injEq] at hopen₂
  subst hopen₂
  obtain ⟨_, _, rfl⟩ := hindex₀.unique hindex₂
  rw [← halign, ← halike.alignment, halign₂]

/--
A record that declares an alignment wins over the settings.
-/
theorem alignment_of_chooseAlignment (h : chooseAlignment metadata config = .ok alignment)
    : (∀ v, metadata.find? alignmentKey = some v → v.asAlignment = .ok alignment) ∧
      (alignmentKey ∉ metadata.keys → config.alignment = alignment) := by
  rw [Table.mem_keys_iff]
  unfold chooseAlignment alignmentOf at h
  split at h
  . next hnone =>
    rw [hnone]
    exact ⟨by simp, fun _ => Except.ok.inj h⟩
  . next v hsome =>
    simp only [bind_eq_ok_iff, pure_eq_ok_iff] at h
    obtain ⟨_, hdeclared, _, _, rfl⟩ := h
    rw [hsome]
    refine ⟨fun v' hv' => ?_, fun hnone => absurd ⟨v, rfl⟩ hnone⟩
    rw [← Option.some.inj hv']
    exact hdeclared

end Gguf

namespace Command

variable {d d' : Disk} {input output written : String} {s : Settings}

/--
A GGUF file that a conversion writes has the alignment that a record of the input declares or, if there
is none, that of the settings. Everyone who inspects the file is told so, and finds the data section and
all payloads at multiples of it; and everyone can whose limit on strings leaves room for those of the
file.
-/
theorem alignment_of_convert (h : convert d input output s = (.ok written, d'))
    (houtput : formatOf output = .ok .gguf) (hfits : Gguf.fileFits d' output = true)
    : ∃ content alignment, loadAny d input s = .ok content ∧
        (∀ v, content.metadata.find? Gguf.alignmentKey = some v →
          v.asAlignment = .ok alignment) ∧
        (Gguf.alignmentKey ∉ content.metadata.keys → s.codec.alignment = alignment) ∧
        ∀ reader : CodecConfig,
          ((∀ text ∈ Gguf.writtenTexts (views content.tensors) content.metadata s.codec,
              text.utf8ByteSize ≤ reader.maxStringLen) →
            ∃ summary, Gguf.inspect d' output reader = .ok summary) ∧
          ∀ summary, Gguf.inspect d' output reader = .ok summary →
            summary.alignment = alignment ∧ summary.Aligned := by
  obtain ⟨format, content, hformat, hload, hsaves⟩ := exists_of_convert h
  rw [houtput, Except.ok.injEq] at hformat
  subst hformat
  have hwritten := hsaves.eq_output houtput
  subst hwritten
  obtain ⟨alignment, _, _, _, _, hplan, _⟩ := Gguf.exists_complete_of_save hsaves hfits
  have hchoose := (Gguf.plan_eq_ok_iff.1 hplan).2.1
  obtain ⟨hrecord, hsettings⟩ := Gguf.alignment_of_chooseAlignment hchoose
  have hshapes : ∀ e ∈ (views content.tensors).entries, Shape.Fits e.2.shape :=
    List.forall_mem_map.2 (fits_of_loadAny hload)
  refine ⟨content, alignment, hload, hrecord, hsettings, fun reader => ⟨?_, ?_⟩⟩
  . exact Gguf.exists_inspect_of_save hsaves hfits hshapes
  . intro summary hsummary
    exact ⟨Gguf.alignment_of_inspect hsaves hfits hshapes hchoose hsummary,
      Gguf.aligned_of_inspect hsummary⟩

/--
Settings that ask for another alignment than that file declares.
-/
def wideSettings : Settings := { codec := { alignment := 128 } }

theorem alignment_of_convert_alignedDisk
    : (convert alignedDisk "m.gguf" "n.gguf" wideSettings).1 = .ok "n.gguf" ∧
        ∃ summary, Gguf.inspect (convert alignedDisk "m.gguf" "n.gguf" wideSettings).2 "n.gguf" {}
            = .ok summary ∧
          summary.alignment = 64 ∧ summary.Aligned := by
  have hconverted : (convert alignedDisk "m.gguf" "n.gguf" wideSettings).1 = .ok "n.gguf" := by
    decide +kernel
  have hloaded : loadAny alignedDisk "m.gguf" wideSettings
      = .ok ⟨.ofList [("t", Tensor.zeros .f16 [2, 1])],
        .ofList [(Gguf.alignmentKey, Gguf.alignmentValue 64)]⟩ := by
    decide +kernel
  obtain ⟨content, alignment, hload, hrecord, _, hread⟩ :=
    alignment_of_convert (Prod.fst_eq_iff.1 hconverted) (by decide +kernel) (by decide +kernel)
  rw [hloaded, Except.ok.injEq] at hload
  subst hload
  have hdeclared : (Gguf.alignmentValue 64).asAlignment = .ok alignment :=
    hrecord _ (by decide +kernel)
  have h64 : 64 = alignment := by
    rw [Gguf.asAlignment_alignmentValue (by decide), Except.ok.injEq] at hdeclared
    exact hdeclared
  subst h64
  obtain ⟨hcan, hfinds⟩ := hread {}
  obtain ⟨summary, hsummary⟩ := hcan (by decide +kernel)
  exact ⟨hconverted, summary, hsummary, hfinds summary hsummary⟩

/--
The alignment of the settings does not reach the output of an input that declares another.
-/
theorem not_alignment_of_convert_alignedDisk
    : ¬∀ (d d' : Disk) (input output written : String) (s : Settings) (env : Environment),
        s.codec.validate = .ok () → formatOf output = .ok .gguf →
        convert d input output s = (.ok written, d') →
          ∃ summary, Gguf.inspect d' output (.ofEnvironment env) = .ok summary ∧
            summary.alignment = s.codec.alignment ∧ s.codec.alignment ∣ summary.dataStart ∧
            ∀ t ∈ summary.tensors, s.codec.alignment ∣ t.offset := by
  intro h
  have hconverted : (convert alignedDisk "m.gguf" "n.gguf" wideSettings).1 = .ok "n.gguf" := by
    decide +kernel
  have hfound : (Gguf.inspect (convert alignedDisk "m.gguf" "n.gguf" wideSettings).2 "n.gguf"
      (.ofEnvironment {})).map (·.alignment) = .ok 64 := by
    decide +kernel
  obtain ⟨summary, hsummary, halign, _⟩ := h alignedDisk _ "m.gguf" "n.gguf" "n.gguf" wideSettings {}
    (by decide +kernel) (by decide +kernel) (Prod.fst_eq_iff.1 hconverted)
  rw [hsummary] at hfound
  have h64 : summary.alignment = 64 := Except.ok.inj hfound
  rw [h64] at halign
  exact absurd halign (by decide)

end Command

end TensorFiles
