import Mathlib
import TensorFiles.Proofs.Gguf.Container.RoundTrip
/-!
This module contains the reading back of whole writing sessions: whatever calls are made, in
whatever order, a file that is closed delivers what the accepted ones appended, and nothing else.
-/

namespace TensorFiles.Gguf

namespace WriteCall

def entry? : WriteCall → Option (String × MetaValue)
  | .record key value => some (key, value)
  | _ => none

/--
The strings that a call appends.
-/
def texts : WriteCall → List String
  | .record key value => entryTexts (key, value)
  | .descriptor d => [d.name]
  | _ => []

theorem eq_record_of_entry? {call : WriteCall} {e : String × MetaValue} (h : call.entry? = some e)
    : call = .record e.1 e.2 := by
  unfold entry? at h
  split at h
  . simp only [Option.some.injEq] at h
    rw [← h]
  . simp at h

theorem eq_descriptor_of_descriptor? {call : WriteCall} {d : Descriptor}
    (h : call.descriptor? = some d) : call = .descriptor d := by
  unfold descriptor? at h
  split at h
  . simp only [Option.some.injEq] at h
    rw [← h]
  . simp at h

/--
What holds of all strings holds of those in the entries and of the names.
-/
theorem forall_texts {calls : List WriteCall} {p : String → Prop}
    (h : ∀ call ∈ calls, ∀ s ∈ call.texts, p s)
    : (∀ e ∈ calls.filterMap entry?, ∀ s ∈ entryTexts e, p s) ∧
        ∀ t ∈ calls.filterMap descriptor?, p t.name := by
  constructor
  . intro e he s hs
    obtain ⟨call, hmem, hcall⟩ := List.mem_filterMap.1 he
    have heq := eq_record_of_entry? hcall
    rw [heq] at hmem
    exact h _ hmem s hs
  . intro t ht
    obtain ⟨call, hmem, hcall⟩ := List.mem_filterMap.1 ht
    rw [eq_descriptor_of_descriptor? hcall] at hmem
    exact h _ hmem t.name List.mem_cons_self

end WriteCall

theorem mem_of_mem_performAll {call : WriteCall} {calls : List WriteCall} {s : Container × Disk}
    (h : call ∈ (performAll calls s).1) : call ∈ calls := by
  induction calls generalizing s with
  | nil => simp [performAll] at h
  | cons first calls ih =>
    unfold performAll at h
    rw [List.mem_append] at h
    cases h with
    | inl h =>
      unfold WriteCall.accepted at h
      split at h
      . rw [List.mem_singleton.1 h]
        exact List.mem_cons_self
      . simp at h
    | inr h => exact List.mem_cons_of_mem first (ih h)

theorem forall₂_encodes {calls : List WriteCall} (happend : ∀ call ∈ calls, call.isAppend = true)
    (hencoded : ∀ key value, WriteCall.record key value ∈ calls →
      ∃ r, EncodedRecord.ofValue key value = .ok r)
    : List.Forall₂ Encodes (calls.filterMap WriteCall.entry?)
        (calls.filterMap WriteCall.record?) := by
  induction calls with
  | nil => exact .nil
  | cons call calls ih =>
    rw [List.forall_mem_cons] at happend
    have hrest := ih happend.2 (fun key value hmem =>
      hencoded key value (List.mem_cons_of_mem call hmem))
    cases call with
    | record key value =>
      obtain ⟨r, hr⟩ := hencoded key value List.mem_cons_self
      have hrecord : (WriteCall.record key value).record? = some r := by
        simp only [WriteCall.record?, hr, Except.toOption]
      rw [List.filterMap_cons, List.filterMap_cons, hrecord]
      exact .cons hr hrest
    | encoded r => simp [WriteCall.isAppend] at happend
    | descriptor d => exact hrest
    | payload bytes => exact hrest
    | align alignment => exact hrest

namespace Container

variable {c : Container} {o : Output} {w : Written} {d d' : Disk}

theorem Writes.complete_of_close {path : String} {config : CodecConfig}
    (h : c.Writes d path config o w) (hclose : c.close d = (.ok (), d'))
    (hvalid : config.validate = .ok ()) (hindex : headerLength + w.index.length < fileBound)
    (hoffsets : ∀ t ∈ w.descriptors, t.offset < wordBound)
    : w.Complete config.version config.alignment ∧
        d'.find path = .ok (.file o.file (w.file config.version)) := by
  obtain ⟨hall, hfind⟩ := h.tracks.find_close h.flushed hclose
  obtain ⟨hpower, hsmall, hmin, hmax⟩ := CodecConfig.validate_eq_ok_iff.1 hvalid
  rw [h.version, h.path] at hfind
  have hstart := h.tracks.start
  rw [h.alignment] at hstart
  exact ⟨⟨h.tracks.sound, h.aligned, hall, hstart, hpower, hsmall, ⟨hmin, hmax⟩, hindex, hoffsets⟩,
    hfind⟩

/--
It is enough that the file that is closed is as small as files have to be.
-/
theorem Writes.complete_of_fits {path : String} {config : CodecConfig}
    (h : c.Writes d path config o w) (hclose : c.close d = (.ok (), d'))
    (hvalid : config.validate = .ok ()) (hsize : fileFits d' path = true)
    : w.Complete config.version config.alignment ∧
        d'.find path = .ok (.file o.file (w.file config.version)) := by
  obtain ⟨hall, hfind⟩ := h.tracks.find_close h.flushed hclose
  obtain ⟨hpower, hsmall, _⟩ := CodecConfig.validate_eq_ok_iff.1 hvalid
  rw [h.version, h.path] at hfind
  rw [fileFits_iff_of_find hfind] at hsize
  have hindex := w.index_lt_of_size hsize
  have hroom (s : Nat) (hs : w.start? = some s) : headerLength + w.index.length ≤ s := by
    rw [h.tracks.start s hs, h.alignment]
    exact le_alignUp hpower (add_le_wordBound hindex hsmall)
  exact h.complete_of_close hclose hvalid hindex
    (fun t => h.tracks.sound.offset_lt_of_size hall hroom hsize)

end Container

/--
The container that reads a closed file delivers the entries and the descriptors of the accepted
calls, in their order, wherever its alignment is changed in between. If it has the alignment of
the writer by the end of the index, it delivers their payloads, too.
-/
theorem readAll_of_performAll {d d' : Disk} {path : String} {config reader : CodecConfig}
    {calls accepted : List WriteCall} {created written : Container × Disk}
    (hcreate : Container.create d path config = .ok created)
    (happend : ∀ call ∈ calls, call.isAppend = true)
    (hrun : performAll calls created = (accepted, written))
    (hclose : written.1.close written.2 = (.ok (), d'))
    (hindex : indexLength accepted < fileBound)
    (hoffsets : ∀ t ∈ accepted.filterMap WriteCall.descriptor?, t.offset < wordBound)
    (hshapes : ∀ t ∈ accepted.filterMap WriteCall.descriptor?, Shape.Fits t.shape)
    (htexts : ∀ call ∈ accepted, ∀ s ∈ call.texts, s.utf8ByteSize ≤ reader.maxStringLen)
    : ∃ c, Container.ofFile d' path reader = .ok c ∧ c.version = config.version ∧
        c.recordCount = (accepted.filterMap WriteCall.entry?).length ∧
        c.tensorCount = (accepted.filterMap WriteCall.descriptor?).length ∧
        ∀ (loop : List (ReadCall × Answer)) (reads : List ReadCall),
          loop = plainLoop ((accepted.filterMap WriteCall.entry?).map settledEntry)
            (accepted.filterMap WriteCall.descriptor?) →
          reads.filter ReadCall.moves = loop.map (·.1) →
          (readAll reads c).1.filter (·.1.moves) = loop.map (fun s => (s.1, .ok s.2)) ∧
          ((readAll reads c).2.alignment = config.alignment →
            (accepted.filterMap WriteCall.descriptor?).map (readAll reads c).2.payload
              = (accepted.filterMap WriteCall.payload?).map Except.ok) := by
  obtain ⟨c₀, d₀⟩ := created
  obtain ⟨hvalid, _, _, o₀, hwrites₀⟩ := Container.exists_writes_of_create hcreate
  obtain ⟨accepted', c₁, d₁, o₁, w, hrun', hwrites, hgains⟩ := hwrites₀.performAll
    (fun call hmem => WriteCall.aligns_of_isAppend (happend call hmem))
  rw [hrun] at hrun'
  simp only [Prod.mk.injEq] at hrun'
  obtain ⟨rfl, rfl⟩ := hrun'
  rw [← hgains.length_index] at hindex
  obtain ⟨hrecords, hdescriptors, hpayloads, hencoded⟩ := hgains
  simp only [List.nil_append, List.map_nil] at hrecords hdescriptors hpayloads
  rw [← hdescriptors] at hoffsets
  obtain ⟨hcomplete, hfind⟩ := hwrites.complete_of_close hclose hvalid hindex hoffsets
  have happend' : ∀ call ∈ accepted, call.isAppend = true := by
    intro call hmem
    have hmem' : call ∈ (performAll calls (c₀, d₀)).1 := by
      rw [hrun]
      exact hmem
    exact happend call (mem_of_mem_performAll hmem')
  have hentries := forall₂_encodes happend' hencoded
  rw [← hrecords] at hentries
  obtain ⟨hentryTexts, hnames⟩ :=
    WriteCall.forall_texts (p := fun s => s.utf8ByteSize ≤ reader.maxStringLen) htexts
  rw [← hdescriptors] at hnames
  rw [← hdescriptors] at hshapes
  obtain ⟨c, p, hopen, hcversion, htensors, hcount, _, hat, rs, ds, hp, hrs, hds⟩ :=
    Container.exists_openData hcomplete hentries hentryTexts hnames hshapes path o₁.file
  have hofFile : Container.ofFile d' path reader = .ok c := by
    unfold Container.ofFile
    rw [Disk.map_of_find hfind]
    exact hopen
  refine ⟨c, hofFile, hcversion, ?_, ?_, ?_⟩
  . rw [hcount, hentries.length_eq]
  . rw [htensors, hdescriptors]
  . intro loop reads hloop hreads
    have hscript : p.script = loop := by
      rw [hp, Position.script, hrs, hds, hloop, hdescriptors]
    rw [← hscript] at hreads ⊢
    obtain ⟨hresults, hend⟩ := hat.readAll hreads
    refine ⟨hresults, fun hcalign => ?_⟩
    rw [← hdescriptors, ← hpayloads]
    rw [hend.map_payload_eq hcomplete rfl hcalign, List.map_map]
    rfl

/--
A session with calls that are refused: a value that cannot be written, an offset that is not
aligned, and a payload of another size than is declared.
-/
def refusedCalls : List WriteCall :=
  [.record "k" (.string "v"), .record "x" .empty, .descriptor ⟨"t", [2], .i8, 0⟩,
   .descriptor ⟨"u", [1], .i8, 1⟩, .payload [5], .payload [5, 6]]

/--
A new container on an empty disk.
-/
def newContainer : Container × Disk :=
  ({
    medium := .created ⟨0, encodeHeader 3 0 0, 0⟩
    path := "a"
    offset := headerLength
    alignment := 32
    version := 3
    maxStringLen := 10 * 1024 * 1024 }, ⟨[(["a"], .file 0 [])], 1⟩)

theorem readAll_of_performAll_refusedCalls
    : ∃ d' c, Container.create .empty "a" {} = .ok newContainer ∧
        (performAll refusedCalls newContainer).2.1.close (performAll refusedCalls newContainer).2.2
          = (.ok (), d') ∧
        Container.ofFile d' "a" {} = .ok c ∧ c.recordCount = 1 ∧ c.tensorCount = 1 ∧
        (readAll [.align 64, .key, .value, .key, .descriptor, .align 32, .descriptor] c).1.filter
            (·.1.moves)
          = [(.key, .ok (.key (some "k"))), (.value, .ok (.value (.string "v"))),
            (.key, .ok (.key none)), (.descriptor, .ok (.descriptor (some ⟨"t", [2], .i8, 0⟩))),
            (.descriptor, .ok (.descriptor none))] := by
  have hcreate : Container.create .empty "a" {} = .ok newContainer := rfl
  have hrun : performAll refusedCalls newContainer
      = ([.record "k" (.string "v"), .descriptor ⟨"t", [2], .i8, 0⟩, .payload [5, 6]],
        (performAll refusedCalls newContainer).2) := by
    apply Prod.fst_eq_iff.1
    cbv
  have hclose : (performAll refusedCalls newContainer).2.1.close
      (performAll refusedCalls newContainer).2.2
      = (.ok (), ((performAll refusedCalls newContainer).2.1.close
        (performAll refusedCalls newContainer).2.2).2) := by
    apply Prod.fst_eq_iff.1
    cbv
  have hindex : indexLength [.record "k" (.string "v"), .descriptor ⟨"t", [2], .i8, 0⟩,
      .payload [5, 6]] < fileBound := by
    decide +kernel
  have hshape : Shape.Fits [2] := ⟨by decide, by decide⟩
  have htexts : ∀ call ∈ [WriteCall.record "k" (.string "v"), .descriptor ⟨"t", [2], .i8, 0⟩,
      .payload [5, 6]], ∀ s ∈ call.texts, s.utf8ByteSize ≤ ({} : CodecConfig).maxStringLen := by
    decide
  obtain ⟨c, hopen, _, hrecords, htensors, hreads⟩ :=
    readAll_of_performAll hcreate (by decide) hrun hclose hindex (by decide)
      (by simpa [WriteCall.descriptor?] using hshape) htexts
  refine ⟨_, c, hcreate, hclose, hopen, hrecords, htensors, ?_⟩
  exact (hreads _ _ rfl rfl).1

end TensorFiles.Gguf
