import TensorFiles.Proofs.Gguf.Container.Session
import TensorFiles.Proofs.Gguf.Plan
/-!
This module contains the writing of a whole file in one go: all calls in a row up to the first that
fails, then closing. Tensors that are in place are only refused for having too many dimensions.
-/

namespace TensorFiles.Gguf

/--
The calls that write a file.
-/
def planCalls (records : List EncodedRecord) (placed : List PlacedTensor) : List WriteCall :=
  records.map WriteCall.encoded ++ (placed.map (fun t => WriteCall.descriptor t.descriptor) ++
    placed.map (fun t => WriteCall.payload t.payload))

theorem aligns_of_mem_planCalls (records : List EncodedRecord) (placed : List PlacedTensor)
    : ∀ call ∈ planCalls records placed, call.aligns = false := by
  intro call hmem
  simp only [planCalls, List.mem_append, List.mem_map] at hmem
  rcases hmem with ⟨r, _, rfl⟩ | ⟨t, _, rfl⟩ | ⟨t, _, rfl⟩ <;> rfl

section

variable (records : List EncodedRecord) (placed : List PlacedTensor)

theorem filterMap_record?_planCalls
    : (planCalls records placed).filterMap WriteCall.record? = records := by
  simp [planCalls, List.filterMap_map, Function.comp_def, WriteCall.record?]

theorem filterMap_descriptor?_planCalls
    : (planCalls records placed).filterMap WriteCall.descriptor?
        = placed.map (fun t => t.descriptor) := by
  simp [planCalls, List.filterMap_map, Function.comp_def, WriteCall.descriptor?]

theorem filterMap_payload?_planCalls
    : (planCalls records placed).filterMap WriteCall.payload?
        = placed.map (fun t => t.payload) := by
  simp [planCalls, List.filterMap_map, Function.comp_def, WriteCall.payload?]

end

theorem Written.Gains.eq_of_planCalls {w : Written} {records : List EncodedRecord}
    {placed : List PlacedTensor} (h : Written.Gains {} (planCalls records placed) w)
    : w.records = records ∧ w.descriptors = placed.map (fun t => t.descriptor) ∧
        w.payloads.map (·.2) = placed.map (fun t => t.payload) := by
  have hrecords := h.records
  have hdescriptors := h.descriptors
  have hpayloads := h.payloads
  rw [filterMap_record?_planCalls] at hrecords
  rw [filterMap_descriptor?_planCalls] at hdescriptors
  rw [filterMap_payload?_planCalls] at hpayloads
  exact ⟨hrecords, hdescriptors, hpayloads⟩

namespace Container

theorem appendAll_eq (records : List EncodedRecord) (placed : List PlacedTensor)
    : appendAll records placed = forM (planCalls records placed) WriteCall.call := by
  unfold appendAll planCalls
  simp only [List.forM_eq_forM, List.forM_append, List.forM_map]
  rfl

variable {c : Container} {o : Output} {w : Written} {d d' : Disk}

theorem Tracks.exec_records (h : c.Tracks o w) (hs : c.current = .metadata)
    (records : List EncodedRecord)
    : ∃ c' o' w', exec (forM (records.map WriteCall.encoded) WriteCall.call) c = (.ok (), c') ∧
        c.Evolves o w (records.map WriteCall.encoded) c' o' w' ∧ c'.alignment = c.alignment ∧
        c'.current = .metadata ∧ w'.descriptors = w.descriptors := by
  induction records generalizing c o w with
  | nil => exact ⟨c, o, w, rfl, h.evolves_nil, rfl, hs, rfl⟩
  | cons r records ih =>
    cases h.exec_appendEncoded r with
    | inl haccepted =>
      obtain ⟨_, c₁, o₁, w₁, hexec₁, hevolves₁, heq₁, hdesc₁, hs₁⟩ := haccepted
      obtain ⟨c₂, o₂, w₂, hexec₂, hevolves₂, heq₂, hs₂, hdesc₂⟩ := ih hevolves₁.tracks hs₁
      refine ⟨c₂, o₂, w₂, ?_, hevolves₁.trans hevolves₂, heq₂.trans heq₁, hs₂,
        hdesc₂.trans hdesc₁⟩
      rw [List.map_cons, List.forM_cons]
      exact (exec_bind_of_ok hexec₁).trans hexec₂
    | inr hrefused => exact absurd hs hrefused.1

/--
The order is that of all payloads, those that have been declared and those that will be.
-/
theorem Tracks.admits_of_inOrder (h : c.Tracks o w) (hs : c.current ≠ .data) {d : Descriptor}
    {descriptors : List Descriptor} (hrank : d.shape.length ≤ maxRank)
    (haligned : d.offset % c.alignment = 0) (hsized : d.byteSize = .ok d.size)
    (horder : InOrder ((w.descriptors ++ d :: descriptors).map Descriptor.extent))
    : c.Admits d := by
  refine ⟨hs, hrank, haligned, ?_, hsized⟩
  intro e he
  rw [h.extents] at he
  unfold InOrder at horder
  rw [List.map_append, List.pairwise_append] at horder
  exact horder.2.2 e (List.mem_of_getLast? he) d.extent (by simp)

theorem Tracks.exec_descriptors (h : c.Tracks o w) (hs : c.current ≠ .data)
    {descriptors : List Descriptor} (hranks : ∀ d ∈ descriptors, d.shape.length ≤ maxRank)
    (haligned : ∀ d ∈ descriptors, d.offset % c.alignment = 0)
    (hsized : ∀ d ∈ descriptors, d.byteSize = .ok d.size)
    (horder : InOrder ((w.descriptors ++ descriptors).map Descriptor.extent))
    : ∃ c' o' w',
        exec (forM (descriptors.map WriteCall.descriptor) WriteCall.call) c = (.ok (), c') ∧
        c.Evolves o w (descriptors.map WriteCall.descriptor) c' o' w' ∧
        c'.alignment = c.alignment := by
  induction descriptors generalizing c o w with
  | nil => exact ⟨c, o, w, rfl, h.evolves_nil, rfl⟩
  | cons d descriptors ih =>
    rw [List.forall_mem_cons] at hranks haligned hsized
    have hadmits := h.admits_of_inOrder hs hranks.1 haligned.1 hsized.1 horder
    cases h.exec_appendDescriptor d with
    | inl haccepted =>
      obtain ⟨_, c₁, o₁, w₁, hexec₁, hevolves₁, heq₁, hs₁⟩ := haccepted
      have hdesc : w₁.descriptors = w.descriptors ++ [d] := hevolves₁.gains.descriptors
      obtain ⟨c₂, o₂, w₂, hexec₂, hevolves₂, heq₂⟩ := ih hevolves₁.tracks (by simp [hs₁]) hranks.2
        (by rw [heq₁]; exact haligned.2) hsized.2 (by rw [hdesc, List.append_assoc]; exact horder)
      refine ⟨c₂, o₂, w₂, ?_, hevolves₁.trans hevolves₂, heq₂.trans heq₁⟩
      rw [List.map_cons, List.forM_cons]
      exact (exec_bind_of_ok hexec₁).trans hexec₂
    | inr hrefused => exact absurd hadmits hrefused.1

/--
Of descriptors whose payloads are in place, the first that has too many dimensions is refused.
-/
theorem Tracks.exec_descriptors_of_rank (h : c.Tracks o w) (hs : c.current ≠ .data)
    {descriptors : List Descriptor} (haligned : ∀ d ∈ descriptors, d.offset % c.alignment = 0)
    (hsized : ∀ d ∈ descriptors, d.byteSize = .ok d.size)
    (horder : InOrder ((w.descriptors ++ descriptors).map Descriptor.extent))
    (hrank : ∃ d ∈ descriptors, maxRank < d.shape.length)
    : ∃ name rank c',
        exec (forM (descriptors.map WriteCall.descriptor) WriteCall.call) c
          = (.error (.gguf (.rankTooLarge name rank)), c') := by
  induction descriptors generalizing c o w with
  | nil => simp at hrank
  | cons d descriptors ih =>
    rw [List.forall_mem_cons] at haligned hsized
    rw [List.map_cons, List.forM_cons]
    by_cases hd : d.shape.length ≤ maxRank
    . have hadmits := h.admits_of_inOrder hs hd haligned.1 hsized.1 horder
      have hrest : ∃ d ∈ descriptors, maxRank < d.shape.length := by
        obtain ⟨d', hmem, hlt⟩ := hrank
        cases List.mem_cons.1 hmem with
        | inl heq =>
          rw [heq] at hlt
          omega
        | inr hmem => exact ⟨d', hmem, hlt⟩
      cases h.exec_appendDescriptor d with
      | inl haccepted =>
        obtain ⟨_, c₁, o₁, w₁, hexec₁, hevolves₁, heq₁, hs₁⟩ := haccepted
        have hdesc : w₁.descriptors = w.descriptors ++ [d] := hevolves₁.gains.descriptors
        obtain ⟨name, rank, c', hexec⟩ := ih hevolves₁.tracks (by simp [hs₁])
          (by rw [heq₁]; exact haligned.2) hsized.2
          (by rw [hdesc, List.append_assoc]; exact horder) hrest
        exact ⟨name, rank, c', (exec_bind_of_ok hexec₁).trans hexec⟩
      | inr hrefused => exact absurd hadmits hrefused.1
    . exact ⟨d.name, d.shape.length, c.leftMetadata,
        exec_bind_of_error (exec_appendDescriptor_of_rank hs (Nat.not_le.1 hd))⟩

/--
Each payload begins at most as far behind the one before it as zeros can be put between them. The
first comes behind `stop`.
-/
def Near (stop : Nat) (payloads : List (Nat × List UInt8)) : Prop :=
  ((stop, []) :: payloads).IsChain (fun p q => q.1 ≤ p.1 + p.2.length + maxAllocation)

theorem Tracks.exec_payloads (h : c.Tracks o w) {payloads : List (Nat × List UInt8)}
    (hdeclared : (w.descriptors.map Descriptor.extent).drop w.payloads.length
      = payloads.map (fun p => (p.1, p.2.length))) (hnear : Near w.stop payloads)
    : ∃ c' o' w',
        exec (forM (payloads.map (fun p => WriteCall.payload p.2)) WriteCall.call) c = (.ok (), c') ∧
        c.Evolves o w (payloads.map (fun p => WriteCall.payload p.2)) c' o' w' := by
  -- the extents are those of the descriptors whose turn it is
  induction payloads generalizing c o w with
  | nil => exact ⟨c, o, w, rfl, h.evolves_nil⟩
  | cons p payloads ih =>
    have hnext : (w.descriptors.map Descriptor.extent)[w.payloads.length]?
        = some (p.1, p.2.length) := by
      rw [← List.head?_drop, hdeclared]
      rfl
    unfold Near at hnear
    rw [List.isChain_cons_cons] at hnear
    cases h.exec_appendPayload p.2 with
    | inl haccepted =>
      obtain ⟨offset, hoffset, c₁, o₁, w₁, hexec₁, hevolves₁, _, hdesc₁, hpayloads₁⟩ := haccepted
      rw [hnext, Option.some.injEq, Prod.mk.injEq] at hoffset
      have hstop : w₁.stop = p.1 + p.2.length := by
        unfold Written.stop
        rw [hpayloads₁, List.getLast?_concat, ← hoffset.1]
      have hrest : Near w₁.stop payloads := by
        unfold Near
        rw [hstop]
        refine List.IsChain.cons hnear.2.tail fun q hq => ?_
        exact (List.isChain_cons.1 hnear.2).1 q hq
      obtain ⟨c₂, o₂, w₂, hexec₂, hevolves₂⟩ := ih hevolves₁.tracks (by
        rw [hdesc₁, hpayloads₁, List.length_append, ← List.drop_drop, hdeclared]
        rfl) hrest
      refine ⟨c₂, o₂, w₂, ?_, hevolves₁.trans hevolves₂⟩
      rw [List.map_cons, List.forM_cons]
      exact (exec_bind_of_ok hexec₁).trans hexec₂
    | inr hrefused =>
      have hfar := hrefused.1 p.1 hnext
      have hle := hnear.1
      dsimp only [List.length_nil] at hle
      omega

/--
Only padding comes between planned tensors.
-/
theorem near_of_placeTensors {alignment : Nat} {entries : List (String × View)}
    {placed : List PlacedTensor} (h : placeTensors alignment 0 entries = .ok placed)
    : Near 0 (placed.map (fun t => (t.descriptor.offset, t.payload))) := by
  obtain ⟨hfirst, hchain⟩ := isChain_of_placeTensors h
  unfold Near
  refine List.IsChain.cons ?_ ?_
  . rw [List.isChain_map]
    refine hchain.imp fun t t' hfollows => ?_
    have hgap := alignUp_sub_le (t.descriptor.offset + t.payload.length) alignment
    rw [← hfollows] at hgap
    exact Nat.sub_le_iff_le_add'.1 hgap
  . intro p hp
    rw [List.head?_map] at hp
    obtain ⟨t, ht, rfl⟩ := Option.map_eq_some_iff.1 hp
    rw [hfirst t ht]
    exact Nat.zero_le _

theorem Tracks.exec_appendAll (h : c.Tracks o {}) (hs : c.current = .metadata)
    (records : List EncodedRecord) {placed : List PlacedTensor}
    (hplace : InPlace c.alignment 0 placed)
    (hsized : ∀ t ∈ placed, t.descriptor.byteSize = .ok t.descriptor.size)
    (hpayloads : placed.map (fun t => t.payload.length) = placed.map (fun t => t.descriptor.size))
    (hnear : Near 0 (placed.map (fun t => (t.descriptor.offset, t.payload))))
    (hranks : ∀ t ∈ placed, t.descriptor.shape.length ≤ maxRank)
    : ∃ c' o' w', exec (appendAll records placed) c = (.ok (), c') ∧
        c.Evolves o {} (planCalls records placed) c' o' w' := by
  obtain ⟨c₁, o₁, w₁, hexec₁, hevolves₁, heq₁, hs₁, hdesc₁⟩ := h.exec_records hs records
  have hnone₁ : w₁.descriptors = [] := hdesc₁
  obtain ⟨c₂, o₂, w₂, hexec₂, hevolves₂, heq₂⟩ := hevolves₁.tracks.exec_descriptors
    (by simp [hs₁]) (List.forall_mem_map.2 hranks) (by
      rw [heq₁]
      exact List.forall_mem_map.2 hplace.aligned) (List.forall_mem_map.2 hsized) (by
      rw [hnone₁, List.nil_append, List.map_map]
      exact hplace.order)
  have hpayloads₂ : w₂.payloads = [] := by
    have := (hevolves₁.gains.trans hevolves₂.gains).payloads
    simpa [WriteCall.payload?, List.filterMap_map, Function.comp_def] using this
  have hdesc₂ : w₂.descriptors = placed.map (fun t => t.descriptor) := by
    rw [hevolves₂.gains.descriptors, hnone₁]
    simp [WriteCall.descriptor?, List.filterMap_map, Function.comp_def]
  have hdeclared : (w₂.descriptors.map Descriptor.extent).drop w₂.payloads.length
      = (placed.map (fun t => (t.descriptor.offset, t.payload))).map
        (fun p => (p.1, p.2.length)) := by
    rw [hpayloads₂, hdesc₂, List.length_nil, List.drop_zero, List.map_map, List.map_map]
    refine List.map_congr_left fun t ht => Prod.ext rfl ?_
    exact (List.map_inj_left.1 hpayloads t ht).symm
  have hstop₂ : w₂.stop = 0 := by
    unfold Written.stop
    rw [hpayloads₂]
    rfl
  obtain ⟨c₃, o₃, w₃, hexec₃, hevolves₃⟩ :=
    hevolves₂.tracks.exec_payloads hdeclared (by rwa [hstop₂])
  refine ⟨c₃, o₃, w₃, ?_, ?_⟩
  . rw [List.map_map] at hexec₂ hexec₃
    rw [appendAll_eq, planCalls, List.forM_append, List.forM_append, exec_bind_of_ok hexec₁]
    exact (exec_bind_of_ok hexec₂).trans hexec₃
  . have hall := hevolves₁.trans (hevolves₂.trans hevolves₃)
    rw [List.map_map, List.map_map] at hall
    exact hall

/--
Without payloads no data section begins.
-/
theorem Tracks.start?_of_appendAll_nil (h : c.Tracks o {}) (hs : c.current = .metadata)
    {records : List EncodedRecord} {r : Except Error Unit} {c' : Container} {o' : Output}
    {w' : Written} (hexec : exec (appendAll records []) c = (r, c')) (h' : c'.Tracks o' w')
    : w'.start? = none := by
  obtain ⟨c₁, _, _, hexec₁, _, _, hs₁, _⟩ := h.exec_records hs records
  rw [appendAll_eq, planCalls, List.map_nil, List.map_nil, List.append_nil, List.append_nil,
    hexec₁, Prod.mk.injEq] at hexec
  apply h'.start?_eq_none
  rw [← hexec.2, hs₁]
  decide

theorem Tracks.exec_appendAll_of_rank (h : c.Tracks o {}) (hs : c.current = .metadata)
    (records : List EncodedRecord) {placed : List PlacedTensor}
    (hplace : InPlace c.alignment 0 placed)
    (hsized : ∀ t ∈ placed, t.descriptor.byteSize = .ok t.descriptor.size)
    (hrank : ∃ t ∈ placed, maxRank < t.descriptor.shape.length)
    : ∃ name rank c', exec (appendAll records placed) c
        = (.error (.gguf (.rankTooLarge name rank)), c') := by
  obtain ⟨c₁, o₁, w₁, hexec₁, hevolves₁, heq₁, hs₁, hdesc₁⟩ := h.exec_records hs records
  have hnone₁ : w₁.descriptors = [] := hdesc₁
  obtain ⟨t, ht, hlt⟩ := hrank
  obtain ⟨name, rank, c', hexec⟩ := hevolves₁.tracks.exec_descriptors_of_rank (by simp [hs₁])
    (by
      rw [heq₁]
      exact List.forall_mem_map.2 hplace.aligned) (List.forall_mem_map.2 hsized)
    (by
      rw [hnone₁, List.nil_append, List.map_map]
      exact hplace.order) ⟨t.descriptor, List.mem_map_of_mem ht, hlt⟩
  refine ⟨name, rank, c', ?_⟩
  rw [List.map_map] at hexec
  rw [appendAll_eq, planCalls, List.forM_append, List.forM_append, exec_bind_of_ok hexec₁]
  exact exec_bind_of_error hexec

/--
A file that is written in one go is closed if all calls are accepted, else it is given up.
-/
theorem exists_of_writeFile {path : String} {config : CodecConfig}
    (hcreate : create d path config = .ok (c, d')) (records : List EncodedRecord)
    (placed : List PlacedTensor)
    : ∃ r c' d₁ o' w' accepted, exec (appendAll records placed) c = (r, c') ∧
        c'.Writes d₁ path config o' w' ∧ Written.Gains {} accepted w' ∧
        (r = .ok () → accepted = planCalls records placed) ∧
        writeFile d path config (appendAll records placed)
          =
        match r with
        | .ok () => c'.close d₁
        | .error e => (.error e, c'.discard d₁) := by
  obtain ⟨_, _, _, o, hwrites⟩ := exists_writes_of_create hcreate
  obtain ⟨r, c', o', w', accepted, hexec, hwrites', hgains, hall⟩ :=
    hwrites.exec_forM (aligns_of_mem_planCalls records placed)
  rw [← appendAll_eq] at hexec
  refine ⟨r, c', _, o', w', accepted, hexec, hwrites', hgains, hall, ?_⟩
  unfold writeFile
  rw [hcreate]
  unfold exec at hexec
  simp only [hexec]
  cases r with
  | ok u => rfl
  | error e => rfl

/--
A file that has been written in one go holds what was planned. Without payloads there is no data
section.
-/
theorem exists_writes_of_writeFile {path : String} {config : CodecConfig}
    {records : List EncodedRecord} {placed : List PlacedTensor}
    (h : writeFile d path config (appendAll records placed) = (.ok (), d'))
    : ∃ c d₁ o w, Writes c d₁ path config o w ∧ c.close d₁ = (.ok (), d') ∧ w.records = records ∧
        w.descriptors = placed.map (·.descriptor) ∧
        w.payloads.map (·.2) = placed.map (·.payload) ∧ (w.payloads = [] → w.start? = none) := by
  cases hcreate : create d path config with
  | error e =>
    unfold writeFile at h
    rw [hcreate] at h
    simp at h
  | ok created =>
    obtain ⟨c, d₁⟩ := created
    obtain ⟨r, c', d₂, o, w, accepted, hexec, hwrites, hgains, hall, hfile⟩ :=
      exists_of_writeFile hcreate records placed
    rw [hfile] at h
    cases r with
    | error e => simp at h
    | ok u =>
      rw [hall rfl] at hgains
      obtain ⟨hrecords, hdescriptors, hpayloads⟩ := hgains.eq_of_planCalls
      refine ⟨c', d₂, o, w, hwrites, h, hrecords, hdescriptors, hpayloads, ?_⟩
      intro hempty
      rw [hempty, List.map_nil, eq_comm, List.map_eq_nil_iff] at hpayloads
      subst hpayloads
      obtain ⟨_, _, hmetadata, _, hwrites₀⟩ := exists_writes_of_create hcreate
      exact hwrites₀.tracks.start?_of_appendAll_nil hmetadata hexec hwrites.tracks

end Container

end TensorFiles.Gguf
