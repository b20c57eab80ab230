import TensorFiles.Proofs.Gguf.Container.Delivery
import TensorFiles.Proofs.Gguf.Container.Steady
/-!
This module contains the loops that read the records and the descriptors of a container. What ends
them is the file and not the counts in its header: every round takes bytes, and there are only so
many.
-/

namespace TensorFiles.Gguf

namespace Container

variable {α β : Type}

/--
The next record, or none after the last. The alignment comes into force if the record declares it.
-/
def nextRecord : Call (Option (String × MetaValue)) := do
  match ← nextKey with
  | none => return none
  | some key =>
    let value ← readValue
    if key = alignmentKey then
      let alignment ← (value.asAlignment : Except Error Nat)
      setAlignment alignment
    return some (key, value)

/--
A loop that repeats `step` has come from `c` to `c'`, and its rounds have given `items`.
-/
inductive Rounds (step : Call (Option α)) : (c : Container) → (items : List α) →
    (c' : Container) → Prop where
  | nil (c : Container) : Rounds step c [] c
  | cons {c c₁ c' : Container} {item : α} {items : List α}
    (hstep : exec step c = (.ok (some item), c₁)) (hrest : Rounds step c₁ items c')
    : Rounds step c (item :: items) c'

/--
A loop that repeats `step` ends, after rounds that have given `items`: there are no more of them, or
the next one fails.
-/
def Ends (step : Call (Option α)) (c : Container) (items : List α) (r : Except Error Unit)
    (c' : Container) : Prop :=
  ∃ c₁, Rounds step c items c₁ ∧ exec step c₁ = (r.map fun () => none, c')

/--
A loop that repeats `step` on a file of `length` bytes cannot go on forever. Each round moves on by
`least` bytes or more, but not past the end, so there are few of them before it ends.
-/
structure Halts (step : Call (Option α)) (least length : Nat) (c : Container) : Prop where
  round : ∀ items c₁ item c₂, Rounds step c items c₁ → exec step c₁ = (.ok (some item), c₂) →
    c₁.offset + least ≤ c₂.offset ∧ c₂.offset ≤ length
  few : ∀ items c', Rounds step c items c' → items.length ≤ (length - headerLength) / least
  ends : ∃ items r c', Ends step c items r c'

/--
What holds of a container that reads `data`: what has been read has been taken from the file, and
so has the header.
-/
structure Covered (data : List UInt8) (c : Container) : Prop extends Reading data c where
  covered : headerLength + 13 * c.recordsDone + 8 * c.awaitsValue.toNat + 24 * c.tensorsDone
    ≤ c.offset

variable {c c' : Container} {data : List UInt8} {call : ReadCall} {answer : Answer}

theorem Covered.of_answered (h : c.Covered data) (hanswered : Answered data c call answer c')
    : c'.Covered data := by
  refine ⟨h.toReading.of_answered hanswered, ?_⟩
  have hcovered := h.covered
  cases hanswered with
  | lastKey hcurrent hawaits hlast => exact hcovered
  | key hcurrent hawaits hmore hread =>
    have hle := (delimited_string.stop_le h.room hread).1
    rw [hawaits, Bool.toNat_false] at hcovered
    dsimp only [Bool.toNat_true]
    omega
  | value hcurrent hawaits hread =>
    have hle := (delimited_typedValue.stop_le h.room hread).1
    rw [hawaits, Bool.toNat_true] at hcovered
    dsimp only [Bool.toNat_false]
    omega
  | lastDescriptor hcurrent hlast => exact hcovered
  | descriptor hcurrent hmore hread =>
    have hle := (delimited_descriptor.stop_le h.room hread).1
    dsimp only
    omega
  | aligned hpower hcurrent => exact hcovered

theorem Covered.leftRecords (h : c.Covered data) : c.leftRecords.Covered data := by
  refine ⟨h.toReading.leftRecords, ?_⟩
  rw [c.leftRecords_eq]
  exact h.covered

theorem Covered.foldl_after (h : c.Covered data) (calls : List OpenedCall)
    : (calls.foldl OpenedCall.after c).Covered data :=
  foldl_after_induction (fun _ hc => hc.toOpened) (fun _ _ _ _ hc => hc.of_answered)
    (fun _ hc => hc.leftRecords) h calls

theorem covered_of_openData {path : String} {file : Nat} {config : CodecConfig}
    (h : openData path file data config = .ok c) : c.Covered data := by
  obtain ⟨hreading, _, hawaits, hrecords, htensors⟩ := reading_of_openData h
  refine ⟨hreading, ?_⟩
  rw [hawaits, hrecords, htensors]
  obtain ⟨_, _, _, bytes, _, hreads, rfl⟩ := openData_eq_ok h
  exact delimited_header.le_length (hreads config.maxStringLen (Nat.le_refl _))

/--
Rounds that give something move on by `least` bytes or more.
-/
def Progresses (data : List UInt8) (step : Call (Option α)) (least : Nat) : Prop :=
  ∀ (c c' : Container) (item : α), c.Covered data → exec step c = (.ok (some item), c') →
    c'.Covered data ∧ c.offset + least ≤ c'.offset

section

variable {step : Call (Option α)} {least : Nat}

theorem Progresses.of_rounds (h : Progresses data step least) (hc : c.Covered data)
    {items : List α} (hrounds : Rounds step c items c')
    : c'.Covered data ∧ c.offset + least * items.length ≤ c'.offset := by
  induction hrounds with
  | nil c => exact ⟨hc, Nat.le_refl _⟩
  | cons hstep _ ih =>
    obtain ⟨hc₁, hle⟩ := h _ _ _ hc hstep
    obtain ⟨hc', hle'⟩ := ih hc₁
    refine ⟨hc', ?_⟩
    rw [List.length_cons, Nat.mul_succ]
    omega

/--
What is left of the file gets less with every round.
-/
theorem Progresses.exists_ends (h : Progresses data step least) (hleast : 0 < least)
    (hc : c.Covered data) : ∃ items r c', Ends step c items r c' := by
  induction hleft : data.length - c.offset using Nat.strong_induction_on generalizing c with
  | _ left ih =>
    rcases hexec : exec step c with ⟨e | _ | item, c₁⟩
    . exact ⟨[], .error e, c₁, c, .nil c, hexec⟩
    . exact ⟨[], .ok (), c₁, c, .nil c, hexec⟩
    . obtain ⟨hc₁, hle⟩ := h _ _ _ hc hexec
      have hroom := hc₁.room
      obtain ⟨items, r, c', c₂, hrounds, hend⟩ :=
        ih (data.length - c₁.offset) (by omega) hc₁ rfl
      exact ⟨item :: items, r, c', c₂, .cons hexec hrounds, hend⟩

theorem Progresses.halts (h : Progresses data step least) (hleast : 0 < least)
    (hc : c.Covered data) : c.Halts step least data.length where
  round := by
    intro items c₁ item c₂ hrounds hexec
    obtain ⟨hc₁, _⟩ := h.of_rounds hc hrounds
    obtain ⟨hc₂, hle⟩ := h c₁ c₂ item hc₁ hexec
    exact ⟨hle, hc₂.room⟩
  few := by
    intro items c' hrounds
    obtain ⟨hc', hle⟩ := h.of_rounds hc hrounds
    have hheader := hc.covered
    have hroom := hc'.room
    rw [Nat.le_div_iff_mul_le hleast, Nat.mul_comm]
    omega
  ends := h.exists_ends hleast hc

end

/--
A record is a key, then a value, and then the alignment if the record declares it.
-/
theorem exec_nextRecord_eq_ok (h : c.Opened data) {r : String × MetaValue}
    (hexec : exec nextRecord c = (.ok (some r), c'))
    : ∃ c₁ c₂, Answered data c .key (.key (some r.1)) c₁ ∧
        Answered data c₁ .value (.value r.2) c₂ ∧
        (c' = c₂ ∨ ∃ alignment, Answered data c₂ (.align alignment) .aligned c') := by
  unfold nextRecord at hexec
  obtain ⟨key?, c₁, hkey, hexec⟩ := exec_bind_eq_ok hexec
  have hanswered : Answered data c .key (.key key?) c₁ :=
    h.exec_call_eq_ok_iff.1 (exec_map_of_ok hkey Answer.key)
  cases key? with
  | none => simp at hexec
  | some key =>
    obtain ⟨value, c₂, hvalue, hexec⟩ := exec_bind_eq_ok hexec
    have h₁ := (h.of_answered hanswered).1
    have hanswered₁ : Answered data c₁ .value (.value value) c₂ :=
      h₁.exec_call_eq_ok_iff.1 (exec_map_of_ok hvalue Answer.value)
    dsimp only at hexec
    split at hexec
    . obtain ⟨alignment, c₃, hlift, hexec⟩ := exec_bind_eq_ok hexec
      obtain ⟨_, c₄, halign, hexec⟩ := exec_bind_eq_ok hexec
      rw [exec_lift_eq_iff] at hlift
      rw [exec_pure_eq_ok_iff, Option.some.injEq] at hexec
      obtain ⟨rfl, rfl⟩ := hexec
      rw [← hlift.2] at halign
      obtain ⟨hpower, hcurrent, rfl⟩ := exec_setAlignment_eq_ok_iff.1 halign
      exact ⟨c₁, c₂, hanswered, hanswered₁, .inr ⟨alignment, .aligned hpower hcurrent⟩⟩
    . rw [exec_pure_eq_ok_iff, Option.some.injEq] at hexec
      obtain ⟨rfl, rfl⟩ := hexec
      exact ⟨c₁, c₂, hanswered, hanswered₁, .inl rfl⟩

theorem exec_nextDescriptor_eq_ok_some (h : c.Opened data) {d : Descriptor}
    (hexec : exec nextDescriptor c = (.ok (some d), c'))
    : Answered data c .descriptor (.descriptor (some d)) c' :=
  h.exec_call_eq_ok_iff.1 (exec_map_of_ok hexec Answer.descriptor)

theorem progresses_nextRecord : Progresses data nextRecord 13 := by
  intro c c' r hc hexec
  obtain ⟨c₁, c₂, hkey, hvalue, halign⟩ := exec_nextRecord_eq_ok hc.toOpened hexec
  have hc₁ := hc.of_answered hkey
  have hc₂ := hc₁.of_answered hvalue
  have hle : c.offset + 13 ≤ c₂.offset := by
    cases hkey with
    | key _ _ _ hread =>
      cases hvalue with
      | value _ _ hread' =>
        have hle := (delimited_string.stop_le hc.room hread).1
        have hle' := (delimited_typedValue.stop_le hc₁.room hread').1
        dsimp only at hle' ⊢
        omega
  rcases halign with rfl | ⟨alignment, haligned⟩
  . exact ⟨hc₂, hle⟩
  . exact ⟨hc₂.of_answered haligned, Nat.le_trans hle (hc₂.toOpened.of_answered haligned).2⟩

theorem progresses_nextDescriptor : Progresses data nextDescriptor 24 := by
  intro c c' d hc hexec
  have hanswered := exec_nextDescriptor_eq_ok_some hc.toOpened hexec
  refine ⟨hc.of_answered hanswered, ?_⟩
  cases hanswered with
  | descriptor _ _ hread => exact (delimited_descriptor.stop_le hc.room hread).1

theorem readRecords_succ (left : Nat) (records : Table MetaValue)
    : readRecords (left + 1) records = (do
        match ← nextRecord with
        | none => return records
        | some r => readRecords left (records.insert r.1 r.2)) := by
  simp only [readRecords, nextRecord, bind_assoc]
  congr
  funext key?
  cases key? with
  | none => simp
  | some key =>
    simp only [bind_assoc]
    congr
    funext value
    split
    . simp [bind_assoc]
    . simp

theorem exec_readRecords_zero (h : c.Opened data) (hlast : c.recordsDone = c.recordCount)
    {r : Except Error Unit} (hend : exec nextRecord c = (r.map fun () => none, c'))
    (records : Table MetaValue)
    : exec (readRecords 0 records) c = (r.map fun () => records, c') := by
  unfold nextRecord at hend
  unfold readRecords
  rcases hkey : exec nextKey c with ⟨e | key?, c₁⟩
  . rw [exec_bind_of_error hkey] at hend ⊢
    cases r with
    | error e' => simpa [Except.map] using hend
    | ok => simp [Except.map] at hend
  . obtain ⟨_, _, ⟨_, rfl, _⟩ | ⟨hmore, _⟩⟩ := (exec_nextKey_eq_ok_iff h.content h.room).1 hkey
    . rw [exec_bind_of_ok hkey] at hend ⊢
      cases r with
      | error e' => simp [Except.map] at hend
      | ok =>
        rw [exec_pure, Prod.mk.injEq] at hend
        rw [exec_pure, hend.2]
        rfl
    . exact absurd hlast hmore

theorem recordsDone_of_nextRecord (h : c.Opened data) {r : String × MetaValue}
    (hexec : exec nextRecord c = (.ok (some r), c'))
    : c.recordsDone ≠ c.recordCount ∧ c'.recordsDone = c.recordsDone + 1 ∧
        c'.recordCount = c.recordCount := by
  obtain ⟨c₁, c₂, hkey, hvalue, halign⟩ := exec_nextRecord_eq_ok h hexec
  cases hkey with
  | key _ _ hmore _ =>
    cases hvalue with
    | value _ _ _ =>
      rcases halign with rfl | ⟨alignment, haligned⟩
      . exact ⟨hmore, rfl, rfl⟩
      . cases haligned with
        | aligned _ _ => exact ⟨hmore, rfl, rfl⟩

theorem exec_readRecords {items : List (String × MetaValue)} {c₁ : Container}
    {r : Except Error Unit} (hrounds : Rounds nextRecord c items c₁) (hc : c.Covered data)
    (hend : exec nextRecord c₁ = (r.map fun () => none, c')) {left : Nat}
    (hleft : c.recordsDone + left = c.recordCount) (records : Table MetaValue)
    : exec (readRecords left records) c = (r.map fun () => records.insertAll items, c') := by
  induction hrounds generalizing left records with
  | nil c =>
    cases left with
    | zero => exact exec_readRecords_zero hc.toOpened hleft hend records
    | succ left =>
      rw [readRecords_succ]
      cases r with
      | error e => exact exec_bind_of_error hend
      | ok => exact exec_bind_of_ok hend
  | @cons c c₂ _ item items hstep _ ih =>
    obtain ⟨hmore, hdone, hcount⟩ := recordsDone_of_nextRecord hc.toOpened hstep
    cases left with
    | zero => exact absurd hleft hmore
    | succ left =>
      have hleft' : c₂.recordsDone + left = c₂.recordCount := by omega
      rw [readRecords_succ, exec_bind_of_ok hstep]
      exact ih (progresses_nextRecord c c₂ item hc hstep).1 hend hleft' _

/--
Reading the metadata is the loop over the records, and its end decides.
-/
theorem exec_readMetadata_of_ends {items : List (String × MetaValue)} {r : Except Error Unit}
    (hc : c.Covered data) (h : Ends nextRecord c items r c')
    : exec readMetadata c = (r.map fun () => Table.empty.insertAll items, c') := by
  obtain ⟨c₁, hrounds, hend⟩ := h
  have hrecords := hc.records
  unfold readMetadata
  rw [exec_bind_of_ok (exec_get c)]
  exact exec_readRecords hrounds hc hend (by omega) .empty

theorem exec_readDescriptorsLeft_of_end {r : Except Error Unit}
    (hend : exec nextDescriptor c = (r.map fun () => none, c')) (left : Nat)
    : exec (readDescriptorsLeft left) c = (r.map fun () => [], c') := by
  cases left with
  | zero =>
    unfold readDescriptorsLeft
    cases r with
    | error e => exact exec_bind_of_error hend
    | ok => exact exec_bind_of_ok hend
  | succ left =>
    unfold readDescriptorsLeft
    cases r with
    | error e => exact exec_bind_of_error hend
    | ok => exact exec_bind_of_ok hend

theorem exec_readDescriptorsLeft {items : List Descriptor} {c₁ : Container}
    {r : Except Error Unit} (hrounds : Rounds nextDescriptor c items c₁) (hc : c.Covered data)
    (hend : exec nextDescriptor c₁ = (r.map fun () => none, c')) {left : Nat}
    (hleft : c.tensorsDone + left = c.tensorCount)
    : exec (readDescriptorsLeft left) c = (r.map fun () => items, c') := by
  induction hrounds generalizing left with
  | nil c => exact exec_readDescriptorsLeft_of_end hend left
  | @cons c c₂ _ item items hstep _ ih =>
    obtain ⟨hc₂, _⟩ := progresses_nextDescriptor c c₂ item hc hstep
    cases exec_nextDescriptor_eq_ok_some hc.toOpened hstep with
    | descriptor _ hmore _ =>
      cases left with
      | zero => exact absurd hleft hmore
      | succ left =>
        have hleft' : c.tensorsDone + 1 + left = c.tensorCount := by omega
        have hrest := ih hc₂ hend hleft'
        unfold readDescriptorsLeft
        rw [exec_bind_of_ok hstep]
        cases r with
        | error e => exact exec_bind_of_error hrest
        | ok => exact exec_bind_of_ok hrest

/--
Reading the descriptors is the loop over them, and its end decides.
-/
theorem exec_readDescriptors_of_ends {items : List Descriptor} {r : Except Error Unit}
    (hc : c.Covered data) (h : Ends nextDescriptor c items r c')
    : exec readDescriptors c = (r.map fun () => items, c') := by
  obtain ⟨c₁, hrounds, hend⟩ := h
  have htensors := hc.tensors
  unfold readDescriptors
  rw [exec_bind_of_ok (exec_get c)]
  exact exec_readDescriptorsLeft hrounds hc hend (by omega)

/--
The call leaves what some calls on the index leave.
-/
def MadeOfCalls (call : Call α) : Prop :=
  ∀ c : Container, ∃ calls : List OpenedCall, (exec call c).2 = calls.foldl OpenedCall.after c

theorem madeOfCalls_pure (a : α) : MadeOfCalls (pure a) :=
  fun _ => ⟨[], rfl⟩

theorem madeOfCalls_lift (x : Except Error α) : MadeOfCalls (liftM x : Call α) :=
  fun _ => ⟨[], rfl⟩

theorem MadeOfCalls.bind {x : Call α} {f : α → Call β} (hx : MadeOfCalls x)
    (hf : ∀ a, MadeOfCalls (f a)) : MadeOfCalls (x >>= f) := by
  intro c
  obtain ⟨calls, hcalls⟩ := hx c
  rcases hexec : exec x c with ⟨e | a, c₁⟩
  . rw [exec_bind_of_error hexec]
    rw [hexec] at hcalls
    exact ⟨calls, hcalls⟩
  . obtain ⟨more, hmore⟩ := hf a c₁
    rw [exec_bind_of_ok hexec]
    rw [hexec] at hcalls
    refine ⟨calls ++ more, ?_⟩
    rw [List.foldl_append, ← hcalls]
    exact hmore

theorem MadeOfCalls.get_bind {f : Container → Call β} (hf : ∀ c, MadeOfCalls (f c))
    : MadeOfCalls (getThe Container >>= f) := by
  intro c
  rw [exec_bind_of_ok (exec_get c)]
  exact hf c c

/--
The calls on the index themselves, apart from what they answer.
-/
theorem madeOfCalls_of_map {x : Call α} {f : α → Answer} (call : ReadCall)
    (h : call.call = f <$> x) : MadeOfCalls x := by
  intro c
  refine ⟨[.index call], ?_⟩
  change _ = (exec call.call c).2
  rw [h, exec_map]

theorem madeOfCalls_nextKey : MadeOfCalls nextKey :=
  madeOfCalls_of_map .key rfl

theorem madeOfCalls_readRecords (left : Nat) (records : Table MetaValue)
    : MadeOfCalls (readRecords left records) := by
  induction left generalizing records with
  | zero => exact madeOfCalls_nextKey.bind fun _ => madeOfCalls_pure records
  | succ left ih =>
    apply madeOfCalls_nextKey.bind
    intro key?
    cases key? with
    | none => exact madeOfCalls_pure records
    | some key =>
      have hvalue : MadeOfCalls readValue := madeOfCalls_of_map .value rfl
      apply hvalue.bind
      intro value
      dsimp only
      split
      . apply (madeOfCalls_lift _).bind
        intro alignment
        have halign : MadeOfCalls (setAlignment alignment) :=
          madeOfCalls_of_map (.align alignment) rfl
        exact halign.bind fun _ => ih _
      . exact ih _

theorem madeOfCalls_readMetadata : MadeOfCalls readMetadata :=
  .get_bind fun _ => madeOfCalls_readRecords _ _

end Container

/--
Whatever counts the header declares and whatever calls have been made, the loops over the records and
over the descriptors end after few rounds. What is read is what they give up to there, unless the end
is a failure. Reading the records is itself made of calls, so the same holds of the descriptors that
are read behind them.
-/
theorem halts_of_openData {path : String} {file : Nat} {data : List UInt8} {config : CodecConfig}
    {opened c : Container} (hopen : Container.openData path file data config = .ok opened)
    (calls : List OpenedCall) (hcalls : calls.foldl OpenedCall.after opened = c)
    : c.Halts Container.nextRecord 13 data.length ∧
        c.Halts Container.nextDescriptor 24 data.length ∧
        headerLength + 13 * c.recordsDone + 24 * c.tensorsDone ≤ data.length ∧
        (∀ items r c', Container.Ends Container.nextRecord c items r c' →
          exec Container.readMetadata c = (r.map fun () => Table.empty.insertAll items, c')) ∧
        (∀ items r c', Container.Ends Container.nextDescriptor c items r c' →
          exec Container.readDescriptors c = (r.map fun () => items, c')) ∧
        ∃ more : List OpenedCall,
          (exec Container.readMetadata c).2 = more.foldl OpenedCall.after c := by
  have hc : c.Covered data := by
    rw [← hcalls]
    exact (Container.covered_of_openData hopen).foldl_after calls
  have hcovered := hc.covered
  have hroom := hc.room
  refine ⟨Container.progresses_nextRecord.halts (by decide) hc,
    Container.progresses_nextDescriptor.halts (by decide) hc, by omega, ?_, ?_, ?_⟩
  . exact fun items r c' h => Container.exec_readMetadata_of_ends hc h
  . exact fun items r c' h => Container.exec_readDescriptors_of_ends hc h
  . exact Container.madeOfCalls_readMetadata c

/--
A file whose header declares as many tensors and records as it can. It holds a single record.
-/
def boastfulFile : List UInt8 :=
  encodeHeader 3 (wordBound - 1) (wordBound - 1) ++
    (encodeString "" ++ (LittleEndian.encode 4 ValueType.uint8.code ++ [7]))

/--
The container that reads this file.
-/
def boastfulContainer : Container := {
  medium := .opened 0 boastfulFile
  path := "b"
  offset := headerLength
  alignment := defaultAlignment
  version := 3
  maxStringLen := ({} : CodecConfig).maxStringLen
  tensorCount := wordBound - 1
  recordCount := wordBound - 1 }

theorem halts_of_openData_boastful
    : Container.openData "b" 0 boastfulFile {} = .ok boastfulContainer ∧
        boastfulContainer.Halts Container.nextRecord 13 37 ∧
        (exec Container.readMetadata boastfulContainer).1 = .error (.gguf (.endOfData 8 37 0)) := by
  have hopen : Container.openData "b" 0 boastfulFile {} = .ok boastfulContainer := by
    cbv
  have hlength : boastfulFile.length = 37 := by
    cbv
  have hfirst : exec Container.nextRecord boastfulContainer
      = (.ok (some ("", .scalar ⟨.u8, [], [7], rfl⟩)),
        { boastfulContainer with offset := 37, recordsDone := 1 }) := by
    cbv
  have hsecond : exec Container.nextRecord
      { boastfulContainer with offset := 37, recordsDone := 1 }
        = (.error (.gguf (.endOfData 8 37 0)),
          { boastfulContainer with offset := 37, recordsDone := 1 }) := by
    cbv
  obtain ⟨hhalts, _, _, hmetadata, _⟩ := halts_of_openData hopen [] rfl
  rw [hlength] at hhalts
  have hends := hmetadata [_] (.error _) _ ⟨_, .cons hfirst (.nil _), hsecond⟩
  exact ⟨hopen, hhalts, congrArg Prod.fst hends⟩

end TensorFiles.Gguf
