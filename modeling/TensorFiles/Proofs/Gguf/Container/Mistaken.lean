import TensorFiles.Proofs.Gguf.Container.Delivery
/-!
This module contains what the calls of one mode do on a container of the other, after any calls. A
container that is read refuses all that writes. A container that is written refuses nearly all that
reads: its header declares no records and no tensors, so that before the first of them is written, the
index can be found to end.
-/

namespace TensorFiles.Gguf

/--
Whether a query is one for containers that are read.
-/
def Query.reads : Query → Bool
  | .index (.align _) => false
  | .start => false
  | _ => true

/--
Make calls one after the other, whether or not they fail.
-/
def performEach (calls : List AnyCall) (s : Container × Disk) : Container × Disk :=
  calls.foldl (fun s call => (call.perform s).2) s

namespace Container

/--
What a container that is written answers to a query for containers that are read, and what it leaves
behind: that there is no further key, or no further descriptor.
-/
def slip? (c : Container) : Query → Option (Answer × Container)
  | .index .key =>
    if c.current = .metadata ∧ c.recordsDone = 0 then
      some (.key none, { c with current := .descriptors })
    else
      none
  | .index .descriptor =>
    if c.leftRecords.current = .descriptors ∧ c.tensorsDone = 0 then
      some (.descriptor none, { c with
        current := .data
        dataStart? := some (alignUp c.offset c.alignment) })
    else
      none
  | _ => none

/--
What holds of a container that is written, whatever calls have been made: its header declares
nothing, and descriptors have only been written behind the metadata.
-/
structure Fresh (c : Container) : Prop where
  created : c.isCreated = true
  tensorCount : c.tensorCount = 0
  recordCount : c.recordCount = 0
  awaitsValue : c.awaitsValue = false
  tensorsDone : c.current = .metadata → c.tensorsDone = 0

variable {α : Type} {c c' : Container} {d : Disk} {data : List UInt8} {e : Error} {q : Query}
  {call : AnyCall}

theorem perform_eq_of_exec {r : Except Error (Option Answer)} (h : exec call.call c = (r, c'))
    : call.perform (c, d) = (r, (c', c.sync c' d)) := by
  unfold AnyCall.perform
  rw [h]

theorem sync_of_opened (h : c'.isCreated = false) : c.sync c' d = d := by
  unfold sync
  cases hm : c'.medium with
  | opened file data => rfl
  | created o => exact absurd hm (medium_of_opened h o)

theorem data_eq_error (h : c.isCreated = true) : c.data = .error (.gguf .createdForWriting) := by
  obtain ⟨o, hm⟩ := exists_output h
  unfold Container.data
  rw [hm]

theorem Opened.isCreated (h : c.Opened data) : c.isCreated = false := by
  by_contra hcreated
  have hcontent := h.content
  rw [data_eq_error (by simpa using hcreated)] at hcontent
  simp at hcontent

theorem Opened.of_medium_eq (h : c.Opened data) (hmedium : c'.medium = c.medium)
    (hoffset : c'.offset = c.offset) : c'.Opened data := by
  refine ⟨?_, ?_⟩
  . rw [← h.content]
    unfold Container.data
    rw [hmedium]
  . rw [hoffset]
    exact h.room

theorem Opened.remnant (h : c.Opened data) (call : AnyCall) : (c.remnant call).Opened data := by
  obtain ⟨hmedium, hoffset⟩ := (c.movedOn_remnant call).opened h.isCreated
  exact h.of_medium_eq hmedium hoffset

/--
A writing call on a container that is read fails, and leaves what it leaves whenever it fails.
-/
theorem Opened.perform_write (h : c.Opened data) {call : WriteCall} (haligns : call.aligns = false)
    : ∃ e, (AnyCall.write call).perform (c, d) = (.error e, (c.remnant (.write call), d)) := by
  obtain ⟨e, he⟩ := barred_call haligns c h.isCreated
  have hexec : exec (AnyCall.write call).call c = (.error e, (exec call.call c).2) :=
    exec_map_eq_error_iff.2 (Prod.ext he rfl)
  have hremnant := eq_remnant_of_error hexec
  rw [hremnant] at hexec
  exact ⟨e, by rw [perform_eq_of_exec hexec, sync_of_opened (h.remnant _).isCreated]⟩

theorem Opened.exec_call (h : c.Opened data) {r : Except Error (Option Answer)}
    (hexec : exec call.call c = (r, c')) : c'.Opened data := by
  cases r with
  | error e =>
    rw [eq_remnant_of_error hexec]
    exact h.remnant call
  | ok answer? =>
    cases call with
    | query q =>
      rcases exec_query_eq_ok hexec with ⟨call, answer, rfl, rfl, hcall⟩ | ⟨_, rfl⟩
      . exact (h.of_answered (h.exec_call_eq_ok_iff.1 hcall)).1
      . exact h
    | write call =>
      obtain ⟨_, hcall, _⟩ := exec_map_eq_ok_iff.1 hexec
      cases haligns : call.aligns with
      | false =>
        obtain ⟨e, he⟩ := barred_call haligns c h.isCreated
        rw [hcall] at he
        simp at he
      | true =>
        cases call with
        | align alignment =>
          obtain ⟨_, _, rfl⟩ := exec_setAlignment_eq_ok_iff.1 hcall
          exact ⟨h.content, h.room⟩
        | record | encoded | descriptor | payload => simp [WriteCall.aligns] at haligns

theorem Opened.performEach (h : c.Opened data) (calls : List AnyCall)
    : ∃ c', performEach calls (c, d) = (c', d) ∧ c'.Opened data := by
  induction calls generalizing c with
  | nil => exact ⟨c, rfl, h⟩
  | cons call calls ih =>
    rcases hexec : exec call.call c with ⟨r, c₁⟩
    have hopened := h.exec_call hexec
    obtain ⟨c', hrest, hopened'⟩ := ih hopened
    refine ⟨c', ?_, hopened'⟩
    rw [← hrest]
    unfold Gguf.performEach
    rw [List.foldl_cons, perform_eq_of_exec hexec, sync_of_opened hopened.isCreated]

theorem exec_advance_of_created (h : c.isCreated = true) (read : Read α)
    : exec (advance read) c = (.error (.gguf .createdForWriting), c) := by
  unfold advance
  rw [exec_bind_of_ok (exec_get c), data_eq_error h, exec_bind_of_error (exec_lift _ c)]

theorem Fresh.exec_nextKey_eq_ok_iff (h : c.Fresh) {key? : Option String}
    : exec nextKey c = (.ok key?, c') ↔ c.current = .metadata ∧ c.recordsDone = 0 ∧ key? = none ∧
        c' = { c with current := .descriptors } := by
  have hawaits : ¬ c.awaitsValue = true := by simp [h.awaitsValue]
  unfold nextKey
  rw [exec_bind_of_ok (exec_get c), exec_expect_eq_ok_iff]
  dsimp only
  rw [exec_guard_eq_ok_iff, and_iff_right hawaits]
  refine and_congr_right fun _ => ?_
  split
  . next hlast =>
    rw [h.recordCount] at hlast
    rw [exec_bind_of_ok (exec_modify _ c), exec_pure]
    simp [hlast, eq_comm]
  . next hmore =>
    rw [h.recordCount] at hmore
    rw [exec_bind_of_error (exec_advance_of_created h.created _)]
    simp [hmore]

theorem Fresh.exec_readValue_ne_ok (h : c.Fresh) {value : MetaValue}
    : exec readValue c ≠ (.ok value, c') := by
  intro hexec
  unfold readValue at hexec
  rw [exec_bind_of_ok (exec_get c), exec_expect_eq_ok_iff] at hexec
  dsimp only at hexec
  rw [exec_guard_eq_ok_iff, h.awaitsValue] at hexec
  exact hexec.2.1 rfl

theorem Fresh.leftRecords (h : c.Fresh) : c.leftRecords.Fresh := by
  unfold Container.leftRecords
  split
  . exact ⟨h.created, h.tensorCount, h.recordCount, h.awaitsValue, by simp⟩
  . exact h

theorem Fresh.exec_nextDescriptor_eq_ok_iff (h : c.Fresh) {d? : Option Descriptor}
    : exec nextDescriptor c = (.ok d?, c') ↔ c.leftRecords.current = .descriptors ∧
        c.tensorsDone = 0 ∧ d? = none ∧
        c' = { c with
          current := .data
          dataStart? := some (alignUp c.offset c.alignment) } := by
  have hleft := h.leftRecords
  have heq := c.leftRecords_eq
  unfold nextDescriptor
  rw [exec_bind_of_ok (exec_modify _ c)]
  change exec _ c.leftRecords = _ ↔ _
  rw [exec_bind_of_ok (exec_get _), exec_expect_eq_ok_iff, hleft.tensorCount]
  refine and_congr_right fun hcurrent => ?_
  rw [hcurrent] at heq
  split
  . next hlast =>
    rw [exec_bind_of_ok (exec_modify _ _), exec_pure]
    rw [heq] at hlast ⊢
    dsimp only at hlast
    simp [hlast, eq_comm]
  . next hmore =>
    rw [exec_bind_of_error (exec_advance_of_created hleft.created _)]
    rw [heq] at hmore
    simp [hmore]

theorem Fresh.payload_ne_ok (h : c.Fresh) {t : Descriptor} {bytes : List UInt8}
    : c.payload t ≠ .ok bytes := by
  intro hpayload
  unfold payload at hpayload
  rw [bind_eq_ok_iff] at hpayload
  obtain ⟨_, _, hpayload⟩ := hpayload
  rw [bind_eq_ok_iff, data_eq_error h.created] at hpayload
  obtain ⟨data, hdata, _⟩ := hpayload
  simp at hdata

theorem Fresh.exec_query_eq_ok_iff (h : c.Fresh) (hreads : q.reads = true)
    {answer? : Option Answer}
    : exec q.call c = (.ok answer?, c') ↔
      ∃ answer, answer? = some answer ∧ c.slip? q = some (answer, c') := by
  cases q with
  | index call =>
    cases call with
    | key =>
      simp only [Query.call, ReadCall.call, slip?, exec_map_eq_ok_iff, h.exec_nextKey_eq_ok_iff,
        Option.ite_none_right_eq_some, Option.some.injEq, Prod.mk.injEq]
      constructor
      . rintro ⟨_, ⟨_, ⟨hcurrent, hnone, rfl, rfl⟩, rfl⟩, rfl⟩
        exact ⟨_, rfl, ⟨hcurrent, hnone⟩, rfl, rfl⟩
      . rintro ⟨_, rfl, ⟨hcurrent, hnone⟩, rfl, rfl⟩
        exact ⟨_, ⟨_, ⟨hcurrent, hnone, rfl, rfl⟩, rfl⟩, rfl⟩
    | value =>
      simp [Query.call, ReadCall.call, slip?, exec_map_eq_ok_iff, h.exec_readValue_ne_ok]
    | descriptor =>
      simp only [Query.call, ReadCall.call, slip?, exec_map_eq_ok_iff,
        h.exec_nextDescriptor_eq_ok_iff, Option.ite_none_right_eq_some, Option.some.injEq,
        Prod.mk.injEq]
      constructor
      . rintro ⟨_, ⟨_, ⟨hcurrent, hnone, rfl, rfl⟩, rfl⟩, rfl⟩
        exact ⟨_, rfl, ⟨hcurrent, hnone⟩, rfl, rfl⟩
      . rintro ⟨_, rfl, ⟨hcurrent, hnone⟩, rfl, rfl⟩
        exact ⟨_, ⟨_, ⟨hcurrent, hnone, rfl, rfl⟩, rfl⟩, rfl⟩
    | align alignment => simp [Query.reads] at hreads
  | payload t =>
    rw [exec_payload, Prod.mk.injEq, map_eq_ok_iff]
    simp [slip?, h.payload_ne_ok]
  | start => simp [Query.reads] at hreads

theorem Fresh.of_slip (h : c.Fresh) {answer : Answer} (hslip : c.slip? q = some (answer, c'))
    : c'.Fresh ∧ c'.medium = c.medium := by
  have hfresh {current : Section} {dataStart? : Option Nat} (hcurrent : current ≠ .metadata)
      : Fresh { c with current, dataStart? } :=
    ⟨h.created, h.tensorCount, h.recordCount, h.awaitsValue, fun hs => absurd hs hcurrent⟩
  unfold slip? at hslip
  split at hslip
  . rw [Option.ite_none_right_eq_some, Option.some.injEq, Prod.mk.injEq] at hslip
    obtain ⟨_, _, rfl⟩ := hslip
    exact ⟨hfresh (by simp), rfl⟩
  . rw [Option.ite_none_right_eq_some, Option.some.injEq, Prod.mk.injEq] at hslip
    obtain ⟨_, _, rfl⟩ := hslip
    exact ⟨hfresh (by simp), rfl⟩
  . simp at hslip

/--
Where the query for a descriptor would end the metadata, it does not fail.
-/
theorem Fresh.remnant_of_not_slip (h : c.Fresh) (hslip : c.slip? q = none)
    : c.remnant (.query q) = c := by
  rw [remnant_eq_self_iff]
  intro hshifts
  cases q with
  | index call =>
    cases call with
    | descriptor =>
      obtain ⟨hcurrent, hlast, hawaits⟩ := hshifts
      have hleft : c.leftRecords.current = .descriptors := by
        unfold Container.leftRecords
        rw [if_pos ⟨hcurrent, hlast, by simp [hawaits]⟩]
      unfold slip? at hslip
      dsimp only at hslip
      rw [if_pos ⟨hleft, h.tensorsDone hcurrent⟩] at hslip
      simp at hslip
    | key => exact hshifts
    | value => exact hshifts
    | align alignment => exact hshifts
  | payload t => exact hshifts
  | start => exact hshifts

theorem Fresh.perform_slip (h : c.Fresh) (hreads : q.reads = true) {answer : Answer}
    (hslip : c.slip? q = some (answer, c'))
    : (AnyCall.query q).perform (c, d) = (.ok (some answer), (c', d)) := by
  have hexec : exec (AnyCall.query q).call c = (.ok (some answer), c') :=
    (h.exec_query_eq_ok_iff hreads).2 ⟨answer, rfl, hslip⟩
  rw [perform_eq_of_exec hexec, sync_of_medium_eq (h.of_slip hslip).2]

theorem Fresh.perform_refused (h : c.Fresh) (hreads : q.reads = true) (hslip : c.slip? q = none)
    : ∃ e, (AnyCall.query q).perform (c, d) = (.error e, (c, d)) := by
  rcases hexec : exec (AnyCall.query q).call c with ⟨e | answer?, c'⟩
  . have hremnant := eq_remnant_of_error hexec
    rw [h.remnant_of_not_slip hslip] at hremnant
    rw [hremnant] at hexec
    exact ⟨e, by rw [perform_eq_of_exec hexec, sync_of_medium_eq rfl]⟩
  . obtain ⟨answer, _, hsome⟩ := (h.exec_query_eq_ok_iff hreads).1 hexec
    rw [hslip] at hsome
    simp at hsome

theorem Fresh.of_follows {counted : Prop} (h : c.Fresh) (hfollows : c.Follows counted c')
    (htensors : c'.current = .metadata → c'.tensorsDone = 0) : c'.Fresh where
  created := hfollows.mode.trans h.created
  tensorCount := hfollows.tensorCount.trans h.tensorCount
  recordCount := hfollows.recordCount.trans h.recordCount
  awaitsValue := hfollows.awaitsValue.trans h.awaitsValue
  tensorsDone := htensors

theorem Fresh.of_follows_counted (h : c.Fresh) (hfollows : c.Follows True c') : c'.Fresh := by
  apply h.of_follows hfollows
  intro hs
  have hrank := hfollows.current
  rw [hs] at hrank
  rw [hfollows.tensorsDone trivial]
  exact h.tensorsDone (Section.eq_metadata_of_rank_le hrank)

theorem Fresh.exec_appendDescriptor (h : c.Fresh) (t : Descriptor)
    : (exec (appendDescriptor t) c).2.Fresh := by
  have hfollows := c.leftMetadata_follows_appendDescriptor (t := t)
  apply (h.of_follows_counted c.follows_leftMetadata).of_follows hfollows
  -- a container that is still in its metadata has not passed the first step of the call
  intro hs
  have hrank := hfollows.current
  rw [hs] at hrank
  exact absurd (Section.eq_metadata_of_rank_le hrank) (leftMetadata_ne_metadata c)

theorem Fresh.exec_query (h : c.Fresh) {r : Except Error (Option Answer)}
    (hexec : exec q.call c = (r, c')) : c'.Fresh := by
  cases r with
  | error e =>
    rcases eq_or_leftRecords_of_error hexec with rfl | rfl
    . exact h
    . exact h.leftRecords
  | ok answer? =>
    cases hreads : q.reads with
    | true =>
      obtain ⟨_, _, hslip⟩ := (h.exec_query_eq_ok_iff hreads).1 hexec
      exact (h.of_slip hslip).1
    | false =>
      rcases exec_query_eq_ok hexec with ⟨call, _, rfl, _, hcall⟩ | ⟨_, rfl⟩
      . cases call with
        | align alignment =>
          have hfollows : c.Follows True (exec (setAlignment alignment) c).2 :=
            following_setAlignment c
          obtain ⟨_, halign, _⟩ := exec_map_eq_ok_iff.1 hcall
          rw [halign] at hfollows
          exact h.of_follows_counted hfollows
        | key | value | descriptor => simp [Query.reads] at hreads
      . exact h

theorem Fresh.exec_write (h : c.Fresh) (call : WriteCall) : (exec call.call c).2.Fresh := by
  cases call with
  | record key value => exact h.of_follows_counted (following_appendRecord c)
  | encoded r => exact h.of_follows_counted (following_appendEncoded c)
  | descriptor t => exact h.exec_appendDescriptor t
  | payload bytes => exact h.of_follows_counted (following_appendPayload c)
  | align alignment => exact h.of_follows_counted (following_setAlignment c)

theorem Fresh.performEach (h : c.Fresh) (calls : List AnyCall)
    : (performEach calls (c, d)).1.Fresh := by
  induction calls generalizing c d with
  | nil => exact h
  | cons call calls ih =>
    apply ih
    cases call with
    | query q => exact h.exec_query rfl
    | write call =>
      change (exec (AnyCall.write call).call c).2.Fresh
      unfold AnyCall.call
      dsimp only
      rw [exec_map]
      exact h.exec_write call

theorem fresh_of_create {path : String} {config : CodecConfig} {created : Container × Disk}
    (h : create d path config = .ok created) : created.1.Fresh := by
  unfold create at h
  rw [bind_eq_ok_iff] at h
  obtain ⟨_, _, h⟩ := h
  split at h
  . simp at h
  . rw [Except.ok.injEq] at h
    subst h
    exact ⟨rfl, rfl, rfl, rfl, fun _ => rfl⟩

end Container

/--
On a container that is read every writing call fails, whatever calls have been made before, and it
moves the container on as any call does that is refused. On one that is written, every call of the
other mode fails and changes nothing, unless it is the one that finds an index without records or
descriptors at its end.
-/
theorem mistaken_calls (d : Disk) (path : String) (config : CodecConfig)
    : (∀ opened, Container.ofFile d path config = .ok opened →
        ∀ (calls : List AnyCall) (c : Container) (d' : Disk),
          performEach calls (opened, d) = (c, d') →
          d' = d ∧ c.isCreated = false ∧
          ∀ call : WriteCall, call.aligns = false →
            (∃ e, (AnyCall.write call).perform (c, d) = (.error e, (c.remnant (.write call), d))) ∧
            (c.remnant (.write call) = c ↔ ¬ (AnyCall.write call).Shifts c)) ∧
      ∀ created, Container.create d path config = .ok created →
        ∀ (calls : List AnyCall) (c : Container) (d' : Disk), performEach calls created = (c, d') →
          c.isCreated = true ∧
          ∀ q : Query, q.reads = true →
            (c.slip? q = none → ∃ e, (AnyCall.query q).perform (c, d') = (.error e, (c, d'))) ∧
            ∀ answer c', c.slip? q = some (answer, c') →
              (AnyCall.query q).perform (c, d') = (.ok (some answer), (c', d')) := by
  constructor
  . intro opened hopen calls c d' hrun
    obtain ⟨file, data, hdata⟩ := Container.exists_openData_of_ofFile hopen
    obtain ⟨hreading, _⟩ := Container.reading_of_openData hdata
    obtain ⟨c', hrun', hopened⟩ := hreading.toOpened.performEach (d := d) calls
    rw [hrun, Prod.mk.injEq] at hrun'
    obtain ⟨rfl, rfl⟩ := hrun'
    exact ⟨rfl, hopened.isCreated, fun call haligns =>
      ⟨hopened.perform_write haligns, c.remnant_eq_self_iff _⟩⟩
  . intro created hcreate calls c d' hrun
    have hfresh := (Container.fresh_of_create hcreate).performEach (d := created.2) calls
    rw [Prod.mk.eta, hrun] at hfresh
    exact ⟨hfresh.created, fun q hreads => ⟨hfresh.perform_refused hreads,
      fun answer c' hslip => hfresh.perform_slip hreads hslip⟩⟩

/--
A file with one record, whose first bytes can be read as a descriptor.
-/
def ambiguousFile : List UInt8 :=
  encodeHeader 3 1 1 ++ EncodedRecord.encode ⟨"k", .uint8, [24]⟩ ++
    Descriptor.encode ⟨"", [], .f32, 0⟩

/--
The container that reads this file.
-/
def ambiguousContainer : Container := {
  medium := .opened 0 ambiguousFile
  path := "k"
  offset := headerLength
  alignment := defaultAlignment
  version := 3
  maxStringLen := ({} : CodecConfig).maxStringLen
  tensorCount := 1
  recordCount := 1 }

/--
After a descriptor has been appended by mistake, the metadata is read as descriptors. A container
that has just been created has no further key.
-/
theorem mistaken_calls_ambiguous
    : Container.ofFile ⟨[(["k"], .file 0 ambiguousFile)], 1⟩ "k" {} = .ok ambiguousContainer ∧
        (∃ e c, (AnyCall.write (.descriptor ⟨"t", [1], .i8, 0⟩)).perform
            (ambiguousContainer, ⟨[(["k"], .file 0 ambiguousFile)], 1⟩)
              = (.error e, (c, ⟨[(["k"], .file 0 ambiguousFile)], 1⟩)) ∧ c ≠ ambiguousContainer ∧
            (exec Container.nextDescriptor c).1 = .ok (some ⟨"k", [], .i8, 0⟩)) ∧
        Container.create .empty "a" {} = .ok newContainer ∧
        (AnyCall.query (.index .key)).perform newContainer
          = (.ok (some (.key none)),
            ({ newContainer.1 with current := .descriptors }, newContainer.2)) := by
  have hopen : Container.ofFile ⟨[(["k"], .file 0 ambiguousFile)], 1⟩ "k" {}
      = .ok ambiguousContainer := rfl
  have hcreate : Container.create .empty "a" {} = .ok newContainer := rfl
  obtain ⟨_, _, hwrite⟩ := (mistaken_calls _ _ _).1 _ hopen [] _ _ rfl
  obtain ⟨⟨e, he⟩, hkept⟩ := hwrite (.descriptor ⟨"t", [1], .i8, 0⟩) rfl
  obtain ⟨_, hread⟩ := (mistaken_calls _ _ _).2 _ hcreate [] _ _ rfl
  refine ⟨hopen, ⟨e, _, he, fun h => hkept.1 h rfl, ?_⟩, hcreate, ?_⟩
  . cbv
  . exact (hread (.index .key) rfl).2 _ _ rfl

end TensorFiles.Gguf
