import TensorFiles.Proofs.Gguf.Container.Answered
import TensorFiles.Proofs.Gguf.Container.Modes
import TensorFiles.Proofs.Gguf.Container.ReadBack
/-!
This module contains what a refused call leaves behind, on containers of either mode. Most calls look
whether they can be served before they change anything. Three move on to their section first, and the
one that appends a payload also fills the file up to the data with zeros.
-/

namespace TensorFiles.Gguf

/--
A call that asks a container for what is in it.
-/
inductive Query where
  | index (call : ReadCall)
  | payload (t : Descriptor)
  | start

/--
A call on a container, whichever way it has been made.
-/
inductive AnyCall where
  | query (q : Query)
  | write (call : WriteCall)

def Query.call : Query → Call (Option Answer)
  | .index call => some <$> call.call
  | .payload t => do
    let c ← getThe Container
    let _ ← (c.payload t : Except Error (List UInt8))
    return none
  | .start => do
    let c ← getThe Container
    let _ ← (c.dataStart : Except Error Nat)
    return none

namespace AnyCall

def call : AnyCall → Call (Option Answer)
  | .query q => q.call
  | .write call => (fun () => none) <$> call.call

/--
Make a call, after which the disk is brought up to date.
-/
def perform (call : AnyCall) (s : Container × Disk)
    : Except Error (Option Answer) × (Container × Disk) :=
  let (r, c) := exec call.call s.1
  (r, (c, s.1.sync c s.2))

/--
Whether a container moves on also when it refuses the call.
-/
def Shifts (c : Container) : AnyCall → Prop
  | .query (.index .descriptor) =>
    c.current = .metadata ∧ c.recordsDone = c.recordCount ∧ c.awaitsValue = false
  | .write (.descriptor _) => c.current = .metadata
  | .write (.payload _) => c.current ≠ .data
  | _ => False

end AnyCall

namespace Container

/--
The output with zeros behind it, from `offset` up to `target`.
-/
def filledTo (o : Output) (offset target : Nat) : Output :=
  if offset < target then o.push (List.replicate (target - offset) 0) else o

/--
The container once it has moved to the data section. A container that is read cannot write the zeros
before it, and then does not locate it either.
-/
def startedData (c : Container) : Container :=
  let start := alignUp c.offset c.alignment
  if c.current = .data then c
  else
    match c.medium with
    | .created o => { c with
        medium := .created (filledTo o c.offset start)
        offset := max c.offset start
        current := .data
        dataStart? := some start }
    | .opened _ _ => { c with
        current := .data
        dataStart? := if c.offset < start then c.dataStart? else some start }

/--
What is left of a container that refuses a call.
-/
def remnant (c : Container) : AnyCall → Container
  | .query (.index .descriptor) => c.leftRecords
  | .write (.descriptor _) => c.leftMetadata
  | .write (.payload _) => c.startedData
  | _ => c

/--
The container `c'` is `c` but for the section and the start of the data, and zeros that have been
written up to that.
-/
structure MovedOn (c c' : Container) : Prop where
  same : c' = { c with
    medium := c'.medium
    offset := c'.offset
    current := c'.current
    dataStart? := c'.dataStart? }
  current : c.current.rank ≤ c'.current.rank
  opened : c.isCreated = false → c'.medium = c.medium ∧ c'.offset = c.offset
  created : ∀ o, c.medium = .created o → ∃ o' zeros, c'.medium = .created o' ∧
    o'.file = o.file ∧ o'.image = o.image ++ List.replicate zeros 0 ∧ c'.offset = c.offset + zeros

variable {c c' : Container} {d d' : Disk} {e : Error}

theorem exec_appendEncoded_eq_error {key : String} {type : ValueType} {value : List UInt8}
    (h : exec (appendEncoded key type value) c = (.error e, c')) : c' = c := by
  unfold appendEncoded at h
  rw [exec_bind_of_ok (exec_get c)] at h
  rcases exec_expect_eq_error h with hkept | h
  . exact hkept
  . refine Intact.eq_of_error ?_ h
    exact (onlyWrites_pushString _).intact_bind <| (onlyWrites_push _).intact_bind <|
      (onlyWrites_push _).intact_bind (intact_modify _)

theorem exec_appendRecord_eq_error {key : String} {value : MetaValue}
    (h : exec (appendRecord key value) c = (.error e, c')) : c' = c := by
  unfold appendRecord at h
  rw [exec_bind_eq_error_iff] at h
  rcases h with h | ⟨_, _, hencode, h⟩
  . rw [exec_lift_eq_iff] at h
    exact h.2.symm
  . rw [exec_lift_eq_iff] at hencode
    rw [hencode.2]
    exact exec_appendEncoded_eq_error h

theorem exec_appendDescriptor_eq_error {t : Descriptor}
    (h : exec (appendDescriptor t) c = (.error e, c')) : c' = c.leftMetadata := by
  unfold appendDescriptor at h
  rw [exec_bind_of_ok (exec_modify _ c)] at h
  change exec _ c.leftMetadata = _ at h
  rw [exec_bind_of_ok (exec_get _)] at h
  -- from here on nothing changes unless all checks are passed
  rcases exec_expect_eq_error h with hkept | h
  . exact hkept
  rcases exec_guard_eq_error h with hkept | h
  . exact hkept
  rcases exec_guard_eq_error h with hkept | h
  . exact hkept
  split at h
  . rcases exec_guard_eq_error h with hkept | h
    . exact hkept
    . exact exec_finishDescriptor_eq_error h
  . exact exec_finishDescriptor_eq_error h

theorem exec_startData_snd (c : Container) : (exec startData c).2 = c.startedData := by
  unfold startData startedData
  rw [exec_bind_of_ok (exec_get c)]
  by_cases hs : c.current = .data
  . rw [if_neg (by simp [hs]), if_pos hs, exec_pure]
  . rw [if_pos hs, if_neg hs]
    dsimp only
    rw [exec_bind_of_ok (exec_modify _ c), exec_bind, exec_padTo_eq]
    by_cases hlt : c.offset < alignUp c.offset c.alignment
    . rw [if_pos hlt, if_neg (Nat.not_lt.2 (alignUp_sub_le c.offset c.alignment))]
      cases hm : c.medium with
      | opened file data =>
        rw [exec_push_of_opened (by simp [isCreated])]
        simp only [if_pos hlt]
      | created o =>
        rw [exec_push_of_created (c := { c with medium := .created o, current := .data }) rfl,
          List.length_replicate]
        dsimp only [filledTo]
        rw [exec_modify, wrote, if_pos hlt, Nat.max_eq_right (Nat.le_of_lt hlt),
          Nat.add_sub_of_le (Nat.le_of_lt hlt)]
    . rw [if_neg hlt]
      cases hm : c.medium with
      | opened file data =>
        simp only [if_neg hlt]
        rw [exec_modify]
      | created o =>
        dsimp only [filledTo]
        rw [exec_modify, if_neg hlt, Nat.max_eq_left (Nat.not_lt.1 hlt)]

theorem exec_appendPayload_eq_error {bytes : List UInt8}
    (h : exec (appendPayload bytes) c = (.error e, c')) : c' = c.startedData := by
  rw [← exec_startData_snd]
  unfold appendPayload at h
  rw [exec_bind_eq_error_iff] at h
  rcases h with h | ⟨_, c₁, hstart, h⟩
  . rw [h]
  rw [hstart]
  rw [exec_bind_of_ok (exec_get c₁)] at h
  split at h
  . rw [exec_throw, Prod.mk.injEq] at h
    exact h.2.symm
  . rcases exec_guard_eq_error h with hkept | h
    . exact hkept
    rw [exec_bind_eq_error_iff] at h
    rcases h with h | ⟨_, _, hlocated, h⟩
    . rw [exec_lift_eq_iff] at h
      exact h.2.symm
    . rw [exec_lift_eq_iff] at hlocated
      rw [hlocated.2]
      rw [exec_bind_eq_error_iff] at h
      rcases h with h | ⟨_, c₂, hpad, h⟩
      . exact exec_padTo_eq_error h
      -- bytes are refused only where no zeros have been written either
      . obtain ⟨hopened, rfl⟩ := (onlyWrites_push bytes).intact_bind (intact_modify _) _ _ _ h
        exact eq_of_exec_padTo_of_opened hpad hopened

theorem medium_of_opened (h : c.isCreated = false) (o : Output) : c.medium ≠ .created o := by
  intro hm
  rw [isCreated_of_medium hm] at h
  simp at h

theorem startedData_of_data (hs : c.current = .data) : c.startedData = c := by
  unfold startedData
  rw [if_pos hs]

theorem current_startedData (c : Container) : c.startedData.current = .data := by
  unfold startedData
  split
  . next hs => exact hs
  . split
    . rfl
    . rfl

theorem movedOn_refl (c : Container) : c.MovedOn c :=
  ⟨rfl, Nat.le_refl _, fun _ => ⟨rfl, rfl⟩, fun o hm => ⟨o, 0, hm, rfl, by simp, rfl⟩⟩

/--
A container in which only the section is another one has moved on.
-/
theorem movedOn_current {current : Section} (h : c.current.rank ≤ current.rank)
    : c.MovedOn { c with current } :=
  ⟨rfl, h, fun _ => ⟨rfl, rfl⟩, fun o hm => ⟨o, 0, hm, rfl, by simp, rfl⟩⟩

theorem movedOn_startedData (c : Container) : c.MovedOn c.startedData := by
  by_cases hs : c.current = .data
  . rw [startedData_of_data hs]
    exact c.movedOn_refl
  cases hm : c.medium with
  | opened file data =>
    simp only [startedData, hm, if_neg hs]
    refine ⟨rfl, c.current.rank_le_data, fun _ => ⟨hm.symm, rfl⟩, ?_⟩
    intro o hcreated
    rw [hm] at hcreated
    simp at hcreated
  | created o =>
    simp only [startedData, hm, if_neg hs]
    refine ⟨rfl, c.current.rank_le_data, ?_, ?_⟩
    . intro hopened
      exact absurd hm (medium_of_opened hopened o)
    . intro o' ho'
      rw [hm, Medium.created.injEq] at ho'
      subst ho'
      refine ⟨_, alignUp c.offset c.alignment - c.offset, rfl, ?_⟩
      unfold filledTo
      split
      . next hlt => exact ⟨rfl, rfl, by dsimp only; omega⟩
      . next hge =>
        rw [Nat.sub_eq_zero_of_le (Nat.not_lt.1 hge), Nat.max_eq_left (Nat.not_lt.1 hge)]
        exact ⟨rfl, by simp, rfl⟩

/--
All that a refused call can leave: the container as it was, the container behind its metadata, or,
where a payload is refused, the container in the data section.
-/
theorem remnant_cases (c : Container) (call : AnyCall)
    : (¬ call.Shifts c ∧ c.remnant call = c) ∨
      (call.Shifts c ∧ (∀ bytes, call ≠ .write (.payload bytes)) ∧ c.current = .metadata ∧
        c.remnant call = { c with current := .descriptors }) ∨
      (call.Shifts c ∧ (∃ bytes, call = .write (.payload bytes)) ∧ c.current ≠ .data ∧
        c.remnant call = c.startedData) := by
  cases call with
  | query q =>
    cases q with
    | index call =>
      cases call with
      | descriptor =>
        by_cases h : c.current = .metadata ∧ c.recordsDone = c.recordCount ∧ c.awaitsValue = false
        . exact .inr (.inl ⟨h, by simp, h.1, if_pos (by simpa using h)⟩)
        . exact .inl ⟨h, if_neg (by simpa using h)⟩
      | key => exact .inl ⟨id, rfl⟩
      | value => exact .inl ⟨id, rfl⟩
      | align alignment => exact .inl ⟨id, rfl⟩
    | payload t => exact .inl ⟨id, rfl⟩
    | start => exact .inl ⟨id, rfl⟩
  | write call =>
    cases call with
    | descriptor t =>
      by_cases h : c.current = .metadata
      . exact .inr (.inl ⟨h, by simp, h, if_pos h⟩)
      . exact .inl ⟨h, if_neg h⟩
    | payload bytes =>
      by_cases h : c.current = .data
      . exact .inl ⟨not_not_intro h, startedData_of_data h⟩
      . exact .inr (.inr ⟨h, ⟨bytes, rfl⟩, h, rfl⟩)
    | record key value => exact .inl ⟨id, rfl⟩
    | encoded r => exact .inl ⟨id, rfl⟩
    | align alignment => exact .inl ⟨id, rfl⟩

theorem movedOn_remnant (c : Container) (call : AnyCall) : c.MovedOn (c.remnant call) := by
  rcases c.remnant_cases call with ⟨_, heq⟩ | ⟨_, _, hs, heq⟩ | ⟨_, _, _, heq⟩
  . rw [heq]
    exact c.movedOn_refl
  . rw [heq]
    apply movedOn_current
    rw [hs]
    exact Nat.zero_le _
  . rw [heq]
    exact c.movedOn_startedData

theorem remnant_eq_self_iff (c : Container) (call : AnyCall)
    : c.remnant call = c ↔ ¬ call.Shifts c := by
  have hkept (h : c.remnant call = c) : (c.remnant call).current = c.current :=
    congrArg Container.current h
  rcases c.remnant_cases call with ⟨hstays, heq⟩ | ⟨hshifts, _, hs, heq⟩ | ⟨hshifts, _, hs, heq⟩
  . simp [hstays, heq]
  . refine iff_of_false (fun h => ?_) (not_not_intro hshifts)
    have hcurrent := hkept h
    rw [heq, hs] at hcurrent
    simp at hcurrent
  . refine iff_of_false (fun h => ?_) (not_not_intro hshifts)
    have hcurrent := hkept h
    rw [heq, c.current_startedData] at hcurrent
    exact hs hcurrent.symm

/--
A container that has refused a call does not move on if it refuses it again.
-/
theorem not_shifts_remnant (c : Container) (call : AnyCall) : ¬ call.Shifts (c.remnant call) := by
  rcases c.remnant_cases call with ⟨hstays, heq⟩ | ⟨_, hother, _, heq⟩ | ⟨_, ⟨bytes, rfl⟩, _, heq⟩
  . rw [heq]
    exact hstays
  . rw [heq]
    rcases remnant_cases { c with current := .descriptors } call with h | ⟨_, _, hs, _⟩ | h
    . exact h.1
    . simp at hs
    . obtain ⟨_, ⟨bytes, hpayload⟩, _⟩ := h
      exact absurd hpayload (hother bytes)
  . rw [heq]
    exact not_not_intro c.current_startedData

theorem exec_payload (c : Container) (t : Descriptor)
    : exec (Query.payload t).call c = ((c.payload t).map fun _ => none, c) := by
  unfold Query.call
  dsimp only
  rw [exec_bind_of_ok (exec_get c)]
  cases c.payload t with
  | error e => rfl
  | ok bytes => rfl

theorem exec_start (c : Container)
    : exec Query.start.call c = (c.dataStart.map fun _ => none, c) := by
  unfold Query.call
  dsimp only
  rw [exec_bind_of_ok (exec_get c)]
  cases c.dataStart with
  | error e => rfl
  | ok start => rfl

theorem eq_remnant_of_error {call : AnyCall} (h : exec call.call c = (.error e, c'))
    : c' = c.remnant call := by
  cases call with
  | query q =>
    cases q with
    | index call =>
      have h := exec_map_eq_error_iff.1 h
      cases call with
      | key => exact exec_nextKey_eq_error (exec_map_eq_error_iff.1 h)
      | value => exact exec_readValue_eq_error (exec_map_eq_error_iff.1 h)
      | descriptor => exact exec_nextDescriptor_eq_error (exec_map_eq_error_iff.1 h)
      | align alignment => exact exec_setAlignment_eq_error (exec_map_eq_error_iff.1 h)
    | payload t => exact (congrArg Prod.snd ((c.exec_payload t).symm.trans h)).symm
    | start => exact (congrArg Prod.snd (c.exec_start.symm.trans h)).symm
  | write call =>
    have h := exec_map_eq_error_iff.1 h
    cases call with
    | record key value => exact exec_appendRecord_eq_error h
    | encoded r => exact exec_appendEncoded_eq_error h
    | descriptor t => exact exec_appendDescriptor_eq_error h
    | payload bytes => exact exec_appendPayload_eq_error h
    | align alignment => exact exec_setAlignment_eq_error h

/--
Where no bytes are written, none reach the disk.
-/
theorem sync_of_medium_eq (h : c'.medium = c.medium) (d : Disk) : c.sync c' d = d := by
  unfold sync
  rw [h]
  cases c.medium with
  | opened file data => rfl
  | created o =>
    have hnone : (o.image.take o.flushed).drop o.flushed = [] := by
      rw [List.drop_eq_nil_iff, List.length_take]
      exact Nat.min_le_left _ _
    dsimp only
    rw [hnone]
    exact if_pos rfl

theorem remnant_eq_current {call : AnyCall} (h : ∀ bytes, call ≠ .write (.payload bytes))
    : c.remnant call = { c with current := (c.remnant call).current } := by
  rcases c.remnant_cases call with ⟨_, heq⟩ | ⟨_, _, _, heq⟩ | ⟨_, ⟨bytes, hpayload⟩, _⟩
  . rw [heq]
  . rw [heq]
  . exact absurd hpayload (h bytes)

end Container

/--
A refused call leaves everything as it was, unless it moves the container on. Then only the section is
another one, and before a payload that is refused the file has been filled up to the data. No refusal
moves the container on twice.
-/
theorem movedOn_of_refused {call : AnyCall} {c c' : Container} {d d' : Disk} {e : Error}
    (h : call.perform (c, d) = (.error e, (c', d')))
    : ((c', d') = (c, d) ↔ ¬ call.Shifts c) ∧ c' = c.remnant call ∧ c.MovedOn c' ∧
        ¬ call.Shifts c' ∧
        ((∀ bytes, call ≠ .write (.payload bytes)) →
          c' = { c with current := c'.current } ∧ d' = d) := by
  unfold AnyCall.perform at h
  rcases hexec : exec call.call c with ⟨r, c₁⟩
  rw [hexec] at h
  dsimp only at h
  rw [Prod.mk.injEq, Prod.mk.injEq] at h
  obtain ⟨rfl, rfl, rfl⟩ := h
  have hremnant := Container.eq_remnant_of_error hexec
  have hsync (hmedium : c₁.medium = c.medium) : c.sync c₁ d = d :=
    Container.sync_of_medium_eq hmedium d
  refine ⟨?_, hremnant, ?_, ?_, ?_⟩
  . rw [← Container.remnant_eq_self_iff, ← hremnant, Prod.mk.injEq]
    exact and_iff_left_of_imp (fun hsame => hsync (congrArg Container.medium hsame))
  . rw [hremnant]
    exact c.movedOn_remnant call
  . rw [hremnant]
    exact c.not_shifts_remnant call
  . intro hother
    have hcurrent := Container.remnant_eq_current (c := c) hother
    rw [← hremnant] at hcurrent
    exact ⟨hcurrent, hsync (by rw [hcurrent])⟩

/--
A descriptor that is refused for its offset ends the metadata: the record that follows is refused,
too.
-/
theorem movedOn_of_refused_misaligned
    : ∃ c, (AnyCall.write (.descriptor ⟨"t", [1], .i8, 1⟩)).perform newContainer
          = (.error (.gguf (.misaligned "t" 1 32)), (c, newContainer.2)) ∧
        (c, newContainer.2) ≠ newContainer ∧
        c = { newContainer.1 with current := .descriptors } ∧
        (exec (Container.appendRecord "k" (.string "v")) c).1
          = .error (.gguf (.wrongSection "append_kv" .descriptors .metadata)) := by
  have hrefused : (AnyCall.write (.descriptor ⟨"t", [1], .i8, 1⟩)).perform newContainer
      = (.error (.gguf (.misaligned "t" 1 32)),
        ({ newContainer.1 with current := .descriptors }, newContainer.2)) := rfl
  obtain ⟨hsame, hremnant, _⟩ := movedOn_of_refused hrefused
  exact ⟨_, hrefused, fun h => hsame.1 h rfl, hremnant, rfl⟩

end TensorFiles.Gguf
