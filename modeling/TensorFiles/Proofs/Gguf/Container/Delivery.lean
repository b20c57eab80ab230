import TensorFiles.Gguf.Load
import TensorFiles.Proofs.Gguf.Container.Refused
/-!
This module contains what the calls on the index of a container deliver, in whatever order they are
made and however many of them fail. Each record and each descriptor is delivered once and in its turn,
so that nothing is delivered that is not ahead for the loop that makes the calls in order.
-/

namespace TensorFiles.Gguf

namespace Answer

def key? : Answer → Option String
  | .key k? => k?
  | _ => none

def value? : Answer → Option MetaValue
  | .value v => some v
  | _ => none

def descriptor? : Answer → Option Descriptor
  | .descriptor d? => d?
  | _ => none

/--
Whether an answer holds a key, a value or a descriptor.
-/
def delivers : Answer → Bool
  | .key key? => key?.isSome
  | .value _ => true
  | .descriptor d? => d?.isSome
  | .aligned => false

/--
The answer that comes after `seen` is not early: a value comes after its key, and a descriptor after
the values of all `records`.
-/
def InTurn (records : Nat) (seen : List Answer) : Answer → Prop
  | .value _ => (seen.filterMap value?).length < (seen.filterMap key?).length
  | .descriptor (some _) => (seen.filterMap value?).length = records
  | _ => True

/--
The call that follows an answer in the plain loop, unless the loop has come to its end.
-/
def followed? : Answer → Option ReadCall
  | .key (some _) => some .value
  | .value _ => some .key
  | .key none => some .descriptor
  | .descriptor (some _) => some .descriptor
  | .descriptor none => none
  | .aligned => none

end Answer

/--
Make queries one after the other, whether or not they fail, with the answers of the index.
-/
def answersTo : List Query → Container → List Answer
  | [], _ => []
  | q :: queries, c =>
    match exec q.call c with
    | (.ok (some answer), c) => answer :: answersTo queries c
    | (.ok none, c) => answersTo queries c
    | (.error _, c) => answersTo queries c

/--
The answers of the plain loop from `call` on: a key and a value as long as there are any, then the
descriptors. The loop ends at its first error, and at the latest after `most` calls.
-/
def loopFrom : (most : Nat) → ReadCall → Container → List Answer
  | 0, _, _ => []
  | most + 1, call, c =>
    match exec call.call c with
    | (.error _, _) => []
    | (.ok answer, c) =>
      match answer.followed? with
      | none => [answer]
      | some next => answer :: loopFrom most next c

/--
Each of `answers`, which come after `seen`, comes in its turn.
-/
def Orderly (records : Nat) (seen answers : List Answer) : Prop :=
  ∀ before answer after, answers = before ++ answer :: after →
    answer.InTurn records (seen ++ before)

section

variable {α : Type} {records : Nat} {seen answers : List Answer}

theorem orderly_nil : Orderly records seen [] := by
  intro before answer after h
  simp at h

theorem Orderly.cons {answer : Answer} (hfirst : answer.InTurn records seen)
    (hrest : Orderly records (seen ++ [answer]) answers)
    : Orderly records seen (answer :: answers) := by
  intro before answer' after h
  cases before with
  | nil =>
    rw [List.nil_append, List.cons.injEq] at h
    rw [← h.1, List.append_nil]
    exact hfirst
  | cons first before =>
    rw [List.cons_append, List.cons.injEq] at h
    have hin := hrest before answer' after h.2
    rw [List.append_assoc, List.singleton_append, h.1] at hin
    exact hin

theorem Orderly.left {more : List Answer} (h : Orderly records seen (answers ++ more))
    : Orderly records seen answers := by
  intro before answer after hsplit
  apply h before answer (after ++ more)
  rw [hsplit, List.append_assoc, List.cons_append]

theorem filterMap_filter_delivers {f : Answer → Option α}
    (h : ∀ answer : Answer, answer.delivers = false → f answer = none) (answers : List Answer)
    : (answers.filter Answer.delivers).filterMap f = answers.filterMap f := by
  rw [List.filterMap_filter]
  apply List.filterMap_congr
  intro answer _
  cases hd : answer.delivers with
  | true => rfl
  | false => exact (h answer hd).symm

theorem Answer.eq_none_of_not_delivers {answer : Answer} (h : answer.delivers = false)
    : answer.key? = none ∧ answer.value? = none ∧ answer.descriptor? = none := by
  cases answer with
  | key k? => exact ⟨by simpa [delivers, key?] using h, rfl, rfl⟩
  | value v => simp [delivers] at h
  | descriptor d? => exact ⟨rfl, rfl, by simpa [delivers, descriptor?] using h⟩
  | aligned => exact ⟨rfl, rfl, rfl⟩

theorem Answer.inTurn_of_not_delivers {answer : Answer} (h : answer.delivers = false)
    : answer.InTurn records seen := by
  cases answer with
  | key key? => trivial
  | value value => simp [delivers] at h
  | descriptor d? =>
    cases d? with
    | none => trivial
    | some d => simp [delivers] at h
  | aligned => trivial

theorem Answer.inTurn_filter_iff {answer : Answer}
    : answer.InTurn records (seen.filter delivers) ↔ answer.InTurn records seen := by
  have hkeys := filterMap_filter_delivers (fun _ h => (eq_none_of_not_delivers h).1) seen
  have hvalues := filterMap_filter_delivers (fun _ h => (eq_none_of_not_delivers h).2.1) seen
  unfold InTurn
  rw [hkeys, hvalues]

/--
Answers that deliver nothing do not change whose turn it is.
-/
theorem Orderly.of_filter (h : Orderly records [] (answers.filter Answer.delivers))
    : Orderly records [] answers := by
  intro before answer after hsplit
  cases hd : answer.delivers with
  | false => exact Answer.inTurn_of_not_delivers hd
  | true =>
    have hin := h (before.filter Answer.delivers) answer (after.filter Answer.delivers) (by
      rw [hsplit, List.filter_append, List.filter_cons_of_pos hd])
    exact Answer.inTurn_filter_iff.1 hin

end

/--
What a read delivers at `offset`, with what comes after it; nothing if it fails.
-/
def deliver {α : Type} (data : List UInt8) (limit : Nat) (read : Read α) (answer : α → Answer)
    (rest : Nat → List Answer) (offset : Nat) : List Answer :=
  match exec read ⟨data, offset, limit⟩ with
  | (.ok a, cursor) => answer a :: rest cursor.offset
  | (.error _, _) => []

/--
The descriptors from `offset` on, up to the first that cannot be read.
-/
def descriptorsAhead (data : List UInt8) (limit : Nat) : (left : Nat) → Nat → List Answer
  | 0 => fun _ => []
  | left + 1 =>
    deliver data limit Read.descriptor (.descriptor ∘ some) (descriptorsAhead data limit left)

/--
The value at `offset`, with what comes after it.
-/
def valueAhead (data : List UInt8) (limit : Nat) (rest : Nat → List Answer) : Nat → List Answer :=
  deliver data limit (Read.u32 >>= Read.value) .value rest

/--
The keys and the values from `offset` on, and `tensors` descriptors after the last of them.
-/
def recordsAhead (data : List UInt8) (limit tensors : Nat) : (left : Nat) → Nat → List Answer
  | 0 => descriptorsAhead data limit tensors
  | left + 1 =>
    deliver data limit Read.string (.key ∘ some)
      (valueAhead data limit (recordsAhead data limit tensors left))

section

variable {α : Type} {data : List UInt8} {limit offset : Nat} {records : Nat} {seen : List Answer}

theorem deliver_of_ok {read : Read α} {answer : α → Answer} {rest : Nat → List Answer} {a : α}
    {stop : Nat} (h : exec read ⟨data, offset, limit⟩ = (.ok a, ⟨data, stop, limit⟩))
    : deliver data limit read answer rest offset = answer a :: rest stop := by
  unfold deliver
  rw [h]

theorem deliver_eq_nil {least : Nat} {read : Read α} {answer : α → Answer}
    {rest : Nat → List Answer} (hread : Delimited least read) (hroom : offset ≤ data.length)
    (h : ∀ a stop, exec read ⟨data, offset, limit⟩ ≠ (.ok a, ⟨data, stop, limit⟩))
    : deliver data limit read answer rest offset = [] := by
  unfold deliver
  split
  . next a cursor hexec =>
    obtain ⟨bytes, _, _, rfl, _⟩ := hread _ cursor a hroom hexec
    exact absurd hexec (h a _)
  . rfl

theorem orderly_deliver {read : Read α} {answer : α → Answer} {rest : Nat → List Answer}
    (hfirst : ∀ a, (answer a).InTurn records seen)
    (hrest : ∀ a offset, Orderly records (seen ++ [answer a]) (rest offset))
    : Orderly records seen (deliver data limit read answer rest offset) := by
  unfold deliver
  split
  . next a cursor _ => exact .cons (hfirst a) (hrest a cursor.offset)
  . exact orderly_nil

theorem orderly_descriptorsAhead {left : Nat} (h : (seen.filterMap Answer.value?).length = records)
    : Orderly records seen (descriptorsAhead data limit left offset) := by
  induction left generalizing seen offset with
  | zero => exact orderly_nil
  | succ left ih =>
    refine orderly_deliver ?_ ?_
    . exact fun _ => h
    . intro d offset
      apply ih
      rw [List.filterMap_append, List.length_append]
      exact h

theorem orderly_recordsAhead {tensors left : Nat}
    (hkeys : (seen.filterMap Answer.key?).length = (seen.filterMap Answer.value?).length)
    (hleft : (seen.filterMap Answer.value?).length + left = records)
    : Orderly records seen (recordsAhead data limit tensors left offset) := by
  induction left generalizing seen offset with
  | zero => exact orderly_descriptorsAhead hleft
  | succ left ih =>
    refine orderly_deliver ?_ ?_
    . exact fun _ => trivial
    . intro key offset
      refine orderly_deliver ?_ ?_
      . intro value
        unfold Answer.InTurn
        simp [Answer.value?, Answer.key?, List.filterMap_cons, hkeys]
      . intro value offset
        apply ih
        . simp [Answer.value?, Answer.key?, List.filterMap_cons, hkeys]
        . rw [← hleft]
          simp [Answer.value?, List.filterMap_cons, Nat.add_assoc, Nat.add_comm 1]

end

namespace Container

variable {c c' : Container} {data : List UInt8} {call : ReadCall} {answer : Answer} {e : Error}

/--
What holds of a container that reads `data` as long as no writing call has been made on it.
-/
structure Reading (data : List UInt8) (c : Container) : Prop extends Opened data c where
  records : c.recordsDone + c.awaitsValue.toNat ≤ c.recordCount
  tensors : c.tensorsDone ≤ c.tensorCount
  left : c.current ≠ .metadata → c.recordsDone = c.recordCount ∧ c.awaitsValue = false

/--
The keys, values and descriptors that are still to be had.
-/
def ahead (data : List UInt8) (c : Container) : List Answer :=
  let recordsFrom := recordsAhead data c.maxStringLen (c.tensorCount - c.tensorsDone)
  if c.awaitsValue then
    valueAhead data c.maxStringLen (recordsFrom (c.recordCount - c.recordsDone - 1)) c.offset
  else
    recordsFrom (c.recordCount - c.recordsDone) c.offset

theorem ahead_eq_recordsAhead (h : c.awaitsValue = false)
    : c.ahead data = recordsAhead data c.maxStringLen (c.tensorCount - c.tensorsDone)
        (c.recordCount - c.recordsDone) c.offset := by
  unfold ahead
  rw [h]
  rfl

theorem ahead_eq_valueAhead (h : c.awaitsValue = true)
    : c.ahead data = valueAhead data c.maxStringLen
        (recordsAhead data c.maxStringLen (c.tensorCount - c.tensorsDone)
          (c.recordCount - c.recordsDone - 1)) c.offset := by
  unfold ahead
  rw [h]
  rfl

theorem ahead_eq_descriptorsAhead (hawaits : c.awaitsValue = false)
    (hlast : c.recordsDone = c.recordCount)
    : c.ahead data
        = descriptorsAhead data c.maxStringLen (c.tensorCount - c.tensorsDone) c.offset := by
  rw [ahead_eq_recordsAhead hawaits, hlast, Nat.sub_self]
  rfl

/--
What is ahead does not depend on the section.
-/
theorem ahead_leftRecords (c : Container) : c.leftRecords.ahead data = c.ahead data := by
  rw [c.leftRecords_eq]
  rfl

theorem Reading.leftRecords (h : c.Reading data) : c.leftRecords.Reading data := by
  unfold Container.leftRecords
  split
  . next hleft =>
    have hawaits : c.awaitsValue = false := by simpa using hleft.2.2
    exact ⟨⟨h.content, h.room⟩, h.records, h.tensors, fun _ => ⟨hleft.2.1, hawaits⟩⟩
  . exact h

/--
Where a descriptor can be delivered, all records have been.
-/
theorem Reading.all_records (h : c.Reading data) (hcurrent : c.leftRecords.current = .descriptors)
    : c.recordsDone = c.recordCount ∧ c.awaitsValue = false := by
  have hleft := h.leftRecords.left (by rw [hcurrent]; simp)
  rw [c.leftRecords_eq] at hleft
  exact hleft

/--
As long as records are left, a key is ahead first.
-/
theorem Reading.ahead_eq_deliver_key (h : c.Reading data) (hawaits : c.awaitsValue = false)
    (hmore : c.recordsDone ≠ c.recordCount)
    : c.ahead data = deliver data c.maxStringLen Read.string (.key ∘ some)
        (valueAhead data c.maxStringLen (recordsAhead data c.maxStringLen
          (c.tensorCount - c.tensorsDone) (c.recordCount - c.recordsDone - 1))) c.offset := by
  have hrecords := h.records
  obtain ⟨left, hleft⟩ : ∃ left, c.recordCount - c.recordsDone = left + 1 :=
    Nat.exists_eq_succ_of_ne_zero (by omega)
  rw [ahead_eq_recordsAhead hawaits, hleft]
  rfl

/--
Behind the records, a descriptor is ahead first as long as any are left.
-/
theorem Reading.ahead_eq_deliver_descriptor (h : c.Reading data)
    (hcurrent : c.leftRecords.current = .descriptors) (hmore : c.tensorsDone ≠ c.tensorCount)
    : c.ahead data = deliver data c.maxStringLen Read.descriptor (.descriptor ∘ some)
        (descriptorsAhead data c.maxStringLen (c.tensorCount - c.tensorsDone - 1)) c.offset := by
  have htensors := h.tensors
  obtain ⟨hlast, hawaits⟩ := h.all_records hcurrent
  obtain ⟨left, hleft⟩ : ∃ left, c.tensorCount - c.tensorsDone = left + 1 :=
    Nat.exists_eq_succ_of_ne_zero (by omega)
  rw [ahead_eq_descriptorsAhead hawaits hlast, hleft]
  rfl

theorem Reading.of_answered (h : c.Reading data) (hanswered : Answered data c call answer c')
    : c'.Reading data := by
  obtain ⟨hopened, _⟩ := h.toOpened.of_answered hanswered
  cases hanswered with
  | lastKey hcurrent hawaits hlast =>
    exact ⟨hopened, h.records, h.tensors, fun _ => ⟨hlast, hawaits⟩⟩
  | key hcurrent hawaits hmore hread =>
    have hrecords := h.records
    rw [hawaits, Bool.toNat_false] at hrecords
    refine ⟨hopened, ?_, h.tensors, fun hleft => absurd hcurrent hleft⟩
    dsimp only [Bool.toNat_true]
    omega
  | value hcurrent hawaits hread =>
    have hrecords := h.records
    rw [hawaits, Bool.toNat_true] at hrecords
    exact ⟨hopened, hrecords, h.tensors, fun hleft => absurd hcurrent hleft⟩
  | lastDescriptor hcurrent hlast =>
    exact ⟨hopened, h.records, h.tensors, fun _ => h.all_records hcurrent⟩
  | descriptor hcurrent hmore hread =>
    have htensors := h.tensors
    refine ⟨hopened, h.records, ?_, fun _ => h.all_records hcurrent⟩
    dsimp only
    omega
  | aligned hpower hcurrent => exact ⟨hopened, h.records, h.tensors, h.left⟩

/--
A call delivers what is ahead first, or nothing.
-/
theorem Reading.ahead_of_answered (h : c.Reading data)
    (hanswered : Answered data c call answer c')
    : [answer].filter Answer.delivers ++ c'.ahead data = c.ahead data := by
  cases hanswered with
  | lastKey hcurrent hawaits hlast => rfl
  | key hcurrent hawaits hmore hread =>
    rw [h.ahead_eq_deliver_key hawaits hmore, deliver_of_ok hread, ahead_eq_valueAhead rfl]
    rfl
  | value hcurrent hawaits hread =>
    rw [ahead_eq_valueAhead hawaits, ahead_eq_recordsAhead rfl, Nat.sub_sub]
    exact (deliver_of_ok hread).symm
  | lastDescriptor hcurrent hlast => rfl
  | descriptor hcurrent hmore hread =>
    obtain ⟨hlast, hawaits⟩ := h.all_records hcurrent
    rw [h.ahead_eq_deliver_descriptor hcurrent hmore, deliver_of_ok hread, Nat.sub_sub,
      ahead_eq_descriptorsAhead (by exact hawaits) (by exact hlast)]
    rfl
  | aligned hpower hcurrent => rfl

/--
Whether the plain loop can come to the call with the container in this state.
-/
def Due (c : Container) : ReadCall → Prop
  | .key => c.current = .metadata ∧ c.awaitsValue = false
  | .value => c.current = .metadata ∧ c.awaitsValue = true
  | .descriptor => c.current = .descriptors
  | .align _ => False

/--
The number of calls that the plain loop makes from the call on, unless one of them fails.
-/
def callsLeft (c : Container) : ReadCall → Nat
  | .key => 2 * (c.recordCount - c.recordsDone) + (c.tensorCount - c.tensorsDone) + 2
  | .value => 2 * (c.recordCount - c.recordsDone) + (c.tensorCount - c.tensorsDone) + 1
  | .descriptor => c.tensorCount - c.tensorsDone + 1
  | .align _ => 0

theorem leftRecords_of_ne (h : c.current ≠ .metadata) : c.leftRecords = c := by
  unfold leftRecords
  rw [if_neg (fun hleft => h hleft.1)]

/--
If the loop's next call fails, nothing can be delivered any more.
-/
theorem Reading.ahead_eq_nil_of_error (h : c.Reading data) (hdue : c.Due call)
    (herror : exec call.call c = (.error e, c')) : c.ahead data = [] := by
  have hnone {answer : Answer} {c'' : Container} (hanswered : Answered data c call answer c'')
      : False := by
    have hok := herror.symm.trans (h.toOpened.exec_call_eq_ok_iff.2 hanswered)
    simp at hok
  cases call with
  | key =>
    obtain ⟨hcurrent, hawaits⟩ := hdue
    have hmore : c.recordsDone ≠ c.recordCount :=
      fun hlast => hnone (.lastKey hcurrent hawaits hlast)
    rw [h.ahead_eq_deliver_key hawaits hmore]
    exact deliver_eq_nil delimited_string h.room
      fun key stop hread => hnone (.key hcurrent hawaits hmore hread)
  | value =>
    obtain ⟨hcurrent, hawaits⟩ := hdue
    rw [ahead_eq_valueAhead hawaits]
    exact deliver_eq_nil delimited_typedValue h.room
      fun value stop hread => hnone (.value hcurrent hawaits hread)
  | descriptor =>
    have hcurrent : c.leftRecords.current = .descriptors := by
      rw [leftRecords_of_ne (by rw [hdue]; simp)]
      exact hdue
    have hmore : c.tensorsDone ≠ c.tensorCount :=
      fun hlast => hnone (.lastDescriptor hcurrent hlast)
    rw [h.ahead_eq_deliver_descriptor hcurrent hmore]
    exact deliver_eq_nil delimited_descriptor h.room
      fun d stop hread => hnone (.descriptor hcurrent hmore hread)
  | align alignment => exact hdue.elim

/--
The loop goes on to a call that is due, and there are fewer calls left.
-/
theorem Reading.due_followed (h : c.Reading data) (hanswered : Answered data c call answer c')
    {next : ReadCall} (hnext : answer.followed? = some next)
    : c'.Due next ∧ c'.callsLeft next < c.callsLeft call := by
  cases hanswered with
  | lastKey hcurrent hawaits hlast =>
    obtain rfl : ReadCall.descriptor = next := Option.some.inj hnext
    refine ⟨rfl, ?_⟩
    dsimp only [callsLeft]
    omega
  | key hcurrent hawaits hmore hread =>
    obtain rfl : ReadCall.value = next := Option.some.inj hnext
    exact ⟨⟨hcurrent, rfl⟩, Nat.lt_succ_self _⟩
  | value hcurrent hawaits hread =>
    have hrecords := h.records
    rw [hawaits, Bool.toNat_true] at hrecords
    obtain rfl : ReadCall.key = next := Option.some.inj hnext
    refine ⟨⟨hcurrent, rfl⟩, ?_⟩
    dsimp only [callsLeft]
    omega
  | lastDescriptor hcurrent hlast => simp [Answer.followed?] at hnext
  | descriptor hcurrent hmore hread =>
    have htensors := h.tensors
    obtain rfl : ReadCall.descriptor = next := Option.some.inj hnext
    refine ⟨rfl, ?_⟩
    dsimp only [callsLeft]
    omega
  | aligned hpower hcurrent => simp [Answer.followed?] at hnext

/--
The loop ends where nothing is ahead.
-/
theorem Reading.ahead_eq_nil_of_end (h : c.Reading data)
    (hanswered : Answered data c call answer c') (hdue : c.Due call)
    (hend : answer.followed? = none) : c'.ahead data = [] := by
  cases hanswered with
  | lastDescriptor hcurrent hlast =>
    obtain ⟨hrecords, hawaits⟩ := h.all_records hcurrent
    rw [ahead_eq_descriptorsAhead (by exact hawaits) (by exact hrecords)]
    dsimp only
    rw [hlast, Nat.sub_self]
    rfl
  | lastKey | key | value | descriptor => simp [Answer.followed?] at hend
  | aligned => exact hdue.elim

theorem Reading.filter_loopFrom {most : Nat} (h : c.Reading data) (hdue : c.Due call)
    (hmost : c.callsLeft call ≤ most)
    : (loopFrom most call c).filter Answer.delivers = c.ahead data := by
  induction most generalizing c call with
  | zero =>
    -- the loop always has a call left that is due
    cases call with
    | key => simp [callsLeft] at hmost
    | value => simp [callsLeft] at hmost
    | descriptor => simp [callsLeft] at hmost
    | align alignment => exact hdue.elim
  | succ most ih =>
    unfold loopFrom
    rcases hexec : exec call.call c with ⟨e | answer, c'⟩
    . exact (h.ahead_eq_nil_of_error hdue hexec).symm
    -- an answer takes away from what is ahead what it delivers
    have hanswered := h.toOpened.exec_call_eq_ok_iff.1 hexec
    have hahead := h.ahead_of_answered hanswered
    rw [← hahead]
    dsimp only
    split
    . next hend => rw [h.ahead_eq_nil_of_end hanswered hdue hend, List.append_nil]
    . next next hnext =>
      obtain ⟨hdue', hless⟩ := h.due_followed hanswered hnext
      rw [← ih (h.of_answered hanswered) hdue' (by omega), ← List.filter_append]
      rfl

/--
The section of the descriptors is all that a query can change if it fails.
-/
theorem eq_or_leftRecords_of_error {q : Query} (herror : exec q.call c = (.error e, c'))
    : c' = c ∨ c' = c.leftRecords := by
  cases q with
  | index call => exact exec_call_eq_error (exec_map_eq_error_iff.1 herror)
  | payload t => exact .inl (congrArg Prod.snd ((c.exec_payload t).symm.trans herror)).symm
  | start => exact .inl (congrArg Prod.snd (c.exec_start.symm.trans herror)).symm

theorem Reading.of_error (h : c.Reading data) {q : Query}
    (herror : exec q.call c = (.error e, c')) : c'.Reading data ∧ c'.ahead data = c.ahead data := by
  rcases eq_or_leftRecords_of_error herror with rfl | rfl
  . exact ⟨h, rfl⟩
  . exact ⟨h.leftRecords, c.ahead_leftRecords⟩

theorem exec_query_eq_ok {q : Query} {answer? : Option Answer}
    (hexec : exec q.call c = (.ok answer?, c'))
    : (∃ call answer, q = .index call ∧ answer? = some answer ∧
        exec call.call c = (.ok answer, c')) ∨ (answer? = none ∧ c' = c) := by
  cases q with
  | index call =>
    obtain ⟨answer, hcall, rfl⟩ := exec_map_eq_ok_iff.1 hexec
    exact .inl ⟨call, answer, rfl, rfl, hcall⟩
  | payload t =>
    rw [exec_payload, Prod.mk.injEq, map_eq_ok_iff] at hexec
    obtain ⟨⟨_, _, hnone⟩, hkept⟩ := hexec
    exact .inr ⟨hnone.symm, hkept.symm⟩
  | start =>
    rw [exec_start, Prod.mk.injEq, map_eq_ok_iff] at hexec
    obtain ⟨⟨_, _, hnone⟩, hkept⟩ := hexec
    exact .inr ⟨hnone.symm, hkept.symm⟩

/--
Whatever is asked, what is delivered is what has been ahead first.
-/
theorem Reading.filter_answersTo (h : c.Reading data) (queries : List Query)
    : (answersTo queries c).filter Answer.delivers <+: c.ahead data := by
  -- a query that fails keeps what is ahead, one that is answered delivers the first of it or nothing
  induction queries generalizing c with
  | nil => exact List.nil_prefix
  | cons q queries ih =>
    unfold answersTo
    rcases hexec : exec q.call c with ⟨e | answer?, c'⟩
    . obtain ⟨hreading, hahead⟩ := h.of_error hexec
      rw [← hahead]
      exact ih hreading
    rcases exec_query_eq_ok hexec with ⟨call, answer, rfl, rfl, hcall⟩ | ⟨rfl, rfl⟩
    . have hanswered := h.toOpened.exec_call_eq_ok_iff.1 hcall
      have hrest := ih (h.of_answered hanswered)
      change ([answer] ++ answersTo queries c').filter _ <+: _
      rw [← h.ahead_of_answered hanswered, List.filter_append]
      exact (List.prefix_append_right_inj _).2 hrest
    . exact ih h

theorem reading_of_openData {path : String} {file : Nat} {config : CodecConfig}
    (h : openData path file data config = .ok c)
    : c.Reading data ∧ c.current = .metadata ∧ c.awaitsValue = false ∧ c.recordsDone = 0 ∧
        c.tensorsDone = 0 := by
  obtain ⟨version, tensors, records, bytes, hstands, _, rfl⟩ := openData_eq_ok h
  have hroom := hstands.length_le
  rw [Nat.zero_add] at hroom
  exact ⟨⟨⟨rfl, hroom⟩, Nat.zero_le _, Nat.zero_le _, fun hleft => absurd rfl hleft⟩, rfl, rfl, rfl,
    rfl⟩

theorem exists_openData_of_ofFile {d : Disk} {path : String} {config : CodecConfig}
    (h : Container.ofFile d path config = .ok c)
    : ∃ file data, openData path file data config = .ok c := by
  unfold Container.ofFile at h
  split at h
  . simp at h
  . next file data hmap => exact ⟨file, data, h⟩

end Container

/--
What is delivered, whatever the calls are and in whatever order they are made, is what the plain loop
delivers first, and it is delivered in turn.
-/
theorem prefix_loopFrom {d : Disk} {path : String} {config : CodecConfig} {c : Container}
    (hopen : Container.ofFile d path config = .ok c) (queries : List Query) {most : Nat}
    (hmost : 2 * c.recordCount + c.tensorCount + 2 ≤ most)
    : (answersTo queries c).filterMap Answer.key?
          <+: (loopFrom most .key c).filterMap Answer.key? ∧
        (answersTo queries c).filterMap Answer.value?
          <+: (loopFrom most .key c).filterMap Answer.value? ∧
        (answersTo queries c).filterMap Answer.descriptor?
          <+: (loopFrom most .key c).filterMap Answer.descriptor? ∧
        Orderly c.recordCount [] (answersTo queries c) := by
  obtain ⟨file, data, hdata⟩ := Container.exists_openData_of_ofFile hopen
  obtain ⟨hreading, hcurrent, hawaits, hrecords, htensors⟩ := Container.reading_of_openData hdata
  have hloop : (loopFrom most .key c).filter Answer.delivers = c.ahead data := by
    have hdue : c.Due .key := ⟨hcurrent, hawaits⟩
    apply hreading.filter_loopFrom hdue
    rw [Container.callsLeft, hrecords, htensors]
    exact hmost
  have hprefix := hreading.filter_answersTo queries
  have horderly : Orderly c.recordCount [] (c.ahead data) := by
    rw [Container.ahead_eq_recordsAhead hawaits, hrecords]
    exact orderly_recordsAhead rfl (Nat.zero_add _)
  have hkind {α : Type} {f : Answer → Option α}
      (hf : ∀ answer : Answer, answer.delivers = false → f answer = none)
      : (answersTo queries c).filterMap f <+: (loopFrom most .key c).filterMap f := by
    rw [← filterMap_filter_delivers hf, ← filterMap_filter_delivers hf (loopFrom _ _ _), hloop]
    exact hprefix.filterMap f
  refine ⟨hkind fun _ h => (Answer.eq_none_of_not_delivers h).1,
    hkind fun _ h => (Answer.eq_none_of_not_delivers h).2.1,
    hkind fun _ h => (Answer.eq_none_of_not_delivers h).2.2, Orderly.of_filter ?_⟩
  obtain ⟨rest, hrest⟩ := hprefix
  rw [← hrest] at horderly
  exact horderly.left

/--
A file that ends before the second of the two descriptors it declares.
-/
def shortFile : List UInt8 :=
  encodeHeader 3 2 1 ++ EncodedRecord.encode ⟨"k", .string, encodeString "v"⟩ ++
    Descriptor.encode ⟨"t", [2], .i8, 0⟩

/--
The container that reads this file.
-/
def shortContainer : Container := {
  medium := .opened 0 shortFile
  path := "s"
  offset := headerLength
  alignment := defaultAlignment
  version := 3
  maxStringLen := ({} : CodecConfig).maxStringLen
  tensorCount := 2
  recordCount := 1 }

/--
Queries of which most are refused.
-/
def hastyQueries : List Query :=
  [.index .descriptor, .index .value, .index .key, .index .key, .start, .index .value,
   .index (.align 3), .index .descriptor, .index .key, .index .descriptor]

theorem prefix_loopFrom_hastyQueries
    : Container.ofFile ⟨[(["s"], .file 0 shortFile)], 1⟩ "s" {} = .ok shortContainer ∧
        2 * shortContainer.recordCount + shortContainer.tensorCount + 2 ≤ 6 ∧
        answersTo hastyQueries shortContainer
          = [.key (some "k"), .value (.string "v"), .descriptor (some ⟨"t", [2], .i8, 0⟩)] ∧
        ["k"] <+: (loopFrom 6 .key shortContainer).filterMap Answer.key? ∧
        [.string "v"] <+: (loopFrom 6 .key shortContainer).filterMap Answer.value? ∧
        [⟨"t", [2], .i8, 0⟩] <+: (loopFrom 6 .key shortContainer).filterMap Answer.descriptor? := by
  have hopen : Container.ofFile ⟨[(["s"], .file 0 shortFile)], 1⟩ "s" {} = .ok shortContainer := rfl
  have hanswers : answersTo hastyQueries shortContainer
      = [.key (some "k"), .value (.string "v"), .descriptor (some ⟨"t", [2], .i8, 0⟩)] := by
    cbv
  obtain ⟨hkeys, hvalues, hdescriptors, _⟩ :=
    prefix_loopFrom hopen hastyQueries (Nat.le_refl 6)
  rw [hanswers] at hkeys hvalues hdescriptors
  exact ⟨hopen, Nat.le_refl 6, hanswers, hkeys, hvalues, hdescriptors⟩

end TensorFiles.Gguf
