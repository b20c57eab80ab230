import TensorFiles.Proofs.Gguf.Container.Written
import TensorFiles.Proofs.Gguf.Reads
/-!
This module contains the reading of a container whose index is known: at every position the next
call of the plain loop gives what stands there and moves one position on. Changes of the alignment
may come between the calls, and count as long as the data section has not been reached.
-/

namespace TensorFiles.Gguf

/--
A record with the value that is read from it.
-/
structure ReadableRecord (limit : Nat) where
  record : EncodedRecord
  value : MetaValue
  reads_key : Reads Read.string (encodeString record.key) limit record.key
  reads_value : Reads (Read.u32 >>= Read.value)
    (LittleEndian.encode 4 record.type.code ++ record.value) limit value

structure ReadableDescriptor (limit : Nat) where
  descriptor : Descriptor
  reads : Reads Read.descriptor descriptor.encode limit descriptor

/--
What is left to read of an index.
-/
inductive Position (limit : Nat) where
  | key (records : List (ReadableRecord limit)) (descriptors : List (ReadableDescriptor limit))
  | value (r : ReadableRecord limit) (records : List (ReadableRecord limit))
      (descriptors : List (ReadableDescriptor limit))
  | descriptor (descriptors : List (ReadableDescriptor limit))
  | data

/--
A call on a container that is read.
-/
inductive ReadCall where
  | key
  | value
  | descriptor
  | align (alignment : Nat)

inductive Answer where
  | key (key? : Option String)
  | value (value : MetaValue)
  | descriptor (descriptor? : Option Descriptor)
  | aligned

namespace ReadCall

def call : ReadCall → Call Answer
  | .key => Answer.key <$> Container.nextKey
  | .value => Answer.value <$> Container.readValue
  | .descriptor => Answer.descriptor <$> Container.nextDescriptor
  | .align alignment => (fun () => Answer.aligned) <$> Container.setAlignment alignment

/--
Whether a call reads on.
-/
def moves : ReadCall → Bool
  | .align _ => false
  | _ => true

end ReadCall

/--
Make calls one after the other, whether or not they fail, with what each of them gives.
-/
def readAll : List ReadCall → Container → List (ReadCall × Except Error Answer) × Container
  | [], c => ([], c)
  | call :: calls, c =>
    let (r, c) := exec call.call c
    let (results, c) := readAll calls c
    ((call, r) :: results, c)

/--
The calls that read an index once, with their answers: a key and a value for every record and then a
key that is not there, then every descriptor and one that is not there.
-/
def plainLoop (records : List (String × MetaValue)) (descriptors : List Descriptor)
    : List (ReadCall × Answer) :=
  records.flatMap (fun r => [(.key, .key (some r.1)), (.value, .value r.2)]) ++
    (.key, .key none) :: descriptors.map (fun d => (.descriptor, .descriptor (some d))) ++
    [(.descriptor, .descriptor none)]

variable {limit : Nat}

namespace Position

/--
The bytes from a position up to the end of the index.
-/
def bytes : Position limit → List UInt8
  | .key records descriptors =>
    records.flatMap (·.record.encode) ++ descriptors.flatMap (·.descriptor.encode)
  | .value r records descriptors =>
    LittleEndian.encode 4 r.record.type.code ++ r.record.value ++
      (records.flatMap (·.record.encode) ++ descriptors.flatMap (·.descriptor.encode))
  | .descriptor descriptors => descriptors.flatMap (·.descriptor.encode)
  | .data => []

/--
The call that is next in the plain loop, its answer, and where it leads.
-/
def next? : Position limit → Option (ReadCall × Answer × Position limit)
  | .key [] descriptors => some (.key, .key none, .descriptor descriptors)
  | .key (r :: records) descriptors =>
    some (.key, .key (some r.record.key), .value r records descriptors)
  | .value r records descriptors => some (.value, .value r.value, .key records descriptors)
  | .descriptor [] => some (.descriptor, .descriptor none, .data)
  | .descriptor (d :: descriptors) =>
    some (.descriptor, .descriptor (some d.descriptor), .descriptor descriptors)
  | .data => none

/--
What is left of the plain loop.
-/
def script : Position limit → List (ReadCall × Answer)
  | .key records descriptors =>
    plainLoop (records.map (fun r => (r.record.key, r.value))) (descriptors.map (·.descriptor))
  | .value r records descriptors =>
    (.value, .value r.value) ::
      plainLoop (records.map (fun r => (r.record.key, r.value))) (descriptors.map (·.descriptor))
  | .descriptor descriptors =>
    descriptors.map (fun d => (.descriptor, .descriptor (some d.descriptor))) ++
      [(.descriptor, .descriptor none)]
  | .data => []

theorem script_of_next? {p p' : Position limit} {call : ReadCall} {answer : Answer}
    (h : p.next? = some (call, answer, p')) : p.script = (call, answer) :: p'.script := by
  cases p with
  | key records descriptors =>
    cases records with
    | nil =>
      simp only [next?, Option.some.injEq, Prod.mk.injEq] at h
      obtain ⟨rfl, rfl, rfl⟩ := h
      simp [script, plainLoop]
    | cons r records =>
      simp only [next?, Option.some.injEq, Prod.mk.injEq] at h
      obtain ⟨rfl, rfl, rfl⟩ := h
      simp [script, plainLoop]
  | value r records descriptors =>
    simp only [next?, Option.some.injEq, Prod.mk.injEq] at h
    obtain ⟨rfl, rfl, rfl⟩ := h
    rfl
  | descriptor descriptors =>
    cases descriptors with
    | nil =>
      simp only [next?, Option.some.injEq, Prod.mk.injEq] at h
      obtain ⟨rfl, rfl, rfl⟩ := h
      rfl
    | cons d descriptors =>
      simp only [next?, Option.some.injEq, Prod.mk.injEq] at h
      obtain ⟨rfl, rfl, rfl⟩ := h
      rfl
  | data => simp [next?] at h

theorem eq_data_of_next?_eq_none {p : Position limit} (h : p.next? = none) : p = .data := by
  unfold next? at h
  split at h
  . simp at h
  . simp at h
  . simp at h
  . simp at h
  . simp at h
  . rfl

/--
The section and the counts of a container at a position.
-/
def Counts (c : Container) : Position limit → Prop
  | .key records descriptors =>
    c.current = .metadata ∧ c.awaitsValue = false ∧
      c.recordsDone + records.length = c.recordCount ∧
      c.tensorsDone + descriptors.length = c.tensorCount
  | .value _ records descriptors =>
    c.current = .metadata ∧ c.awaitsValue = true ∧
      c.recordsDone + 1 + records.length = c.recordCount ∧
      c.tensorsDone + descriptors.length = c.tensorCount
  | .descriptor descriptors =>
    c.current = .descriptors ∧ c.tensorsDone + descriptors.length = c.tensorCount
  | .data => c.current = .data ∧ c.dataStart? = some (alignUp c.offset c.alignment)

end Position

/--
The container `c` has come to `p` in `data`, and the index ends at `stop`.
-/
structure Container.At (c : Container) (data : List UInt8) (stop : Nat) (p : Position limit)
    : Prop where
  content : c.data = .ok data
  limit : c.maxStringLen = limit
  stands : Stands data c.offset p.bytes
  stop : c.offset + p.bytes.length = stop
  counts : p.Counts c

namespace Container

variable {c : Container} {data : List UInt8} {stop : Nat}

theorem exec_advance {read : Read α} {bytes : List UInt8} {a : α}
    (h : Reads read bytes limit a) (hlimit : c.maxStringLen = limit) (hdata : c.data = .ok data)
    (hs : Stands data c.offset bytes)
    : exec (advance read) c = (.ok a, { c with offset := c.offset + bytes.length }) := by
  have hread := h ⟨data, c.offset, c.maxStringLen⟩ hlimit hs
  unfold exec at hread
  unfold advance
  rw [exec_bind_of_ok (exec_get c), hdata, exec_bind_of_ok (exec_lift _ c)]
  simp only [hread]
  rw [exec_bind_of_ok (exec_modify _ c), exec_pure]

theorem openData_of_reads {path : String} {file version tensors records : Nat}
    {config : CodecConfig} {bytes : List UInt8}
    (h : Reads Read.header bytes config.maxStringLen (version, tensors, records))
    (hs : Stands data 0 bytes)
    : openData path file data config
        = .ok {
            medium := .opened file data
            path
            offset := bytes.length
            alignment := defaultAlignment
            version
            maxStringLen := config.maxStringLen
            tensorCount := tensors
            recordCount := records } := by
  have hexec := exec_advance (c := {
    medium := .opened file data
    path
    alignment := defaultAlignment
    version := config.version
    maxStringLen := config.maxStringLen }) h rfl rfl hs
  rw [Nat.zero_add] at hexec
  unfold exec at hexec
  unfold openData
  simp only [hexec]
  rfl

section

variable {records : List (ReadableRecord limit)} {descriptors : List (ReadableDescriptor limit)}

theorem At.exec_nextKey {r : ReadableRecord limit}
    (h : c.At data stop (.key (r :: records) descriptors))
    : ∃ c', exec nextKey c = (.ok (some r.record.key), c') ∧
        c'.At data stop (.value r records descriptors) ∧ c'.alignment = c.alignment := by
  obtain ⟨hcontent, hlimit, hstands, hstop, hmeta, hawaits, hrecords, htensors⟩ := h
  have hbytes : (Position.key (r :: records) descriptors).bytes
      = encodeString r.record.key ++ (Position.value r records descriptors).bytes := by
    simp [Position.bytes, EncodedRecord.encode]
  rw [hbytes] at hstands hstop
  rw [List.length_append, ← Nat.add_assoc] at hstop
  rw [List.length_cons] at hrecords
  unfold nextKey
  rw [exec_bind_of_ok (exec_get c)]
  dsimp only [expectSection]
  rw [if_pos hmeta, exec_bind_of_ok (exec_lift _ c), if_neg (by simp [hawaits]),
    if_neg (by omega), exec_bind_of_ok (exec_advance r.reads_key hlimit hcontent hstands.left),
    exec_bind_of_ok (exec_modify _ _), exec_pure]
  refine ⟨_, rfl, ⟨hcontent, hlimit, hstands.right, hstop, ?_⟩, rfl⟩
  exact ⟨hmeta, rfl, by dsimp only; omega, htensors⟩

theorem At.exec_nextKey_nil (h : c.At data stop (.key [] descriptors))
    : ∃ c', exec nextKey c = (.ok none, c') ∧ c'.At data stop (.descriptor descriptors) ∧
        c'.alignment = c.alignment := by
  obtain ⟨hcontent, hlimit, hstands, hstop, hmeta, hawaits, hrecords, htensors⟩ := h
  rw [List.length_nil, Nat.add_zero] at hrecords
  unfold nextKey
  rw [exec_bind_of_ok (exec_get c)]
  dsimp only [expectSection]
  rw [if_pos hmeta, exec_bind_of_ok (exec_lift _ c), if_neg (by simp [hawaits]),
    if_pos hrecords, exec_bind_of_ok (exec_modify _ _), exec_pure]
  exact ⟨_, rfl, ⟨hcontent, hlimit, hstands, hstop, rfl, htensors⟩, rfl⟩

theorem At.exec_readValue {r : ReadableRecord limit}
    (h : c.At data stop (.value r records descriptors))
    : ∃ c', exec readValue c = (.ok r.value, c') ∧
        c'.At data stop (.key records descriptors) ∧ c'.alignment = c.alignment := by
  obtain ⟨hcontent, hlimit, hstands, hstop, hmeta, hawaits, hrecords, htensors⟩ := h
  have hbytes : (Position.value r records descriptors).bytes
      = LittleEndian.encode 4 r.record.type.code ++ r.record.value ++
        (Position.key records descriptors).bytes := rfl
  rw [hbytes] at hstands hstop
  rw [List.length_append, ← Nat.add_assoc] at hstop
  unfold readValue
  rw [exec_bind_of_ok (exec_get c)]
  dsimp only [expectSection]
  rw [if_pos hmeta, exec_bind_of_ok (exec_lift _ c), if_neg (by simp [hawaits]),
    exec_bind_of_ok (exec_advance r.reads_value hlimit hcontent hstands.left),
    exec_bind_of_ok (exec_modify _ _), exec_pure]
  exact ⟨_, rfl, ⟨hcontent, hlimit, hstands.right, hstop, hmeta, rfl, hrecords, htensors⟩, rfl⟩

theorem exec_nextDescriptor_of_eq (hs : c.current = .descriptors)
    (hlast : c.tensorsDone = c.tensorCount)
    : exec nextDescriptor c = (.ok none,
        { c with current := .data, dataStart? := some (alignUp c.offset c.alignment) }) := by
  unfold nextDescriptor
  rw [exec_bind_of_ok (exec_modify _ c), if_neg (by simp [hs]), exec_bind_of_ok (exec_get c)]
  dsimp only [expectSection]
  rw [if_pos hs, exec_bind_of_ok (exec_lift _ c), if_pos hlast, exec_bind_of_ok (exec_modify _ _),
    exec_pure]

theorem exec_nextDescriptor_of_ne (hs : c.current = .descriptors)
    (hmore : c.tensorsDone ≠ c.tensorCount)
    : exec nextDescriptor c
        = exec (do
            let d ← advance Read.descriptor
            modify fun c => { c with tensorsDone := c.tensorsDone + 1 }
            return some d) c := by
  unfold nextDescriptor
  rw [exec_bind_of_ok (exec_modify _ c), if_neg (by simp [hs]), exec_bind_of_ok (exec_get c)]
  dsimp only [expectSection]
  rw [if_pos hs, exec_bind_of_ok (exec_lift _ c), if_neg hmore]

theorem At.exec_nextDescriptor {d : ReadableDescriptor limit}
    (h : c.At data stop (.descriptor (d :: descriptors)))
    : ∃ c', exec nextDescriptor c = (.ok (some d.descriptor), c') ∧
        c'.At data stop (.descriptor descriptors) ∧ c'.alignment = c.alignment := by
  obtain ⟨hcontent, hlimit, hstands, hstop, hcurrent, htensors⟩ := h
  have hbytes : (Position.descriptor (d :: descriptors)).bytes
      = d.descriptor.encode ++ (Position.descriptor descriptors).bytes := rfl
  rw [hbytes] at hstands hstop
  rw [List.length_append, ← Nat.add_assoc] at hstop
  rw [List.length_cons] at htensors
  rw [exec_nextDescriptor_of_ne hcurrent (by omega),
    exec_bind_of_ok (exec_advance d.reads hlimit hcontent hstands.left),
    exec_bind_of_ok (exec_modify _ _), exec_pure]
  exact ⟨_, rfl, ⟨hcontent, hlimit, hstands.right, hstop, hcurrent, by dsimp only; omega⟩, rfl⟩

theorem At.exec_nextDescriptor_nil (h : c.At data stop (.descriptor [] : Position limit))
    : ∃ c', exec nextDescriptor c = (.ok none, c') ∧
        c'.At data stop (.data : Position limit) ∧ c'.alignment = c.alignment := by
  obtain ⟨hcontent, hlimit, hstands, hstop, hcurrent, htensors⟩ := h
  rw [List.length_nil, Nat.add_zero] at htensors
  rw [exec_nextDescriptor_of_eq hcurrent htensors]
  exact ⟨_, rfl, ⟨hcontent, hlimit, hstands, hstop, rfl, rfl⟩, rfl⟩

end

theorem At.exec_next {p p' : Position limit} {call : ReadCall} {answer : Answer}
    (h : c.At data stop p) (hnext : p.next? = some (call, answer, p'))
    : ∃ c', exec call.call c = (.ok answer, c') ∧ c'.At data stop p' ∧
        c'.alignment = c.alignment := by
  cases p with
  | key records descriptors =>
    cases records with
    | nil =>
      simp only [Position.next?, Option.some.injEq, Prod.mk.injEq] at hnext
      obtain ⟨rfl, rfl, rfl⟩ := hnext
      obtain ⟨c', hexec, hat⟩ := h.exec_nextKey_nil
      exact ⟨c', exec_map_of_ok hexec _, hat⟩
    | cons r records =>
      simp only [Position.next?, Option.some.injEq, Prod.mk.injEq] at hnext
      obtain ⟨rfl, rfl, rfl⟩ := hnext
      obtain ⟨c', hexec, hat⟩ := h.exec_nextKey
      exact ⟨c', exec_map_of_ok hexec _, hat⟩
  | value r records descriptors =>
    simp only [Position.next?, Option.some.injEq, Prod.mk.injEq] at hnext
    obtain ⟨rfl, rfl, rfl⟩ := hnext
    obtain ⟨c', hexec, hat⟩ := h.exec_readValue
    exact ⟨c', exec_map_of_ok hexec _, hat⟩
  | descriptor descriptors =>
    cases descriptors with
    | nil =>
      simp only [Position.next?, Option.some.injEq, Prod.mk.injEq] at hnext
      obtain ⟨rfl, rfl, rfl⟩ := hnext
      obtain ⟨c', hexec, hat⟩ := h.exec_nextDescriptor_nil
      exact ⟨c', exec_map_of_ok hexec _, hat⟩
    | cons d descriptors =>
      simp only [Position.next?, Option.some.injEq, Prod.mk.injEq] at hnext
      obtain ⟨rfl, rfl, rfl⟩ := hnext
      obtain ⟨c', hexec, hat⟩ := h.exec_nextDescriptor
      exact ⟨c', exec_map_of_ok hexec _, hat⟩
  | data => simp [Position.next?] at hnext

theorem At.of_alignment {p : Position limit} (h : c.At data stop p) (hp : p ≠ .data)
    (alignment : Nat) : { c with alignment }.At data stop p := by
  refine ⟨h.content, h.limit, h.stands, h.stop, ?_⟩
  have hcounts := h.counts
  cases p with
  | key records descriptors => exact hcounts
  | value r records descriptors => exact hcounts
  | descriptor descriptors => exact hcounts
  | data => exact absurd rfl hp

theorem At.exec_setAlignment {p : Position limit} (h : c.At data stop p) (alignment : Nat)
    : (exec (setAlignment alignment) c).2.At data stop p := by
  unfold setAlignment
  by_cases hpow : isPowerOfTwo alignment = true
  . rw [if_neg (by simp [hpow]), exec_bind_of_ok (exec_get c)]
    by_cases hdata : c.current = .data
    . rw [if_pos hdata, exec_bind_of_error (exec_throw _ c)]
      exact h
    . rw [if_neg hdata, exec_modify]
      apply h.of_alignment
      intro hp
      subst hp
      exact hdata h.counts.1
  . rw [if_pos (by simp [hpow]), exec_bind_of_error (exec_throw _ c)]
    exact h

/--
Whatever changes of the alignment come between them, the calls of the plain loop give what stands in
the index.
-/
theorem At.readAll {p : Position limit} (h : c.At data stop p) {calls : List ReadCall}
    (hcalls : calls.filter ReadCall.moves = p.script.map (·.1))
    : (readAll calls c).1.filter (·.1.moves) = p.script.map (fun s => (s.1, .ok s.2)) ∧
        (readAll calls c).2.At data stop (.data : Position limit) := by
  induction calls generalizing c p with
  | nil =>
    cases hnext : p.next? with
    | none =>
      rw [Position.eq_data_of_next?_eq_none hnext] at h ⊢
      exact ⟨rfl, h⟩
    | some next =>
      obtain ⟨call, answer, p'⟩ := next
      rw [Position.script_of_next? hnext] at hcalls
      simp at hcalls
  | cons call calls ih =>
    unfold Gguf.readAll
    cases hmoves : call.moves with
    | true =>
      rw [List.filter_cons_of_pos hmoves] at hcalls
      cases hnext : p.next? with
      | none =>
        rw [Position.eq_data_of_next?_eq_none hnext] at hcalls
        simp [Position.script] at hcalls
      | some next =>
        obtain ⟨call', answer, p'⟩ := next
        rw [Position.script_of_next? hnext] at hcalls ⊢
        rw [List.map_cons, List.cons.injEq] at hcalls
        obtain ⟨rfl, hcalls⟩ := hcalls
        obtain ⟨c', hexec, hat, _⟩ := h.exec_next hnext
        obtain ⟨hresults, hend⟩ := ih hat hcalls
        rw [hexec]
        dsimp only
        rw [List.filter_cons, if_pos hmoves, hresults, List.map_cons]
        exact ⟨rfl, hend⟩
    | false =>
      rw [List.filter_cons_of_neg (by simp [hmoves])] at hcalls
      dsimp only
      rw [List.filter_cons, if_neg (by simp [hmoves])]
      cases call with
      | align alignment =>
        apply ih _ hcalls
        unfold ReadCall.call
        rw [exec_map]
        exact h.exec_setAlignment alignment
      | key => simp [ReadCall.moves] at hmoves
      | value => simp [ReadCall.moves] at hmoves
      | descriptor => simp [ReadCall.moves] at hmoves

end Container

end TensorFiles.Gguf
