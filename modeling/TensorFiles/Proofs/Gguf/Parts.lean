import TensorFiles.Proofs.Gguf.Container.Steps
import TensorFiles.Proofs.Gguf.Load
/-!
This module contains files as they are put together: a header, metadata records, descriptors, and
whatever is behind them. Reading the index of such a file is a fold over the values of its parts. It
can only fail over an alignment that a record declares.
-/

namespace TensorFiles.Gguf

variable {α : Type} {limit : Nat}

namespace Read

/--
A metadata record: its key and its value.
-/
def record : Read (String × MetaValue) := do
  let key ← string
  let value ← u32 >>= value
  return (key, value)

end Read

theorem delimited_record : Delimited 13 Read.record := by
  apply delimited_string.bind (n := 5) _ (by decide)
  intro key
  exact delimited_typedValue.bind_pure (key, ·)

/--
Some bytes and what they are read as, wherever they stand.
-/
structure Piece (read : Read α) (limit : Nat) where
  bytes : List UInt8
  value : α
  reads : Reads read bytes limit value

namespace Piece

/--
A record that has been written and is read back.
-/
def ofRecord (r : ReadableRecord limit) : Piece Read.record limit where
  bytes := r.record.encode
  value := (r.record.key, r.value)
  reads := by
    unfold EncodedRecord.encode
    rw [List.append_assoc]
    exact r.reads_key.bind (r.reads_value.bind_pure (r.record.key, ·))

def ofDescriptor (d : ReadableDescriptor limit) : Piece Read.descriptor limit where
  bytes := d.descriptor.encode
  value := d.descriptor
  reads := d.reads

end Piece

/--
The alignment that is in force after a metadata record, if it does not declare an invalid one.
-/
def alignmentAfter? (alignment : Nat) (record : String × MetaValue) : Option Nat :=
  if record.1 = alignmentKey then
    match record.2.asAlignment with
    | .ok declared => if isPowerOfTwo declared then some declared else none
    | .error _ => none
  else
    some alignment

/--
The alignment that is in force after metadata records.
-/
def declaredAlignment? (alignment : Nat) (records : List (String × MetaValue)) : Option Nat :=
  records.foldlM alignmentAfter? alignment

theorem declaredAlignment?_cons {alignment alignment' : Nat} {record : String × MetaValue}
    {records : List (String × MetaValue)}
    : declaredAlignment? alignment (record :: records) = some alignment' ↔ ∃ next,
        alignmentAfter? alignment record = some next ∧
        declaredAlignment? next records = some alignment' := by
  unfold declaredAlignment?
  rw [List.foldlM_cons, Option.bind_eq_bind, Option.bind_eq_some_iff]

/--
A declared alignment is what a metadata record can hold.
-/
theorem declaredAlignment?_valid {alignment alignment' : Nat}
    {records : List (String × MetaValue)}
    (h : declaredAlignment? alignment records = some alignment')
    (hpower : isPowerOfTwo alignment = true) (hlt : alignment < halfWordBound)
    : isPowerOfTwo alignment' = true ∧ alignment' < halfWordBound := by
  induction records generalizing alignment with
  | nil =>
    rw [declaredAlignment?, List.foldlM_nil, Option.pure_def, Option.some.injEq] at h
    rw [← h]
    exact ⟨hpower, hlt⟩
  | cons record records ih =>
    obtain ⟨next, hnext, hrest⟩ := declaredAlignment?_cons.1 h
    unfold alignmentAfter? at hnext
    split at hnext
    . split at hnext
      . next declared hdeclared =>
        obtain ⟨t, _, hu32, hone, rfl⟩ := MetaValue.asAlignment_eq_ok_iff.1 hdeclared
        split at hnext
        . next hvalid =>
          rw [Option.some.injEq] at hnext
          rw [← hnext] at hrest
          exact ih hrest hvalid (decode_lt_of_u32 hu32 hone)
        . simp at hnext
      . simp at hnext
    . rw [Option.some.injEq] at hnext
      rw [← hnext] at hrest
      exact ih hrest hpower hlt

theorem declaredAlignment?_filter (alignment : Nat) (records : List (String × MetaValue))
    : declaredAlignment? alignment (records.filter (·.1 = alignmentKey))
        = declaredAlignment? alignment records := by
  induction records generalizing alignment with
  | nil => rfl
  | cons record records ih =>
    unfold declaredAlignment? at ih ⊢
    by_cases hkey : record.1 = alignmentKey
    . rw [List.filter_cons_of_pos (by simpa using hkey), List.foldlM_cons, List.foldlM_cons]
      simp only [ih]
    . have hkept : alignmentAfter? alignment record = some alignment := if_neg hkey
      rw [List.filter_cons_of_neg (by simpa using hkey), ih, List.foldlM_cons, hkept]
      rfl

/--
A file, part by part. Its header counts the records and the descriptors.
-/
structure Parts (limit : Nat) where
  header : Piece Read.header limit
  records : List (Piece Read.record limit)
  descriptors : List (Piece Read.descriptor limit)
  rest : List UInt8
  counts : header.value.2 = (descriptors.length, records.length)

namespace Parts

variable (p : Parts limit)

/--
The bytes up to the end of the last descriptor.
-/
def index : List UInt8 :=
  p.header.bytes ++ (p.records.flatMap (·.bytes) ++ p.descriptors.flatMap (·.bytes))

def file : List UInt8 := p.index ++ p.rest

/--
The container once the header has been read.
-/
def opened (path : String) (file : Nat) : Container := {
  medium := .opened file p.file
  path
  offset := p.header.bytes.length
  alignment := defaultAlignment
  version := p.header.value.1
  maxStringLen := limit
  tensorCount := p.descriptors.length
  recordCount := p.records.length }

/--
The container once the index has been read, with the alignment that is in force by then.
-/
def located (path : String) (file alignment : Nat) : Container := {
  medium := .opened file p.file
  path
  offset := p.index.length
  alignment
  current := .data
  version := p.header.value.1
  maxStringLen := limit
  tensorCount := p.descriptors.length
  recordCount := p.records.length
  recordsDone := p.records.length
  tensorsDone := p.descriptors.length
  dataStart? := some (alignUp p.index.length alignment) }

end Parts

namespace Container

variable {c c' : Container} {data : List UInt8}

/--
A record is read by one call for its key and one for its value.
-/
theorem exec_record_of_piece (r : Piece Read.record limit) {offset : Nat}
    (hs : Stands data offset r.bytes)
    : ∃ stop, stop ≤ data.length ∧
        exec Read.string ⟨data, offset, limit⟩ = (.ok r.value.1, ⟨data, stop, limit⟩) ∧
        exec (Read.u32 >>= Read.value) ⟨data, stop, limit⟩
          = (.ok r.value.2, ⟨data, offset + r.bytes.length, limit⟩) := by
  obtain ⟨key, _, hkey, hrest⟩ := exec_bind_eq_ok (r.reads.exec_eq hs)
  obtain ⟨bytes, _, hstands, rfl, _⟩ := delimited_string _ _ key hs.offset_le hkey
  obtain ⟨value, cursor, hvalue, hend⟩ := exec_bind_eq_ok hrest
  obtain ⟨hrecord, rfl⟩ := exec_pure_eq_ok_iff.1 hend
  rw [← hrecord]
  exact ⟨_, hstands.length_le, hkey, hvalue⟩

/--
A record that declares an alignment puts it into force before the next one is read.
-/
theorem exec_declare_eq_ok_iff {r : String × MetaValue} {rest : Call α} {a : α}
    (hcurrent : c.current ≠ .data)
    : exec (if r.1 = alignmentKey then do
          let alignment ← (r.2.asAlignment : Except Error Nat)
          setAlignment alignment
          rest
        else
          rest) c = (.ok a, c') ↔ ∃ alignment,
        alignmentAfter? c.alignment r = some alignment ∧
        exec rest { c with alignment } = (.ok a, c') := by
  unfold alignmentAfter?
  split
  . cases hdeclared : r.2.asAlignment with
    | error e =>
      rw [exec_bind_of_error (exec_lift _ c)]
      simp
    | ok declared =>
      rw [exec_bind_of_ok (exec_lift _ c)]
      dsimp only
      split
      . next hpower =>
        rw [exec_bind_of_ok (exec_setAlignment_eq_ok_iff.2 ⟨hpower, hcurrent, rfl⟩)]
        simp
      . next hpower =>
        constructor
        . intro h
          obtain ⟨_, _, hset, _⟩ := exec_bind_eq_ok h
          exact absurd (exec_setAlignment_eq_ok_iff.1 hset).1 hpower
        . rintro ⟨_, hnone, _⟩
          simp at hnone
  . simp

theorem exec_readRecords_eq_ok_iff {records : List (Piece Read.record limit)}
    {t t' : Table MetaValue} (hdata : c.data = .ok data) (hlimit : c.maxStringLen = limit)
    (hs : Stands data c.offset (records.flatMap (·.bytes))) (hcurrent : c.current = .metadata)
    (hawaits : c.awaitsValue = false) (hcount : c.recordsDone + records.length = c.recordCount)
    : exec (readRecords records.length t) c = (.ok t', c') ↔ ∃ alignment,
        declaredAlignment? c.alignment (records.map (·.value)) = some alignment ∧
        t' = t.insertAll (records.map (·.value)) ∧
        c' = { c with
          current := .descriptors
          offset := c.offset + (records.flatMap (·.bytes)).length
          alignment
          recordsDone := c.recordCount } := by
  have hroom := hs.offset_le
  induction records generalizing c t with
  | nil =>
    have hlast : exec nextKey c = (.ok none, { c with current := .descriptors }) :=
      (exec_nextKey_eq_ok_iff hdata hroom).2 ⟨hcurrent, hawaits, .inl ⟨hcount, rfl, rfl⟩⟩
    unfold readRecords
    rw [List.length_nil, exec_bind_of_ok hlast, exec_pure_eq_ok_iff]
    have hdone : c.recordCount = c.recordsDone := hcount.symm
    constructor
    . rintro ⟨rfl, rfl⟩
      exact ⟨c.alignment, rfl, rfl, by rw [hdone]; rfl⟩
    . rintro ⟨alignment, halign, rfl, rfl⟩
      rw [List.map_nil, declaredAlignment?, List.foldlM_nil, Option.pure_def, Option.some.injEq]
        at halign
      rw [hdone, halign.symm]
      exact ⟨rfl, rfl⟩
  | cons r records ih =>
    rw [List.length_cons] at hcount
    obtain ⟨stop, hstop, hkey, hvalue⟩ := exec_record_of_piece r hs.left
    have hkey : exec nextKey c
        = (.ok (some r.value.1), { c with offset := stop, awaitsValue := true }) :=
      (exec_nextKey_eq_ok_iff hdata hroom).2
        ⟨hcurrent, hawaits, .inr ⟨by omega, _, stop, by rw [hlimit, hkey], rfl, rfl⟩⟩
    have hvalue : exec readValue { c with offset := stop, awaitsValue := true }
        = (.ok r.value.2, { c with
            offset := c.offset + r.bytes.length
            awaitsValue := false
            recordsDone := c.recordsDone + 1 }) :=
      (exec_readValue_eq_ok_iff (c := { c with offset := stop, awaitsValue := true })
        hdata hstop).2 ⟨hcurrent, rfl, _, by dsimp only; rw [hlimit, hvalue], rfl⟩
    have hrest (alignment : Nat) := ih (c := { c with
      offset := c.offset + r.bytes.length
      alignment
      awaitsValue := false
      recordsDone := c.recordsDone + 1 }) (t := t.insert r.value.1 r.value.2)
      hdata hlimit hs.right hcurrent rfl (by dsimp only; omega) hs.right.offset_le
    rw [List.length_cons]
    unfold readRecords
    rw [exec_bind_of_ok hkey]
    dsimp only
    rw [exec_bind_of_ok hvalue, List.map_cons, List.flatMap_cons, List.length_append,
      ← Nat.add_assoc]
    simp only [declaredAlignment?_cons, hawaits]
    refine (exec_declare_eq_ok_iff (by simp [hcurrent])).trans ?_
    constructor
    . rintro ⟨next, hnext, h⟩
      obtain ⟨alignment, halign, htable, hc'⟩ := (hrest next).1 h
      exact ⟨alignment, ⟨next, hnext, halign⟩, htable, hc'⟩
    . rintro ⟨alignment, ⟨next, hnext, halign⟩, htable, hc'⟩
      exact ⟨next, hnext, (hrest next).2 ⟨alignment, halign, htable, hc'⟩⟩

/--
What succeeds in reading gives a piece of the data.
-/
theorem exists_piece {least : Nat} {read : Read α} (hread : Delimited least read)
    {offset stop : Nat} {a : α} (hroom : offset ≤ data.length)
    (h : exec read ⟨data, offset, limit⟩ = (.ok a, ⟨data, stop, limit⟩))
    : ∃ p : Piece read limit, p.value = a ∧ Stands data offset p.bytes ∧
        stop = offset + p.bytes.length := by
  obtain ⟨bytes, _, hstands, hcursor, hreads⟩ := hread _ _ a hroom h
  rw [Cursor.mk.injEq] at hcursor
  exact ⟨⟨bytes, a, hreads limit (Nat.le_refl limit)⟩, rfl, hstands, hcursor.2.1⟩

theorem exists_pieces_of_readRecords {left : Nat} {table table' : Table MetaValue}
    (hdata : c.data = .ok data) (hroom : c.offset ≤ data.length) (hlimit : c.maxStringLen = limit)
    (hcurrent : c.current = .metadata) (hleft : c.recordsDone + left = c.recordCount)
    (h : exec (readRecords left table) c = (.ok table', c'))
    : ∃ records : List (Piece Read.record limit), records.length = left ∧
        Stands data c.offset (records.flatMap (·.bytes)) := by
  induction left generalizing c table with
  | zero => exact ⟨[], rfl, stands_nil hroom⟩
  | succ left ih =>
    unfold readRecords at h
    obtain ⟨key?, c₁, hkey, h⟩ := exec_bind_eq_ok h
    obtain ⟨_, _, hnext⟩ := (exec_nextKey_eq_ok_iff hdata hroom).1 hkey
    rcases hnext with ⟨hlast, -, -⟩ | ⟨_, key, stop, hstring, rfl, rfl⟩
    . omega
    . dsimp only at h
      obtain ⟨value, c₂, hvalue, h⟩ := exec_bind_eq_ok h
      have hroom₁ : stop ≤ data.length := (delimited_string.stop_le hroom hstring).2
      obtain ⟨_, _, stop', hbytes, rfl⟩ := (exec_readValue_eq_ok_iff
        (c := { c with offset := stop, awaitsValue := true }) hdata hroom₁).1 hvalue
      have hrecord : exec Read.record ⟨data, c.offset, limit⟩
          = (.ok (key, value), ⟨data, stop', limit⟩) := by
        rw [← hlimit]
        unfold Read.record
        rw [exec_bind_of_ok hstring, exec_bind_of_ok hbytes, exec_pure]
      obtain ⟨r, hr, hstands, rfl⟩ := exists_piece delimited_record hroom hrecord
      obtain ⟨alignment, _, hrest⟩ :=
        (exec_declare_eq_ok_iff (r := (key, value)) (by simp [hcurrent])).1 h
      obtain ⟨records, hlength, hrecords⟩ := ih (c := { c with
        offset := c.offset + r.bytes.length
        alignment
        awaitsValue := false
        recordsDone := c.recordsDone + 1 }) hdata hstands.length_le hlimit hcurrent
        (by dsimp only; omega) hrest
      exact ⟨r :: records, congrArg (· + 1) hlength, hstands.join hrecords⟩

theorem exists_pieces_of_readMetadata {metadata : Table MetaValue}
    (hdata : c.data = .ok data) (hroom : c.offset ≤ data.length) (hlimit : c.maxStringLen = limit)
    (hcurrent : c.current = .metadata) (hawaits : c.awaitsValue = false) (hdone : c.recordsDone = 0)
    (h : exec readMetadata c = (.ok metadata, c'))
    : ∃ (records : List (Piece Read.record limit)) (alignment : Nat),
        records.length = c.recordCount ∧ Stands data c.offset (records.flatMap (·.bytes)) ∧
        c' = { c with
          current := .descriptors
          offset := c.offset + (records.flatMap (·.bytes)).length
          alignment
          recordsDone := c.recordCount } := by
  unfold readMetadata at h
  rw [exec_bind_of_ok (exec_get c), hdone, Nat.sub_zero] at h
  have hleft : c.recordsDone + c.recordCount = c.recordCount := by
    rw [hdone, Nat.zero_add]
  obtain ⟨records, hlength, hstands⟩ :=
    exists_pieces_of_readRecords hdata hroom hlimit hcurrent hleft h
  rw [← hlength] at h hleft
  obtain ⟨alignment, _, _, hc'⟩ :=
    (exec_readRecords_eq_ok_iff hdata hlimit hstands hcurrent hawaits (hleft.trans hlength)).1 h
  exact ⟨records, alignment, hlength, hstands, hc'⟩

theorem exists_pieces_of_readDescriptorsLeft {left : Nat} {ds : List Descriptor}
    (hdata : c.data = .ok data) (hroom : c.offset ≤ data.length) (hlimit : c.maxStringLen = limit)
    (hcurrent : c.current = .descriptors) (hleft : c.tensorsDone + left = c.tensorCount)
    (h : exec (readDescriptorsLeft left) c = (.ok ds, c'))
    : ∃ descriptors : List (Piece Read.descriptor limit), descriptors.length = left ∧
        Stands data c.offset (descriptors.flatMap (·.bytes)) := by
  induction left generalizing c c' ds with
  | zero => exact ⟨[], rfl, stands_nil hroom⟩
  | succ left ih =>
    unfold readDescriptorsLeft at h
    obtain ⟨d?, c₁, hnext, h⟩ := exec_bind_eq_ok h
    obtain ⟨_, hnext⟩ := (exec_nextDescriptor_eq_ok_iff hdata hroom).1 hnext
    rcases hnext with ⟨hlast, -, -⟩ | ⟨_, t, stop, hread, rfl, rfl⟩
    . omega
    . dsimp only at h
      obtain ⟨rest, c₂, hrest, _⟩ := exec_bind_eq_ok h
      rw [hlimit] at hread
      obtain ⟨d, hd, hstands, rfl⟩ := exists_piece delimited_descriptor hroom hread
      obtain ⟨descriptors, hlength, hdescriptors⟩ := ih (c := { c with
        current := .descriptors
        offset := c.offset + d.bytes.length
        tensorsDone := c.tensorsDone + 1 }) hdata hstands.length_le hlimit rfl
        (by dsimp only; omega) hrest
      exact ⟨d :: descriptors, congrArg (· + 1) hlength, hstands.join hdescriptors⟩

theorem exists_pieces_of_readDescriptors {ds : List Descriptor}
    (hdata : c.data = .ok data) (hroom : c.offset ≤ data.length) (hlimit : c.maxStringLen = limit)
    (hcurrent : c.current = .descriptors) (hdone : c.tensorsDone = 0)
    (h : exec readDescriptors c = (.ok ds, c'))
    : ∃ descriptors : List (Piece Read.descriptor limit), descriptors.length = c.tensorCount ∧
        Stands data c.offset (descriptors.flatMap (·.bytes)) := by
  unfold readDescriptors at h
  rw [exec_bind_of_ok (exec_get c), hdone, Nat.sub_zero] at h
  apply exists_pieces_of_readDescriptorsLeft hdata hroom hlimit hcurrent _ h
  rw [hdone, Nat.zero_add]

theorem exec_readDescriptorsLeft_of_pieces {descriptors : List (Piece Read.descriptor limit)}
    (hdata : c.data = .ok data) (hlimit : c.maxStringLen = limit)
    (hs : Stands data c.offset (descriptors.flatMap (·.bytes))) (hcurrent : c.current = .descriptors)
    (hcount : c.tensorsDone + descriptors.length = c.tensorCount)
    : exec (readDescriptorsLeft descriptors.length) c = (.ok (descriptors.map (·.value)),
        { c with
          current := .data
          offset := c.offset + (descriptors.flatMap (·.bytes)).length
          tensorsDone := c.tensorCount
          dataStart? :=
            some (alignUp (c.offset + (descriptors.flatMap (·.bytes)).length) c.alignment) }) := by
  induction descriptors generalizing c with
  | nil =>
    have hlast : exec nextDescriptor c = (.ok none,
        { c with current := .data, dataStart? := some (alignUp c.offset c.alignment) }) :=
      exec_nextDescriptor_of_eq hcurrent hcount
    have hdone : c.tensorCount = c.tensorsDone := hcount.symm
    unfold readDescriptorsLeft
    rw [List.length_nil, exec_bind_of_ok hlast, exec_pure, hdone]
    rfl
  | cons d descriptors ih =>
    rw [List.length_cons] at hcount
    have hnext : exec nextDescriptor c = (.ok (some d.value), { c with
        offset := c.offset + d.bytes.length
        tensorsDone := c.tensorsDone + 1 }) := by
      rw [exec_nextDescriptor_of_ne hcurrent (by omega),
        exec_bind_of_ok (exec_advance d.reads hlimit hdata hs.left),
        exec_bind_of_ok (exec_modify _ _), exec_pure]
    have hrest := ih (c := { c with
      offset := c.offset + d.bytes.length
      tensorsDone := c.tensorsDone + 1 }) hdata hlimit hs.right hcurrent (by dsimp only; omega)
    rw [List.length_cons]
    unfold readDescriptorsLeft
    rw [exec_bind_of_ok hnext]
    dsimp only
    rw [exec_bind_of_ok hrest, exec_pure, List.map_cons, List.flatMap_cons, List.length_append,
      ← Nat.add_assoc]

end Container

namespace Parts

variable (p : Parts limit)

/--
The names and the values of the metadata records.
-/
def entries : List (String × MetaValue) := p.records.map (·.value)

def tensors : List Descriptor := p.descriptors.map (·.value)

theorem stands_index : Stands p.file 0 p.index :=
  stands_of_append [] p.index p.rest

variable {p} {path : String} {file : Nat}

theorem openData_eq {config : CodecConfig} (p : Parts config.maxStringLen)
    : Container.openData path file p.file config = .ok (p.opened path file) := by
  have hvalue : p.header.value
      = (p.header.value.1, p.descriptors.length, p.records.length) := Prod.ext rfl p.counts
  have hreads := p.header.reads
  rw [hvalue] at hreads
  exact Container.openData_of_reads hreads p.stands_index.left

/--
The index of a file that is made of parts is read unless a record declares an invalid alignment.
-/
theorem readsIndex_iff {metadata : Table MetaValue} {ds : List Descriptor} {c : Container}
    : (p.opened path file).ReadsIndex metadata ds c ↔ ∃ alignment,
        declaredAlignment? defaultAlignment p.entries = some alignment ∧
        metadata = Table.empty.insertAll p.entries ∧ ds = p.tensors ∧
        c = p.located path file alignment := by
  have hs := p.stands_index.right
  rw [Nat.zero_add] at hs
  have hrecords {metadata : Table MetaValue} {c : Container}
      : exec (Container.readRecords p.records.length .empty) (p.opened path file)
          = (.ok metadata, c) ↔ _ :=
    Container.exec_readRecords_eq_ok_iff rfl rfl hs.left rfl rfl (Nat.zero_add _)
  have hlength : p.header.bytes.length + (p.records.flatMap (·.bytes)).length +
      (p.descriptors.flatMap (·.bytes)).length = p.index.length := by
    simp only [index, List.length_append, Nat.add_assoc]
  have hdescriptors (alignment : Nat)
      : exec (Container.readDescriptorsLeft p.descriptors.length) { p.opened path file with
          current := .descriptors
          offset := p.header.bytes.length + (p.records.flatMap (·.bytes)).length
          alignment
          recordsDone := p.records.length } = (.ok p.tensors, p.located path file alignment) := by
    unfold located
    rw [← hlength]
    exact Container.exec_readDescriptorsLeft_of_pieces rfl rfl hs.right rfl (Nat.zero_add _)
  unfold Container.ReadsIndex Container.readMetadata Container.readDescriptors
  simp only [exec_bind_of_ok (exec_get _)]
  constructor
  . rintro ⟨c₁, hmetadata, hds⟩
    obtain ⟨alignment, halign, rfl, rfl⟩ := hrecords.1 hmetadata
    have hlocated := (hdescriptors alignment).symm.trans hds
    rw [Prod.mk.injEq, Except.ok.injEq] at hlocated
    exact ⟨alignment, halign, rfl, hlocated.1.symm, hlocated.2.symm⟩
  . rintro ⟨alignment, halign, rfl, rfl, rfl⟩
    exact ⟨_, hrecords.2 ⟨alignment, halign, rfl, rfl⟩, hdescriptors alignment⟩

theorem load_eq_ok_iff {d : Disk} {config : CodecConfig} {p : Parts config.maxStringLen}
    {content : Content} (hfind : d.find path = .ok (.file file p.file))
    : load d path config = .ok content ↔ ∃ alignment,
        declaredAlignment? defaultAlignment p.entries = some alignment ∧
        content.metadata = Table.empty.insertAll p.entries ∧
        (p.located path file alignment).decodeAll .empty p.tensors = .ok content.tensors := by
  rw [Gguf.load_eq_ok_iff, Container.ofFile_eq_of_find hfind, p.openData_eq]
  simp only [Except.ok.injEq, exists_eq_left', Container.readContent_eq_ok_iff, readsIndex_iff]
  constructor
  . rintro ⟨_, _, ⟨alignment, halign, hmetadata, rfl, rfl⟩, hdecode⟩
    exact ⟨alignment, halign, hmetadata, hdecode⟩
  . rintro ⟨alignment, halign, hmetadata, hdecode⟩
    exact ⟨_, _, ⟨alignment, halign, hmetadata, rfl, rfl⟩, hdecode⟩

/--
Every file whose index is read is made of parts.
-/
theorem exists_of_readsIndex {data : List UInt8} {config : CodecConfig} {c c' : Container}
    {metadata : Table MetaValue} {ds : List Descriptor}
    (hopen : Container.openData path file data config = .ok c)
    (h : c.ReadsIndex metadata ds c') : ∃ p : Parts config.maxStringLen, p.file = data := by
  obtain ⟨version, tensorCount, recordCount, bytes, hstands, hreads, rfl⟩ :=
    Container.openData_eq_ok hopen
  obtain ⟨c₁, hmetadata, hds⟩ := h
  have hroom := hstands.length_le
  rw [Nat.zero_add] at hroom
  obtain ⟨records, alignment, hrecordCount, hrecords, rfl⟩ :=
    Container.exists_pieces_of_readMetadata rfl hroom rfl rfl rfl rfl hmetadata
  obtain ⟨descriptors, htensorCount, hdescriptors⟩ :=
    Container.exists_pieces_of_readDescriptors rfl hrecords.length_le rfl rfl rfl hds
  dsimp only at hrecords hdescriptors
  rw [← Nat.zero_add bytes.length] at hrecords
  rw [← Nat.zero_add bytes.length] at hdescriptors
  obtain ⟨front, rest, hdata, hfront⟩ := hstands.join (hrecords.join hdescriptors)
  rw [List.length_eq_zero_iff.1 hfront, List.nil_append] at hdata
  let header : Piece Read.header config.maxStringLen :=
    ⟨bytes, (version, tensorCount, recordCount), hreads _ (Nat.le_refl _)⟩
  exact ⟨⟨header, records, descriptors, rest, Prod.ext htensorCount.symm hrecordCount.symm⟩,
    hdata.symm⟩

end Parts

end TensorFiles.Gguf
