import TensorFiles.Enumeration
import TensorFiles.FileFormat
import TensorFiles.Gguf.Container.Writing
import TensorFiles.Table
import TensorFiles.Tensor.View
/-!
This module contains the saving of whole GGUF files. Records and tensors are written in the order of
their names. The settings, the records and the bytes of the tensors are checked before the file is
created. The number of dimensions is only checked when a descriptor is appended, so a tensor with too
many of them is refused after that.
-/

namespace TensorFiles.Gguf

/--
A metadata record in its byte form.
-/
structure EncodedRecord where
  key : String
  type : ValueType
  value : List UInt8

def EncodedRecord.ofValue (key : String) (value : MetaValue) : Except Error EncodedRecord := do
  let (type, bytes) ← value.encode key
  return ⟨key, type, bytes⟩

/--
A descriptor with its payload.
-/
structure PlacedTensor where
  descriptor : Descriptor
  payload : List UInt8

/--
The alignment to write with. A record that declares one wins over the configuration.
-/
def alignmentOf (declared? : Option MetaValue) (config : CodecConfig) : Except Error Nat :=
  match declared? with
  | none => .ok config.alignment
  | some value => do
    let alignment ← value.asAlignment
    CodecConfig.validate { config with alignment }
    return alignment

/--
The record that declares an alignment.
-/
def alignmentRecord (alignment : Nat) : EncodedRecord :=
  ⟨alignmentKey, .uint32, LittleEndian.encode 4 alignment⟩

/--
The records to write. One is put in front if nothing else declares an alignment that readers would
not assume.
-/
def recordsOf (declared : Bool) (entries : List (String × MetaValue)) (config : CodecConfig)
    : Except Error (List EncodedRecord) := do
  let records ← entries.mapM (fun (key, value) => EncodedRecord.ofValue key value)
  if !declared && config.alignment != defaultAlignment then
    return alignmentRecord config.alignment :: records
  else
    return records

/--
Lay out tensors one after the other from `offset` on, each at the first aligned place.
-/
def placeTensors (alignment offset : Nat) : List (String × View)
    → Except Error (List PlacedTensor)
  | [] => .ok []
  | (name, view) :: rest => do
    match TensorType.ofDType? view.dtype with
    | none => throw (.unsupported name view.dtype)
    | some type =>
      let payload ← view.contiguousData name
      let stop := offset + payload.length
      if wordBound ≤ stop + alignment then
        throw (.panic .sum)
      let placed ← placeTensors alignment (alignUp stop alignment) rest
      return ⟨⟨name, view.shape, type, offset⟩, payload⟩ :: placed

/--
Write records, then descriptors, then payloads.
-/
def Container.appendAll (records : List EncodedRecord) (tensors : List PlacedTensor)
    : Call Unit := do
  records.forM (fun r => appendEncoded r.key r.type r.value)
  tensors.forM (fun t => appendDescriptor t.descriptor)
  tensors.forM (fun t => appendPayload t.payload)

/--
Make all calls of `write` on a new container and close it. If one of them fails, no file is left.
-/
def Container.writeFile (d : Disk) (path : String) (config : CodecConfig) (write : Call Unit)
    : Except Error Unit × Disk :=
  match create d path config with
  | .error e => (.error e, d)
  | .ok (created, d) =>
    match write.run.run created with
    | (.ok (), c) => c.close (created.sync c d)
    | (.error e, c) => (.error e, c.discard (created.sync c d))

/--
All that is worked out before the file is created: the alignment, the records and the tensors. Both
lists of entries are in the order in which they are written.
-/
def planOf (declared? : Option MetaValue) (metadata : List (String × MetaValue))
    (tensors : List (String × View)) (config : CodecConfig)
    : Except Error (Nat × List EncodedRecord × List PlacedTensor) := do
  config.validate
  let alignment ← alignmentOf declared? config
  let records ← recordsOf declared?.isSome metadata config
  let placed ← placeTensors alignment 0 tensors
  return (alignment, records, placed)

/--
The path that a container is written under. It gets the extension of GGUF files unless it has it.
-/
def containerPath (path : String) : String :=
  Path.withExtension "gguf" path

/--
Write what is planned. The result is the path that is written.
-/
def savePlanned (d : Disk) (path : String) (config : CodecConfig)
    (plan : Except Error (Nat × List EncodedRecord × List PlacedTensor))
    : Except Error String × Disk :=
  let path := containerPath path
  match plan with
  | .error e => (.error e, d)
  | .ok (alignment, records, placed) =>
    let (result, d) :=
      Container.writeFile d path { config with alignment } (Container.appendAll records placed)
    (result.map (fun () => path), d)

/--
Save the tensors and the metadata that hash tables list.
-/
def saveEnumerated (d : Disk) (path : String) (tensors : Enumeration View)
    (metadata : Enumeration MetaValue) (config : CodecConfig) : Except Error String × Disk :=
  savePlanned d path config
    (planOf (metadata.find? alignmentKey) metadata.sortedEntries tensors.sortedEntries config)

/--
Save tensors and metadata.
-/
def save (d : Disk) (path : String) (tensors : Table View) (metadata : Table MetaValue)
    (config : CodecConfig) : Except Error String × Disk :=
  savePlanned d path config
    (planOf (metadata.find? alignmentKey) metadata.entries tensors.entries config)

end TensorFiles.Gguf
