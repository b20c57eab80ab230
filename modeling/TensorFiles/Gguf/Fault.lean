import TensorFiles.Gguf.Section
import TensorFiles.Gguf.TensorType
import TensorFiles.Text.Listing
/-!
This module contains the faults of GGUF containers: of the bytes, of the order of calls on a
container, and of what is asked to be written.
-/

namespace TensorFiles.Gguf

/--
Most dimensions a descriptor may declare.
-/
def maxRank : Nat := 8

/--
The metadata key that overrides the alignment of the tensor data.
-/
def alignmentKey : String := "general.alignment"

/--
The range of container versions that are read and written.
-/
def minVersion : Nat := 2

def maxVersion : Nat := 3

inductive Fault where
  | endOfData (need offset have_ : Nat)
  | lengthTooLarge (what : String) (length offset remaining : Nat)
  | stringTooLong (length limit offset : Nat)
  | unknownValueType (code : Nat)
  | unknownElementType (code : Nat)
  | nestedArray
  | noValue (key : String)
  | unknownTensorType (code : Nat)
  | partialBlock (type : TensorType) (numel : Nat)
  | sizeOverflow (type : TensorType) (numel : Nat)
  | ofTensor (name : String) (fault : Fault)
  | blockOutside (index length payload : Nat)
  | halfOutside (offset length : Nat)
  | nibbleOutside (index length : Nat)
  | blocksMissing (name : String) (type : TensorType) (got blocks need : Nat)
  | widthUnsupported (name : String) (bits : Nat)
  | undecodable (name : String) (type : TensorType)
  | payloadTooShort (name : String) (type : TensorType) (got numel need : Nat)
  | badMagic (bytes : List UInt8)
  | unsupportedVersion (version : Nat)
  | alignmentNotPowerOfTwo (alignment : Nat)
  | alignmentTooLarge (alignment : Nat)
  | createdForWriting
  | notOpenForWriting
  | wrongSection (operation : String) (actual expected : Section)
  | valuePending
  | noPendingKey
  | declaredRank (name : String) (rank : Nat)
  | shapeOverflow (name : String) (shape : List Nat)
  | indexUnread
  | misaligned (name : String) (offset alignment : Nat)
  | pastEnd (name : String) (size offset : Nat)
  | rankTooLarge (name : String) (rank : Nat)
  | overlap (name : String) (offset : Nat)
  | noDescriptor (payload : Nat)
  | payloadSize (payload got declared : Nat)
  | payloadsMissing (written declared : Nat)
  | alignmentFixed
  | alignmentNotU32
  | duplicateTensor (name : String)
  deriving DecidableEq

def Fault.message : Fault → String
  | .endOfData need offset have_ =>
    s!"unexpected end of data: need {need} bytes at offset {offset}, have {have_}"
  | .lengthTooLarge what length offset remaining =>
    s!"{what} length {length} at offset {offset} exceeds the remaining {remaining} bytes"
  | .stringTooLong length limit offset =>
    s!"string length {length} exceeds maximum {limit} at offset {offset}"
  | .unknownValueType code => s!"unknown metadata value type {code}"
  | .unknownElementType code => s!"unknown metadata array element type {code}"
  | .nestedArray => "nested arrays beyond one level are unsupported"
  | .noValue key => s!"metadata `{key}` has no value to encode"
  | .unknownTensorType code => s!"unknown GGML tensor type: {code}"
  | .partialBlock type numel =>
    s!"{type.name} tensor with {numel} elements is not a whole number of " ++
      s!"{type.blockSize}-element blocks"
  | .sizeOverflow type numel => s!"{type.name} tensor with {numel} elements overflows usize"
  | .ofTensor name fault => s!"`{name}`: malformed data: " ++ fault.message
  | .blockOutside index length payload =>
    s!"block {index} of {length} bytes lies outside a {payload}-byte payload"
  | .halfOutside offset length => s!"f16 at offset {offset} lies outside a {length}-byte block"
  | .nibbleOutside index length => s!"nibble {index} lies outside {length} packed bytes"
  | .blocksMissing name type got blocks need =>
    s!"`{name}`: {type.name} payload has {got} bytes, {blocks} blocks need {need}"
  | .widthUnsupported name bits => s!"`{name}`: {bits}-bit extraction is not implemented"
  | .undecodable name type => s!"`{name}`: GGML type {type.name} cannot be decoded"
  | .payloadTooShort name type got numel need =>
    s!"`{name}`: {type.name} payload has {got} bytes, {numel} elements need {need}"
  | .badMagic bytes => s!"invalid GGUF magic {Text.hexBytes bytes} (expected 'GGUF')"
  | .unsupportedVersion version =>
    s!"unsupported GGUF version {version} (supported: {minVersion}-{maxVersion})"
  | .alignmentNotPowerOfTwo alignment =>
    s!"alignment must be a non-zero power of two, got {alignment}"
  | .alignmentTooLarge alignment => s!"alignment {alignment} exceeds u32"
  | .createdForWriting => "container was created for writing"
  | .notOpenForWriting => "container is not open for writing"
  | .wrongSection operation actual expected =>
    s!"{operation} called in the {actual.name} section (expected {expected.name})"
  | .valuePending => "next_key called before the previous value was read"
  | .noPendingKey => "read_value called without a preceding key"
  | .declaredRank name rank => s!"tensor `{name}` declares {rank} dimensions (max {maxRank})"
  | .shapeOverflow name shape => s!"tensor `{name}` shape {Text.numbers shape} overflows usize"
  | .indexUnread => "tensor index has not been read yet"
  | .misaligned name offset alignment =>
    s!"tensor `{name}` offset {offset} is not aligned to {alignment}"
  | .pastEnd name size offset =>
    s!"tensor `{name}` ({size} bytes at offset {offset}) extends past the end of the file"
  | .rankTooLarge name rank => s!"tensor `{name}` has {rank} dimensions (max {maxRank})"
  | .overlap name offset => s!"tensor `{name}` offset {offset} overlaps the previous payload"
  | .noDescriptor payload => s!"payload {payload} has no matching descriptor"
  | .payloadSize payload got declared =>
    s!"payload {payload} has {got} bytes, its descriptor declares {declared}"
  | .payloadsMissing written declared => s!"{written} of {declared} tensor payloads were written"
  | .alignmentFixed => "alignment cannot change inside the data section"
  | .alignmentNotU32 => s!"`{alignmentKey}` must be a u32 scalar"
  | .duplicateTensor name => s!"duplicate tensor name `{name}`"

end TensorFiles.Gguf
