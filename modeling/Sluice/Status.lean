namespace Sluice

/-- A machine word. As a status it is a hint (bytes pending or expected, 0 for done), or an error:
the two's complement negative of an error number. -/
abbrev Word := UInt64

namespace Word

def reservedErrors : Word := 120

def ofError (number : Word) : Word := 0 - number

def isError (code : Word) : Bool := ofError reservedErrors < code

/-- The sum, or the largest word where the sum does not fit. -/
def satAdd (a b : Word) : Word :=
  if a.toNat + b.toNat < UInt64.size then a + b else UInt64.ofNat (UInt64.size - 1)

def satSub (a b : Word) : Word := if b ≤ a then a - b else 0

end Word

inductive ErrorNumber
  | generic
  | unknownFrame
  | frameParameter
  | windowTooLarge
  | corruption
  | checksumWrong
  | dictionaryWrong
  | parameterUnsupported
  | parameterOutOfBound
  | stageWrong
  | memoryAllocation
  | outputTooSmall
  | inputSizeWrong
  | noProgressOutputFull
  | noProgressInputEmpty
  deriving DecidableEq, Repr

namespace ErrorNumber

def toWord : ErrorNumber → Word
  | generic => 1
  | unknownFrame => 10
  | frameParameter => 14
  | windowTooLarge => 16
  | corruption => 20
  | checksumWrong => 22
  | dictionaryWrong => 32
  | parameterUnsupported => 40
  | parameterOutOfBound => 42
  | stageWrong => 60
  | memoryAllocation => 64
  | outputTooSmall => 70
  | inputSizeWrong => 72
  | noProgressOutputFull => 80
  | noProgressInputEmpty => 82

def code (e : ErrorNumber) : Word := Word.ofError e.toWord

end ErrorNumber

def unspecified : String := "Unspecified error code"

def describeNumber : Nat → String
  | 0 => "No error detected"
  | 1 => "Error (generic)"
  | 10 => "Unknown frame descriptor"
  | 12 => "Version not supported"
  | 14 => "Unsupported frame parameter"
  | 16 => "Frame requires too much memory for decoding"
  | 20 => "Data corruption detected"
  | 22 => "Restored data doesn't match checksum"
  | 24 => "Header of Literals' block doesn't respect format specification"
  | 30 => "Dictionary is corrupted"
  | 32 => "Dictionary mismatch"
  | 34 => "Cannot create Dictionary from provided samples"
  | 40 => "Unsupported parameter"
  | 41 => "Unsupported combination of parameters"
  | 42 => "Parameter is out of bound"
  | 44 => "tableLog requires too much memory : unsupported"
  | 46 => "Unsupported max Symbol Value : too large"
  | 48 => "Specified maxSymbolValue is too small"
  | 49 => "This mode cannot generate an uncompressed block"
  | 50 => "pledged buffer stability condition is not respected"
  | 60 => "Operation not authorized at current processing stage"
  | 62 => "Context should be init first"
  | 64 => "Allocation error : not enough memory"
  | 66 => "workSpace buffer is not large enough"
  | 70 => "Destination buffer is too small"
  | 72 => "Src size is incorrect"
  | 74 => "Operation on NULL destination buffer"
  | 80 => "Operation made no progress over multiple calls, due to output buffer being full"
  | 82 => "Operation made no progress over multiple calls, due to input being empty"
  | 100 => "Frame index is too large"
  | 102 => "An I/O error occurred when reading/seeking"
  | 104 => "Destination buffer is wrong"
  | 105 => "Source buffer is wrong"
  | 106 => "Block-level external sequence producer returned an error code"
  | 107 => "External sequences are not valid"
  | _ => unspecified

/-- A word that is no error is described as number 0. -/
def describe (code : Word) : String :=
  if code.isError then describeNumber (Word.ofError code).toNat else describeNumber 0

/-- The name of an error. Hints have none, even though the codec would describe them. -/
def errorName (code : Word) : Option String := if code.isError then some (describe code) else none

/-- Outcome of one step, classified but never rewritten. -/
inductive Status
  /-- No error: bytes pending (compression) or expected (decompression), 0 when done. -/
  | hint (code : Word)
  | error (code : Word)
  /-- One of the regions did not resolve and the codec was not called. -/
  | bufferAccessFailure
  deriving DecidableEq, Repr

namespace Status

def ofCode (code : Word) : Status := if code.isError then .error code else .hint code

/-- An access failure is the generic error of the codec. -/
def code : Status → Word
  | hint c => c
  | error c => c
  | bufferAccessFailure => ErrorNumber.generic.code

def isError : Status → Bool
  | hint _ => false
  | _ => true

def isDone : Status → Bool
  | hint c => c == 0
  | _ => false

def errorName : Status → Option String
  | hint _ => none
  | error c => Sluice.errorName c
  | bufferAccessFailure => some "Buffer access failure"

def render : Status → String
  | hint c => s!"Hint({c})"
  | error c => s!"Error({c})"
  | bufferAccessFailure => "BufferAccessFailure"

@[simp] theorem code_ofCode (c : Word) : (ofCode c).code = c := by
  unfold ofCode; split <;> rfl

end Status

inductive EndMode
  /-- Keep streaming; output may lag behind input. -/
  | more
  /-- Emit everything held, ending the block but not the frame. -/
  | flush
  | finish
  deriving DecidableEq, Repr

namespace EndMode

def toInt : EndMode → Int32
  | more => 0
  | flush => 1
  | finish => 2

def ofInt? (raw : Int32) : Option EndMode :=
  if raw = 0 then some more
  else if raw = 1 then some flush
  else if raw = 2 then some finish
  else none

def name : EndMode → String
  | more => "Continue"
  | flush => "Flush"
  | finish => "End"

end EndMode

inductive Direction
  | compress
  | decompress
  deriving DecidableEq, Repr

namespace Direction

def noun : Direction → String
  | compress => "compression"
  | decompress => "decompression"

def agent : Direction → String
  | compress => "compressor"
  | decompress => "decompressor"

def name : Direction → String
  | compress => "Compress"
  | decompress => "Decompress"

end Direction

end Sluice
