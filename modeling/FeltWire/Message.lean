import FeltWire.Codec.Decode
import FeltWire.MessagePack

/-!
# Message bodies

A request carries a method's name and its encoded arguments, a response the
encoded results. Their bodies start with four bytes that tell the two apart and
four with a version; the rest is the message in MessagePack.

## Main definitions

* `Request`, `Response`: the messages
* `BodyFormat`: how one kind of message is laid out
* `BodyFormat.serialize`, `BodyFormat.deserialize`: the body of a message and
  the message of a body
* `BodyFormat.peekVersion`, `BodyFormat.readPayload`: the two halves of
  `deserialize`
-/

namespace FeltWire

/-- A call of a `method` with its encoded arguments `args`. -/
structure Request where
  method : String
  args : List UInt8
deriving DecidableEq, Repr

/-- The encoded `results` of a call. -/
structure Response where
  results : List UInt8
deriving DecidableEq, Repr

/-! ## Errors -/

/-- What is wrong with the first eight bytes of a body, the header of a
`BodyFormat`. -/
inductive HeaderError where
  | tooShort
  | invalidMagic
deriving DecidableEq, Repr

/-- What is said about a header that `peekVersion` refuses. -/
def HeaderError.message : HeaderError → String
  | tooShort => "data too short to contain valid header"
  | invalidMagic => "invalid magic bytes"

/-- **Why a body is no message**: its `header`, its version or its `payload`,
tried in this order. -/
inductive BodyError where
  | header (e : HeaderError)
  | unsupportedVersion (got expected : Nat)
  | payload
deriving DecidableEq, Repr

/-- What is said about a body that `BodyFormat.deserialize` refuses. -/
def BodyError.message : BodyError → String
  | header e => "header validation failed: " ++ e.message
  | unsupportedVersion got expected => s!"unsupported version {got}, expected {expected}"
  | payload => "payload deserialization failed"

/-- What is said when a value to be sent cannot be encoded, in front of the
codec's own `message`. -/
def WireError.sendMessage (e : WireError) : String := "value encoding failed: " ++ e.message

/-! ## Formats -/

/-- How one kind of message is laid out: the `magic` bytes and the `version` of
its header, and how the payload is written and read. -/
structure BodyFormat (α : Type) where
  /-- The first four bytes of a body. -/
  magic : List UInt8
  version : Nat
  write : α → List UInt8
  read : MessagePack.Parser α
  length_magic : magic.length = 4 := by rfl
  version_lt : version < 256 ^ 4 := by decide

namespace BodyFormat

/-- The number of bytes in front of the message: the `magic` bytes and four for
the version. -/
def headerSize : Nat := 8

variable {α : Type}

/-- **The body of a message**: the `magic` bytes, the `version` in four bytes,
and the payload. -/
def serialize (f : BodyFormat α) (message : α) : List UInt8 :=
  f.magic ++ BigEndian.encode 4 f.version ++ f.write message

/-- The version of a body, if it is one of the format: long enough and with the
`magic` bytes. -/
def peekVersion (f : BodyFormat α) (bytes : List UInt8) : Except HeaderError Nat :=
  if (bytes.take headerSize).length < headerSize then .error .tooShort
  else if bytes.take 4 = f.magic then .ok (BigEndian.decode ((bytes.drop 4).take 4))
  else .error .invalidMagic

/-- The message of a body whose header says the given `version`. What follows
the message is not looked at. -/
def readPayload (f : BodyFormat α) (bytes : List UInt8) (version : Nat) : Except BodyError α :=
  if version = f.version then
    if (bytes.take headerSize).length < headerSize then .error (.header .tooShort)
    else match f.read.run (bytes.drop headerSize) with
      | some (message, _) => .ok message
      | none => .error .payload
  else .error (.unsupportedVersion version f.version)

/-- **The message of a body.** The header decides by `peekVersion` before the
rest is read. -/
def deserialize (f : BodyFormat α) (bytes : List UInt8) : Except BodyError α :=
  match f.peekVersion bytes with
  | .ok version => f.readPayload bytes version
  | .error e => .error (.header e)

end BodyFormat

/-! ## Requests -/

namespace Request

open MessagePack

/-- The entries of a map, the `method` and the `args` found before them being
given. Neither may be there twice. -/
def readEntries : (count : Nat) → Option String → Option (List UInt8) → Parser Request
  | 0, some method, some args => return ⟨method, args⟩
  | 0, _, _ => failure
  | count + 1, method, args => do
    match ← readKey ["method", "args"] with
    | some 0 =>
      guard method.isNone
      let method ← readText
      readEntries count (some method) args
    | some _ =>
      guard args.isNone
      let args ← readBytes
      readEntries count method (some args)
    | none =>
      skip (maxDepth - 1)
      readEntries count method args

/-- An array of the two parts, or a map that has each of them once
(`readEntries`). -/
def read : Parser Request := do
  match ← header with
  | .array n =>
    guard (n = 2)
    let method ← readText
    let args ← readBytes
    return ⟨method, args⟩
  | .map n => readEntries n none none
  | _ => failure

/-- **The format of requests**: an array of the `method` and the arguments. -/
def format : BodyFormat Request where
  magic := [0x4f, 0x52, 0x43, 0x51]
  version := 1
  write r := arrayHeader 2 ++ text r.method ++ integers r.args
  read := read

/-- The call of `method` with arguments `args` of the shape `s`. -/
def ofValue (method : String) (s : Shape) (args : Value) : Except WireError Request :=
  (s.encodeBytes args).map fun bytes => ⟨method, bytes⟩

/-- The arguments of a call, decoded under the shape `s`. -/
def decodeArgs (r : Request) (s : Shape) : Except WireError Value := s.decode r.args

end Request

/-! ## Responses -/

namespace Response

open MessagePack

/-- The entries of a map, the `results` found before them being given. They may
not be there twice. -/
def readEntries : (count : Nat) → Option (List UInt8) → Parser Response
  | 0, some results => return ⟨results⟩
  | 0, none => failure
  | count + 1, results => do
    match ← readKey ["results"] with
    | some _ =>
      guard results.isNone
      let results ← readBytes
      readEntries count (some results)
    | none =>
      skip (maxDepth - 1)
      readEntries count results

/-- An array of the results alone, or a map that has them once
(`readEntries`). -/
def read : Parser Response := do
  match ← header with
  | .array n =>
    guard (n = 1)
    let results ← readBytes
    return ⟨results⟩
  | .map n => readEntries n none
  | _ => failure

/-- **The format of responses**: an array of the `results`. -/
def format : BodyFormat Response where
  magic := [0x4f, 0x52, 0x43, 0x52]
  version := 1
  write r := arrayHeader 1 ++ integers r.results
  read := read

/-- The results of a call, of the shape `s`. -/
def ofValue (s : Shape) (results : Value) : Except WireError Response :=
  (s.encodeBytes results).map fun bytes => ⟨bytes⟩

/-- The results of a call, decoded under the shape `s`. -/
def decodeResults (r : Response) (s : Shape) : Except WireError Value := s.decode r.results

end Response

end FeltWire
