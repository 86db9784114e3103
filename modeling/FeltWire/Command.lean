import FeltWire.Command.Failure
import FeltWire.Command.Options

/-!
# Commands

The two tools: one turns JSON arguments and results into message bodies and
back, with the shapes that a schema names; the other checks that a schema names
shapes.

What a command does to documents and bodies are pure functions. The rest,
reading and writing, is asked of a `Host`.

## Main definitions

* `Command`, `Command.parse?`: what a command line asks for
* `encodeRequest`, `decodeRequest`, `encodeResponse`, `decodeResponse`:
  documents to bodies and back
* `Host`: reading and writing
* `Command.run`: the outcome of a command line
-/

namespace FeltWire

/-! ## Documents and bodies -/

/-- The body of a request of `method` whose arguments the document `j` gives
under the schema. -/
def encodeRequest (s : Shape) (method : String) (source : Source) (j : Json) :
    Except Failure (List UInt8) := do
  let args ← (s.ofJson j).mapError (.unfitting .request source s)
  let request ← (Request.ofValue method s args).mapError (.unencoded .request source)
  return Request.format.serialize request

/-- The body of a response whose results the document `j` gives under the
schema. -/
def encodeResponse (s : Shape) (source : Source) (j : Json) : Except Failure (List UInt8) := do
  let results ← (s.ofJson j).mapError (.unfitting .response source s)
  let response ← (Response.ofValue s results).mapError (.unencoded .response source)
  return Response.format.serialize response

/-- The message of a body of which the first eight bytes are looked at on their
own, by `peekVersion`: they have to be there, and to be a header of the
`format`. -/
def receive {α : Type} (format : BodyFormat α) (side : Side) (source : Source)
    (bytes : List UInt8) : Except Failure α := do
  let header := bytes.take BodyFormat.headerSize
  if header.length < BodyFormat.headerSize then throw (.headerUnread source)
  else
    let version ← (format.peekVersion header).mapError (.headerRefused source)
    (format.readPayload (header ++ bytes.drop BodyFormat.headerSize) version).mapError
      (.bodyRefused side source)

/-- The document of a request's method and arguments; the reverse of
`encodeRequest`. -/
def decodeRequest (s : Shape) (source : Source) (bytes : List UInt8) : Except Failure Json := do
  let request ← receive Request.format .request source bytes
  let args ← (request.decodeArgs s).mapError (.argsUndecoded request.method)
  let args ← (s.toJson args).mapError (.unrendered .request)
  return .object (Dictionary.ofList [("method", .string request.method), ("args", args)])

/-- The document of a response's results; the reverse of `encodeResponse`. -/
def decodeResponse (s : Shape) (source : Source) (bytes : List UInt8) : Except Failure Json := do
  let response ← receive Response.format .response source bytes
  let results ← (response.decodeResults s).mapError (.resultsUndecoded source)
  (s.toJson results).mapError (.unrendered .response)

/-! ## Command lines -/

/-- The tools, each with a command line of its own (`Tool.run`). -/
inductive Tool where
  | converter
  | checker
deriving DecidableEq, Repr

/-- What the converter is asked to do, with the method of a request to be
made. -/
inductive Operation where
  | encodeRequest (method : String)
  | decodeRequest
  | encodeResponse
  | decodeResponse
deriving DecidableEq, Repr

/-- **What a command line asks for**: a conversion with its files, or the check
of a schema. -/
inductive Command where
  | convert (operation : Operation) (schema : String) (input output : Option String)
  | check (schema : String)
deriving DecidableEq, Repr

/-- The kind of messages that an operation is about, its `Side`. -/
def Operation.side : Operation → Side
  | encodeRequest _ | decodeRequest => .request
  | encodeResponse | decodeResponse => .response

namespace Command

/-- The options of every operation of the converter: the paths of a schema, an
input and an output. -/
def pathOptions : List OptionSpec :=
  [⟨"schema", 's', true, false⟩, ⟨"input", 'i', false, false⟩, ⟨"output", 'o', false, false⟩]

/-- The option of a request's method, which has to be given. -/
def methodOption : OptionSpec := ⟨"method", 'm', true, true⟩

/-- An operation with its files, of which `options` has to name the schema. -/
def convert? (operation : Operation) (options : Options) : Option Command := do
  let schema ← options.get? "schema"
  return .convert operation schema (options.get? "input") (options.get? "output")

/-- The command of a tool's command line, if `Options.parse?` understands all of
it. -/
def parse? : Tool → List String → Option Command
  | .converter, "encode-request" :: words => do
    let options ← Options.parse? (methodOption :: pathOptions) words
    let method ← options.get? "method"
    convert? (.encodeRequest method) options
  | .converter, "decode-request" :: words => do
    convert? .decodeRequest (← Options.parse? pathOptions words)
  | .converter, "encode-response" :: words => do
    convert? .encodeResponse (← Options.parse? pathOptions words)
  | .converter, "decode-response" :: words => do
    convert? .decodeResponse (← Options.parse? pathOptions words)
  | .converter, _ => none
  | .checker, words => do
    let options ← Options.parse? [⟨"schema-path", 's', true, true⟩] words
    let schema ← options.get? "schema-path"
    return .check schema

end Command

/-! ## Running -/

/-- Reading and writing in `m`, as a system does it. What fails, fails with the
system's words. -/
structure Host (m : Type → Type) where
  load : String → m (Except String (List UInt8))
  listen : m (List UInt8)
  save : String → List UInt8 → m (Except String Unit)
  print : List UInt8 → m Unit

namespace Host

variable {m : Type → Type} [Monad m]

/-- The schema in the file at `path`, which has to be read and to be one
(`Schema.parse?`). -/
def schema (host : Host m) (path : String) : ExceptT Failure m Schema := do
  match ← host.load path with
  | .error cause => throw (.schemaUnread path cause)
  | .ok bytes =>
    match Utf8.decode? bytes with
    | none => throw (.schemaUnread path "stream did not contain valid UTF-8")
    | some text =>
      match Schema.parse? text with
      | none => throw (.schemaMalformed path)
      | some s => return s

/-- The bytes of the input, and where they come from: the file at `path`, or the
standard input without one. -/
def input (host : Host m) (path : Option String) (unread : String → String → Failure) :
    ExceptT Failure m (Source × List UInt8) := do
  match path with
  | none => return (.stdin, ← host.listen)
  | some path =>
    match ← host.load path with
    | .error cause => throw (unread path cause)
    | .ok bytes => return (.file path, bytes)

/-- The document of the input, and where it comes from; the input has to be
UTF-8 and one document (`Json.parse?`). -/
def document (host : Host m) (path : Option String) : ExceptT Failure m (Source × Json) := do
  let (source, bytes) ← host.input path .inputUnread
  match (Utf8.decode? bytes).bind Json.parse? with
  | none => throw (.inputMalformed source)
  | some j => return (source, j)

/-- Writes `bytes` to the file at `path`, or where output goes without one. -/
def output (host : Host m) (path : Option String) (bytes : List UInt8) :
    ExceptT Failure m Unit := do
  match path with
  | none => host.print bytes
  | some path =>
    match ← host.save path bytes with
    | .error cause => throw (.outputUnwritten path cause)
    | .ok () => return ()

/-- The result `x` without reading or writing. -/
def pureResult {α : Type} (x : Except Failure α) : ExceptT Failure m α := ExceptT.mk (pure x)

/-- Converts the input to the output, as the `operation` says: the schema is
read before the input, and nothing is written if either fails. -/
def convert (host : Host m) (operation : Operation) (schema : String)
    (input output : Option String) : ExceptT Failure m Unit := do
  let s ← host.schema schema
  let shape := match operation.side with
    | .request => s.inputShape
    | .response => s.outputShape
  let shape ← pureResult (shape.mapError (.record operation.side schema))
  let text (j : Json) : List UInt8 := Utf8.encode (j.pretty ++ "\n")
  match operation with
  | .encodeRequest method =>
    let (source, j) ← host.document input
    let body ← pureResult (FeltWire.encodeRequest shape method source j)
    host.output output body
  | .encodeResponse =>
    let (source, j) ← host.document input
    let body ← pureResult (FeltWire.encodeResponse shape source j)
    host.output output body
  | .decodeRequest =>
    let (source, bytes) ← host.input input .bodyUnread
    let j ← pureResult (FeltWire.decodeRequest shape source bytes)
    host.output output (text j)
  | .decodeResponse =>
    let (source, bytes) ← host.input input .bodyUnread
    let j ← pureResult (FeltWire.decodeResponse shape source bytes)
    host.output output (text j)

/-- Checks that both structs which a `schema` names have shapes. -/
def check (host : Host m) (schema : String) : ExceptT Failure m Unit := do
  let s ← host.schema schema
  let _ ← pureResult (s.inputShape.mapError (.namedRecord .request s.input schema))
  let _ ← pureResult (s.outputShape.mapError (.namedRecord .response s.output schema))
  return ()

end Host

/-- How a command line ended: the exit `code` and what is reported about a
failure. -/
structure Outcome where
  code : UInt32
  report : String
deriving DecidableEq, Repr

/-- **The outcome of a command line.** A command line that asks for nothing
(`parse?`) ends with code 2, a failure with code 1. -/
def Tool.run {m : Type → Type} [Monad m] (tool : Tool) (host : Host m) (words : List String) :
    m Outcome := do
  match Command.parse? tool words with
  | none => return ⟨2, ""⟩
  | some (.convert operation schema input output) =>
    match ← (host.convert operation schema input output).run with
    | .ok () => return ⟨0, ""⟩
    | .error f => return ⟨1, f.report⟩
  | some (.check schema) =>
    match ← (host.check schema).run with
    | .ok () => return ⟨0, ""⟩
    | .error f => return ⟨1, f.line⟩

end FeltWire
