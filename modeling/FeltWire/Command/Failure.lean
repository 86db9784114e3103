import FeltWire.Json.Values
import FeltWire.Message
import FeltWire.Schema.Resolution

/-!
# Failures of commands

Why a command ended without its output, and how that is reported: a headline and
the causes behind it.

## Main definitions

* `Failure`: the reasons
* `Failure.chain`: the headline and the causes
* `Failure.report`: the chain on several lines
* `Failure.line`: the chain on one line
-/

namespace FeltWire

/-- The two kinds of messages, as a `Failure` speaks of them. -/
inductive Side where
  | request
  | response
deriving DecidableEq, Repr

namespace Side

/-- The word for a message of the kind. -/
def name : Side → String
  | request => "request"
  | response => "response"

/-- What a message of the kind carries. -/
def contents : Side → String
  | request => "arguments"
  | response => "results"

/-- The place in a schema of the record that it carries, as it is called
there. -/
def place : Side → String
  | request => "input"
  | response => "output"

end Side

/-- Where input comes from, a `file` or the standard input. -/
inductive Source where
  | file (path : String)
  | stdin
deriving DecidableEq, Repr

/-- The name of a source in a message. -/
def Source.text : Source → String
  | file path => path
  | stdin => "stdin"

/-- **Why a command ended without its output.** The causes of failures to read
and write are the system's words; the others are faults of the rest of the
library. -/
inductive Failure where
  | schemaUnread (path cause : String)
  | schemaMalformed (path : String)
  | record (side : Side) (path : String) (e : SchemaError)
  | namedRecord (side : Side) (name path : String) (e : SchemaError)
  | inputUnread (path cause : String)
  | inputMalformed (source : Source)
  | unfitting (side : Side) (source : Source) (shape : Shape) (e : JsonError)
  | unencoded (side : Side) (source : Source) (e : WireError)
  | bodyUnread (path cause : String)
  | headerUnread (source : Source)
  | headerRefused (source : Source) (e : HeaderError)
  | bodyRefused (side : Side) (source : Source) (e : BodyError)
  | argsUndecoded (method : String) (e : WireError)
  | resultsUndecoded (source : Source) (e : WireError)
  | unrendered (side : Side) (e : JsonError)
  | outputUnwritten (path cause : String)
deriving DecidableEq, Repr

namespace Failure

/-- A conversion error as a cause, and the codec's `Fault` behind it as the
next. -/
def jsonCauses (e : JsonError) : List String :=
  match e.fault with
  | .codec fault => [e.message, fault.message]
  | _ => [e.message]

/-- A refused body as a cause, and what is wrong with its `payload` as the
next. -/
def bodyCauses (e : BodyError) : List String :=
  match e with
  | .payload => [e.message, "not a message in MessagePack"]
  | _ => [e.message]

/-- **The headline and the causes behind it**, each the cause of the one before;
`report` and `line` only lay them out. -/
def chain : Failure → List String
  | schemaUnread path cause => [s!"failed to read schema file '{path}'", cause]
  | schemaMalformed path =>
    [s!"failed to parse schema file '{path}'", "failed to parse schema: not a schema"]
  | record side path e => [s!"invalid {side.place} record in '{path}'", e.message]
  | namedRecord side name path e =>
    [s!"invalid {side.place} record '{name}' in schema file '{path}'", e.message]
  | inputUnread path cause => [s!"failed to read input file '{path}'", cause]
  | inputMalformed source => [s!"failed to parse JSON from '{source.text}'", "not a document"]
  | unfitting side source shape e =>
    s!"{side.contents} from '{source.text}' do not match {shape.text}" :: jsonCauses e
  | unencoded side source e =>
    [s!"failed to encode {side.contents} from '{source.text}': {e.message}"]
  | bodyUnread path cause => [s!"failed to open message file '{path}'", cause]
  | headerUnread (.file path) =>
    [s!"failed to read header from message file '{path}'", "failed to fill whole buffer"]
  | headerUnread .stdin => ["failed to read header from stdin", "failed to fill whole buffer"]
  | headerRefused (.file path) e => [s!"invalid message header in '{path}'", e.message]
  | headerRefused .stdin e => ["invalid message header from stdin", e.message]
  | bodyRefused side source e =>
    s!"failed to deserialize {side.name} from '{source.text}'" :: bodyCauses e
  | argsUndecoded method e => [s!"failed to decode arguments of '{method}': {e.message}"]
  | resultsUndecoded source e => [s!"failed to decode results from '{source.text}': {e.message}"]
  | unrendered side e => s!"failed to render {side.contents}" :: jsonCauses e
  | outputUnwritten path cause => [s!"failed to write output file '{path}'", cause]

/-- The text `cause`, indented behind `lead`; its further lines start where the
first does. -/
def indentCause (lead : String) (cause : String) : String :=
  lead ++ ("\n" ++ "".pushn ' ' lead.length).intercalate (cause.splitOn "\n")

/-- The causes, numbered if there are several, each by `indentCause`. -/
def causeLines : List String → List String
  | [] => []
  | [cause] => [indentCause "    " cause]
  | causes => causes.zipIdx.map fun (cause, i) =>
    let number := toString i
    indentCause ("".pushn ' ' (5 - number.length) ++ number ++ ": ") cause

/-- **The `chain` on several lines**, as the converter reports it. -/
def report (f : Failure) : String :=
  match f.chain with
  | [] => "Error: \n"
  | headline :: causes =>
    let behind := if causes.isEmpty then [] else "\nCaused by:" :: causeLines causes
    "\n".intercalate (("Error: " ++ headline) :: behind) ++ "\n"

/-- **The `chain` on one line**, as the check reports it. -/
def line (f : Failure) : String := "Error: " ++ ": ".intercalate f.chain ++ "\n"

end Failure

end FeltWire
