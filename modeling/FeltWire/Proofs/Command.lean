import FeltWire.Command
import FeltWire.Proofs.Json.RoundTrip
import FeltWire.Proofs.Message
import FeltWire.Proofs.Schema.Resolution

/-!
# Commands undo each other

A document that is converted to a body is found again in the body, in its normal
form: its members are those that the shape has fields for, in the order of their
names, and each scalar is in the one form that it is shown in. The normal form
is converted to the same body.

## Main results

* `receive_eq_ok_iff`: looking at the header on its own changes nothing about
  what is received
* `encodeRequest_eq_ok_iff`, `encodeResponse_eq_ok_iff`: which documents are
  converted to a body
* `commands_inverse`: converting to bodies and back, for requests and responses
-/

namespace FeltWire

/-! ## Bodies -/

namespace BodyFormat

variable {α : Type} {f : BodyFormat α} {bytes : List UInt8}

/-- The header alone tells the version: `peekVersion` looks no further than
`headerSize`. -/
theorem peekVersion_take (f : BodyFormat α) (bytes : List UInt8) :
    f.peekVersion (bytes.take headerSize) = f.peekVersion bytes := by
  have version : ((bytes.take headerSize).drop 4).take 4 = (bytes.drop 4).take 4 := by
    simp [headerSize, List.drop_take, List.take_take]
  have magic : (bytes.take headerSize).take 4 = bytes.take 4 := by
    simp [headerSize, List.take_take]
  unfold peekVersion
  rw [version, magic, List.take_take, Nat.min_self]

end BodyFormat

/-- **Looking at the header on its own changes nothing** about which message is
received: `receive` accepts what `deserialize` does. -/
theorem receive_eq_ok_iff {α : Type} {f : BodyFormat α} {side : Side} {source : Source}
    {bytes : List UInt8} {message : α} :
    receive f side source bytes = .ok message ↔ f.deserialize bytes = .ok message := by
  unfold receive BodyFormat.deserialize
  simp only [List.take_append_drop]
  split
  · next short =>
    have few : f.peekVersion bytes = .error .tooShort := if_pos short
    simp [few, throw_ne_ok]
  · rw [bind_eq_ok_iff, BodyFormat.peekVersion_take]
    cases f.peekVersion bytes <;> simp [mapError_eq_ok_iff]

/-! ## Documents and bodies -/

variable {s : Shape} {method : String} {source : Source} {j : Json} {body : List UInt8}

/-- **The documents that are converted to a request** by `encodeRequest`: they
give a value, whose encoding is in the body. -/
theorem encodeRequest_eq_ok_iff : encodeRequest s method source j = .ok body ↔
    ∃ v args, s.ofJson j = .ok v ∧ s.encodeBytes v = .ok args ∧
      Request.format.serialize ⟨method, args⟩ = body := by
  simp only [encodeRequest, bind_eq_ok_iff, mapError_eq_ok_iff, pure_eq_ok_iff,
    Request.ofValue_eq_ok_iff]
  constructor
  · rintro ⟨v, read, ⟨_, args⟩, ⟨rfl, encoded⟩, rfl⟩
    exact ⟨v, args, read, encoded, rfl⟩
  · rintro ⟨v, args, read, encoded, rfl⟩
    exact ⟨v, read, ⟨method, args⟩, ⟨rfl, encoded⟩, rfl⟩

/-- **The documents that are converted to a response** by `encodeResponse`: they
give a value, whose encoding is in the body. -/
theorem encodeResponse_eq_ok_iff : encodeResponse s source j = .ok body ↔
    ∃ v results, s.ofJson j = .ok v ∧ s.encodeBytes v = .ok results ∧
      Response.format.serialize ⟨results⟩ = body := by
  simp only [encodeResponse, bind_eq_ok_iff, mapError_eq_ok_iff, pure_eq_ok_iff,
    Response.ofValue_eq_ok_iff]
  constructor
  · rintro ⟨v, read, ⟨results⟩, encoded, rfl⟩
    exact ⟨v, results, read, encoded, rfl⟩
  · rintro ⟨v, results, read, encoded, rfl⟩
    exact ⟨v, read, ⟨results⟩, encoded, rfl⟩

/-- The body of a request is converted to a document of its `method` and its
arguments, each of which has to be short enough to be counted. -/
theorem decodeRequest_serialize {args : List UInt8} {v : Value}
    (shortMethod : (Utf8.encode method).length < 2 ^ 32) (shortArgs : args.length < 2 ^ 32)
    (encoded : s.encodeBytes v = .ok args) (shown : s.toJson v = .ok j) :
    decodeRequest s source (Request.format.serialize ⟨method, args⟩) =
      .ok (.object (Dictionary.ofList [("method", .string method), ("args", j)])) := by
  have received : receive Request.format .request source
      (Request.format.serialize ⟨method, args⟩) = .ok ⟨method, args⟩ :=
    receive_eq_ok_iff.2
      (BodyFormat.deserialize_serialize (Request.reads_write shortMethod shortArgs))
  simp only [decodeRequest, bind_eq_ok_iff, mapError_eq_ok_iff, pure_eq_ok_iff]
  exact ⟨_, received, v, Shape.decode_eq_ok_iff.2 encoded, j, shown, rfl⟩

/-- The body of a response is converted to the document `j` of its results,
which have to be `short` enough to be counted. -/
theorem decodeResponse_serialize {results : List UInt8} {v : Value}
    (short : results.length < 2 ^ 32) (encoded : s.encodeBytes v = .ok results)
    (shown : s.toJson v = .ok j) :
    decodeResponse s source (Response.format.serialize ⟨results⟩) = .ok j := by
  have received : receive Response.format .response source
      (Response.format.serialize ⟨results⟩) = .ok ⟨results⟩ :=
    receive_eq_ok_iff.2 (BodyFormat.deserialize_serialize (Response.reads_write short))
  simp only [decodeResponse, bind_eq_ok_iff, mapError_eq_ok_iff]
  exact ⟨_, received, v, Shape.decode_eq_ok_iff.2 encoded, shown⟩

/-- **Commands undo each other.** For the shapes that a schema resolves to, what
`encodeRequest` converted to the body of a request is converted back by
`decodeRequest` to the method and a document, and this document is converted to
that body again; likewise for `encodeResponse` and `decodeResponse`. The method
and what is encoded have to be short enough to be counted. -/
theorem commands_inverse (σ : Schema) :
    (∀ s, σ.inputShape = .ok s → ∀ method source j body,
      encodeRequest s method source j = .ok body → (Utf8.encode method).length < 2 ^ 32 →
      (∀ v args, s.ofJson j = .ok v → s.encodeBytes v = .ok args → args.length < 2 ^ 32) →
      ∃ args, ∀ source',
        decodeRequest s source' body =
          .ok (.object (Dictionary.ofList [("method", .string method), ("args", args)])) ∧
        encodeRequest s method source' args = .ok body) ∧
    ∀ s, σ.outputShape = .ok s → ∀ source j body,
      encodeResponse s source j = .ok body →
      (∀ v results, s.ofJson j = .ok v → s.encodeBytes v = .ok results → results.length < 2 ^ 32) →
      ∃ results, ∀ source', decodeResponse s source' body = .ok results ∧
        encodeResponse s source' results = .ok body := by
  constructor
  · intro s resolved method source j body written shortMethod short
    obtain ⟨v, args, read, encoded, rfl⟩ := encodeRequest_eq_ok_iff.1 written
    -- different names: no member is shared
    have distinct := Schema.distinctNames_of_resolve resolved
    obtain ⟨j', shown, again⟩ := Shape.exists_normal_form distinct read encoded
    exact ⟨j', fun source' =>
      ⟨decodeRequest_serialize shortMethod (short v args read encoded) encoded shown,
        encodeRequest_eq_ok_iff.2 ⟨v, args, again, encoded, rfl⟩⟩⟩
  · intro s resolved source j body written short
    obtain ⟨v, results, read, encoded, rfl⟩ := encodeResponse_eq_ok_iff.1 written
    have distinct := Schema.distinctNames_of_resolve resolved
    obtain ⟨j', shown, again⟩ := Shape.exists_normal_form distinct read encoded
    exact ⟨j', fun source' =>
      ⟨decodeResponse_serialize (short v results read encoded) encoded shown,
        encodeResponse_eq_ok_iff.2 ⟨v, results, again, encoded, rfl⟩⟩⟩

/-- A transfer is asked for with a member that no field takes, and answered with
a number for the balance: the normal form of either is converted to the same
body again. -/
theorem commands_inverse_transfer :
    let σ : Schema :=
      ⟨[("Transfer", [⟨"amount", .primitive "u64"⟩, ⟨"memo", .primitive "felt252"⟩]),
          ("Receipt", [⟨"settled", .primitive "bool"⟩, ⟨"balance", .primitive "i128"⟩])],
        "Transfer", "Receipt"⟩
    let s : Shape := .record "Transfer" [("amount", .unsigned .w64), ("memo", .felt)]
    let j : Json := .object [("amount", .string "7"), ("memo", .string "26729"), ("note", .null)]
    let body := Request.format.serialize ⟨"send", wordBytes [.reduce 7, .reduce 0x6869]⟩
    let s' : Shape := .record "Receipt" [("settled", .bool), ("balance", .signed .w128)]
    let j' : Json := .object [("balance", .number (.integer (-7))), ("settled", .bool true)]
    let body' := Response.format.serialize ⟨wordBytes [.reduce 1, .ofInt (-7)]⟩
    σ.inputShape = .ok s ∧ σ.outputShape = .ok s' ∧
    (encodeRequest s "send" .stdin j = .ok body ∧ ∃ args,
      decodeRequest s .stdin body =
        .ok (.object (Dictionary.ofList [("method", .string "send"), ("args", args)])) ∧
      encodeRequest s "send" .stdin args = .ok body) ∧
    encodeResponse s' .stdin j' = .ok body' ∧ ∃ results,
      decodeResponse s' .stdin body' = .ok results ∧
      encodeResponse s' .stdin results = .ok body' := by
  intro σ s j body s' j' body'
  have resolved : σ.inputShape = .ok s := by
    rw [Schema.inputShape, Schema.resolve, Schema.resolveBelow]
    rfl
  have resolved' : σ.outputShape = .ok s' := by
    rw [Schema.outputShape, Schema.resolve, Schema.resolveBelow]
    rfl
  have read : s.ofJson j = .ok (.record [.unsigned 7, .felt (.reduce 0x6869)]) := rfl
  have encoded : s.encodeBytes (.record [.unsigned 7, .felt (.reduce 0x6869)]) =
      .ok (wordBytes [.reduce 7, .reduce 0x6869]) := rfl
  have written : encodeRequest s "send" .stdin j = .ok body :=
    encodeRequest_eq_ok_iff.2 ⟨_, _, read, encoded, rfl⟩
  obtain ⟨args, found⟩ := (commands_inverse σ).1 s resolved "send" .stdin j body written
    (by decide) fun v args read' encoded' => by
      cases read.symm.trans read'
      cases encoded.symm.trans encoded'
      rw [length_wordBytes]
      decide
  have read' : s'.ofJson j' = .ok (.record [.bool true, .signed (-7)]) := rfl
  have encoded' : s'.encodeBytes (.record [.bool true, .signed (-7)]) =
      .ok (wordBytes [.reduce 1, .ofInt (-7)]) := rfl
  have written' : encodeResponse s' .stdin j' = .ok body' :=
    encodeResponse_eq_ok_iff.2 ⟨_, _, read', encoded', rfl⟩
  obtain ⟨results, found'⟩ := (commands_inverse σ).2 s' resolved' .stdin j' body' written'
    fun v results read encoded => by
      cases read'.symm.trans read
      cases encoded'.symm.trans encoded
      rw [length_wordBytes]
      decide
  exact ⟨resolved, resolved', ⟨written, args, found .stdin⟩, written', results, found' .stdin⟩

end FeltWire
