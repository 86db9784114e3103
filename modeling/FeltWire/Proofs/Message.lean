import FeltWire.Message
import FeltWire.Proofs.Codec.Exact
import FeltWire.Proofs.MessagePack

/-!
# What is sent is received

The first eight bytes of a body are the same for all messages of a format.
Behind them the message is read from what it is written as, and in it the value
of its shape.

## Main definitions

* `BodyFormat.frame`: the bytes in front of every message of a format

## Main results

* `BodyFormat.deserialize_frame`: behind the frame, reading the payload decides
* `BodyFormat.deserialize_serialize`, `BodyFormat.deserialize_take`: whole
  bodies and bodies that break off, of messages that are read as they are
  written
* `Request.reads_write`, `Response.reads_write`: both kinds of messages are
* `calls_cross`: calls and results cross bodies of messages
-/

namespace FeltWire

open MessagePack

/-! ## Formats -/

namespace BodyFormat

variable {α : Type}

/-- The bytes in front of every message of a format: its `magic` and its
`version`. -/
def frame (f : BodyFormat α) : List UInt8 := f.magic ++ BigEndian.encode 4 f.version

@[simp] theorem length_frame (f : BodyFormat α) : f.frame.length = headerSize := by
  simp [frame, f.length_magic, headerSize]

theorem serialize_eq (f : BodyFormat α) (message : α) :
    f.serialize message = f.frame ++ f.write message := rfl

/-- The `frame` of a format tells its version, whatever stands behind it. -/
theorem peekVersion_frame (f : BodyFormat α) (payload : List UInt8) :
    f.peekVersion (f.frame ++ payload) = .ok f.version := by
  have whole : ((f.frame ++ payload).take headerSize).length = headerSize := by simp
  have magic : (f.frame ++ payload).take 4 = f.magic := by
    rw [frame, List.append_assoc]
    exact List.take_left' f.length_magic
  have version : ((f.frame ++ payload).drop 4).take 4 = BigEndian.encode 4 f.version := by
    rw [frame, List.append_assoc, List.drop_left' f.length_magic]
    exact List.take_left' (BigEndian.length_encode 4 f.version)
  rw [peekVersion, if_neg (by omega), if_pos magic, version, BigEndian.decode_encode,
    Nat.mod_eq_of_lt f.version_lt]

/-- **Behind the `frame`, reading the payload decides** about the whole body. -/
theorem deserialize_frame (f : BodyFormat α) (payload : List UInt8) :
    f.deserialize (f.frame ++ payload) =
      match f.read.run payload with
      | some (message, _) => .ok message
      | none => .error .payload := by
  have whole : ((f.frame ++ payload).take headerSize).length = headerSize := by simp
  have behind : (f.frame ++ payload).drop headerSize = payload :=
    List.drop_left' f.length_frame
  have decided : f.readPayload (f.frame ++ payload) f.version =
      match f.read.run ((f.frame ++ payload).drop headerSize) with
      | some (message, _) => .ok message
      | none => .error .payload := (if_pos rfl).trans (if_neg (by omega))
  rw [behind] at decided
  rw [deserialize, peekVersion_frame]
  exact decided

theorem peekVersion_serialize (f : BodyFormat α) (message : α) :
    f.peekVersion (f.serialize message) = .ok f.version :=
  f.peekVersion_frame (f.write message)

/-- **A message that is read as it is `written`** is the message of its body,
also if something follows it. -/
theorem deserialize_serialize_append {f : BodyFormat α} {message : α}
    (written : Reads f.read (f.write message) message) (rest : List UInt8) :
    f.deserialize (f.serialize message ++ rest) = .ok message := by
  rw [serialize_eq, List.append_assoc, deserialize_frame, written.reads]

theorem deserialize_serialize {f : BodyFormat α} {message : α}
    (written : Reads f.read (f.write message) message) :
    f.deserialize (f.serialize message) = .ok message := by
  have received := deserialize_serialize_append written []
  rwa [List.append_nil] at received

/-- **A body that breaks off** after `k` bytes is no message: its first eight
bytes or its payload are missing. -/
theorem deserialize_take {f : BodyFormat α} {message : α}
    (written : Reads f.read (f.write message) message) {k : Nat}
    (hk : k < (f.serialize message).length) :
    f.deserialize ((f.serialize message).take k) =
      .error (if k < headerSize then .header .tooShort else .payload) := by
  by_cases cut : k < headerSize
  · have few : (((f.serialize message).take k).take headerSize).length < headerSize := by
      rw [List.length_take, List.length_take]
      omega
    rw [if_pos cut, deserialize, peekVersion, if_pos few]
  · rw [serialize_eq, List.length_append, length_frame] at hk
    have whole : f.frame.length ≤ k := f.length_frame ▸ Nat.le_of_not_lt cut
    have missed := written.starves (k - headerSize) (by omega)
    rw [if_neg cut, serialize_eq, List.take_append, List.take_of_length_le whole, length_frame,
      deserialize_frame, missed]

end BodyFormat

/-! ## Requests and responses -/

/-- **Requests** are read as they are written, if both parts can be counted, the
`method` as well as the arguments. -/
theorem Request.reads_write {r : Request} (method : (Utf8.encode r.method).length < 2 ^ 32)
    (args : r.args.length < 2 ^ 32) : Reads format.read (format.write r) r := by
  simp only [format, List.append_assoc]
  exact (reads_arrayHeader (by decide)).bind ((reads_guard rfl).bind
    ((reads_text method).bind ((reads_integers args).map (mk r.method))))

/-- **Responses** are read as they are written, if the `results` can be
counted. -/
theorem Response.reads_write {r : Response} (results : r.results.length < 2 ^ 32) :
    Reads format.read (format.write r) r :=
  (reads_arrayHeader (by decide)).bind ((reads_guard rfl).bind ((reads_integers results).map mk))

/-! ## Calls and their results -/

theorem Request.ofValue_eq_ok_iff {method : String} {s : Shape} {v : Value} {r : Request} :
    ofValue method s v = .ok r ↔ r.method = method ∧ s.encodeBytes v = .ok r.args := by
  rw [ofValue, map_eq_ok_iff]
  constructor
  · rintro ⟨bytes, encoded, rfl⟩
    exact ⟨rfl, encoded⟩
  · rintro ⟨rfl, encoded⟩
    exact ⟨r.args, encoded, rfl⟩

theorem Response.ofValue_eq_ok_iff {s : Shape} {v : Value} {r : Response} :
    ofValue s v = .ok r ↔ s.encodeBytes v = .ok r.results := by
  rw [ofValue, map_eq_ok_iff]
  constructor
  · rintro ⟨bytes, encoded, rfl⟩
    exact encoded
  · intro encoded
    exact ⟨r.results, encoded, rfl⟩

/-- **A call crosses its body.** The body of a call says version one
(`peekVersion`) and holds that call, its arguments being those of the caller;
likewise the results on the way back. -/
theorem calls_cross (s : Shape) (v : Value) :
    (∀ method r, Request.ofValue method s v = .ok r →
      (Utf8.encode method).length < 2 ^ 32 → r.args.length < 2 ^ 32 →
        Request.format.peekVersion (Request.format.serialize r) = .ok 1 ∧
          ∃ r', Request.format.deserialize (Request.format.serialize r) = .ok r' ∧
            r' = r ∧ r'.method = method ∧ r'.decodeArgs s = .ok v) ∧
    ∀ r, Response.ofValue s v = .ok r → r.results.length < 2 ^ 32 →
      Response.format.peekVersion (Response.format.serialize r) = .ok 1 ∧
        ∃ r', Response.format.deserialize (Response.format.serialize r) = .ok r' ∧
          r' = r ∧ r'.decodeResults s = .ok v := by
  constructor
  -- the call
  · intro method r called shortMethod shortArgs
    obtain ⟨rfl, encoded⟩ := Request.ofValue_eq_ok_iff.1 called
    exact ⟨Request.format.peekVersion_serialize r, r,
      BodyFormat.deserialize_serialize (Request.reads_write shortMethod shortArgs), rfl, rfl,
      Shape.decode_eq_ok_iff.2 encoded⟩
  -- the reply
  · intro r answered shortResults
    have encoded := Response.ofValue_eq_ok_iff.1 answered
    exact ⟨Response.format.peekVersion_serialize r, r,
      BodyFormat.deserialize_serialize (Response.reads_write shortResults), rfl,
      Shape.decode_eq_ok_iff.2 encoded⟩

theorem calls_cross_quote :
    let s : Shape := .tuple [.unsigned .w16, .bytes]
    let v : Value := .tuple [.unsigned 300, .bytes [0x68, 0x69]]
    let bytes := wordBytes [.reduce 300, .reduce 0, .reduce 0x6869, .reduce 2]
    let r : Request := ⟨"quote", bytes⟩
    Request.ofValue "quote" s v = .ok r ∧
      Request.format.deserialize (Request.format.serialize r) = .ok r ∧
      r.decodeArgs s = .ok v ∧
    Response.ofValue s v = .ok ⟨bytes⟩ ∧
      Response.format.deserialize (Response.format.serialize ⟨bytes⟩) = .ok ⟨bytes⟩ := by
  intro s v bytes r
  have short : bytes.length < 2 ^ 32 := by
    rw [length_wordBytes]
    decide
  obtain ⟨-, r', received, rfl, -, decoded⟩ :=
    (calls_cross s v).1 "quote" r rfl (by decide) short
  obtain ⟨-, r'', returned, rfl, -⟩ := (calls_cross s v).2 ⟨bytes⟩ rfl short
  exact ⟨rfl, received, decoded, rfl, returned⟩

end FeltWire
