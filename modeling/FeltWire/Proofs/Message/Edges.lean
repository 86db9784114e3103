import FeltWire.Proofs.Message

/-!
# Where bodies begin and end

Three questions are asked of a body, in this order: are there eight bytes, are
they those of the format, and is the rest a message. A body of a message
therefore fails in one way only at each place where it can be cut, a body with
another header is refused whatever follows it, and what follows a whole body is
never looked at.

## Main definitions

* `BodyFormat.Delimits`: a body that breaks off, has another header or is
  followed by more

## Main results

* `BodyFormat.deserialize_eq`: the three questions
* `BodyFormat.delimits`: how bodies end, for messages that are read as they are
  written
* `bodies_delimited`: requests and responses that can be counted
-/

namespace FeltWire

open MessagePack

namespace BodyFormat

variable {α : Type} {f : BodyFormat α} {message : α} {bytes : List UInt8}

/-- The version in a header, the four bytes behind the magic ones. -/
def versionOf (bytes : List UInt8) : Nat := BigEndian.decode ((bytes.drop 4).take 4)

/-- The first `headerSize` bytes are as many exactly if there are eight. -/
theorem length_take_lt_iff : (bytes.take headerSize).length < headerSize ↔
    bytes.length < headerSize := by
  rw [List.length_take]
  omega

/-- **What decides about a body**: its length, its first four bytes, the next
four (`versionOf`), and only then the rest. -/
theorem deserialize_eq (f : BodyFormat α) (bytes : List UInt8) :
    f.deserialize bytes =
      if bytes.length < headerSize then .error (.header .tooShort)
      else if bytes.take 4 ≠ f.magic then .error (.header .invalidMagic)
      else if versionOf bytes ≠ f.version then
        .error (.unsupportedVersion (versionOf bytes) f.version)
      else match f.read.run (bytes.drop headerSize) with
        | some (message, _) => .ok message
        | none => .error .payload := by
  unfold deserialize peekVersion
  by_cases short : bytes.length < headerSize
  · rw [if_pos (length_take_lt_iff.2 short), if_pos short]
  · have long := mt length_take_lt_iff.1 short
    rw [if_neg long, if_neg short]
    by_cases magic : bytes.take 4 = f.magic
    · rw [if_pos magic, if_neg (not_not_intro magic)]
      show f.readPayload bytes (versionOf bytes) = _
      unfold readPayload
      by_cases version : versionOf bytes = f.version
      · rw [if_pos version, if_neg long]
        exact (if_neg (not_not_intro version)).symm
      · rw [if_neg version, if_pos version]
    · rw [if_neg magic, if_pos magic]

/-- The first eight bytes are the `frame` of a format if they have its magic
bytes and its version. -/
theorem take_eq_frame (long : headerSize ≤ bytes.length) (magic : bytes.take 4 = f.magic)
    (version : versionOf bytes = f.version) : bytes.take headerSize = f.frame := by
  have four : ((bytes.drop 4).take 4).length = 4 := by
    rw [List.length_take, List.length_drop]
    have : 8 ≤ bytes.length := long
    omega
  have last : (bytes.drop 4).take 4 = BigEndian.encode 4 f.version := by
    rw [← version, versionOf]
    have own := BigEndian.encode_decode ((bytes.drop 4).take 4)
    rwa [four, eq_comm] at own
  calc bytes.take (4 + 4) = bytes.take 4 ++ (bytes.drop 4).take 4 := List.take_add
    _ = f.frame := by rw [magic, last, frame]

/-- **Another header** is refused, whatever follows it: the `magic` bytes or the
version are not those of the format. -/
theorem deserialize_of_take_ne (long : headerSize ≤ bytes.length)
    (other : bytes.take headerSize ≠ f.frame) :
    f.deserialize bytes = .error (.header .invalidMagic) ∨
      ∃ got, got ≠ f.version ∧
        f.deserialize bytes = .error (.unsupportedVersion got f.version) := by
  rw [deserialize_eq, if_neg (Nat.not_lt.2 long)]
  by_cases magic : bytes.take 4 = f.magic
  · right
    have version : versionOf bytes ≠ f.version := by
      intro same
      exact other (take_eq_frame long magic same)
    rw [if_neg (not_not_intro magic), if_pos version]
    exact ⟨versionOf bytes, version, rfl⟩
  · left
    exact if_pos magic

/-- **The edges of a body**: what `deserialize` receives if the body of
`message` breaks off, if its first eight bytes are not those of `serialize`, and
if something follows it. -/
structure Delimits (f : BodyFormat α) (message : α) : Prop where
  cut : ∀ k, k < (f.serialize message).length →
    f.deserialize ((f.serialize message).take k) =
      .error (if k < 8 then .header .tooShort else .payload)
  altered : ∀ body, 8 ≤ body.length → body.take 8 ≠ (f.serialize message).take 8 →
    f.deserialize body = .error (.header .invalidMagic) ∨
      ∃ got, got ≠ f.version ∧ f.deserialize body = .error (.unsupportedVersion got f.version)
  followed : ∀ rest, f.deserialize (f.serialize message ++ rest) = .ok message

/-- **A message that is read as it is `written`** has a body with these edges:
`deserialize_take`, `deserialize_of_take_ne` and `deserialize_serialize_append`
are the three of `Delimits`. -/
theorem delimits (written : Reads f.read (f.write message) message) : f.Delimits message where
  cut k hk := deserialize_take written hk
  altered body long other := by
    have own : (f.serialize message).take 8 = f.frame := by
      rw [serialize_eq]
      exact List.take_left' f.length_frame
    rw [own] at other
    exact deserialize_of_take_ne long other
  followed rest := deserialize_serialize_append written rest

end BodyFormat

/-- **Bodies are robust at their edges.** A body that breaks off lacks its
header or its payload, a body with another header is refused for its header, and
whatever follows a body is left alone (`Delimits`). This holds for requests and
responses whose parts can be counted. -/
theorem bodies_delimited :
    (∀ r : Request, (Utf8.encode r.method).length < 2 ^ 32 → r.args.length < 2 ^ 32 →
      Request.format.Delimits r) ∧
    ∀ r : Response, r.results.length < 2 ^ 32 → Response.format.Delimits r := by
  constructor
  · intro r method args
    exact BodyFormat.delimits (Request.reads_write method args)
  · intro r results
    exact BodyFormat.delimits (Response.reads_write results)

/-- A request and a response at each edge of `Delimits`: cut in the header and
in the payload, with another version, with the magic bytes of the other kind,
and followed by a byte. -/
theorem bodies_delimited_quote :
    let r : Request := ⟨"quote", [1, 200]⟩
    let body := Request.format.serialize r
    let other := [0x4f, 0x52, 0x43, 0x51, 0, 0, 0, 2, 0x92]
    let answer := Response.format.serialize ⟨[1, 200]⟩
    (Utf8.encode r.method).length < 2 ^ 32 ∧ r.args.length < 2 ^ 32 ∧
      body = [0x4f, 0x52, 0x43, 0x51, 0, 0, 0, 1, 0x92, 0xa5, 113, 117, 111, 116, 101, 0x92, 1,
        0xcc, 200] ∧
      Request.format.deserialize (body.take 3) = .error (.header .tooShort) ∧
      Request.format.deserialize (body.take 18) = .error .payload ∧
      Request.format.deserialize (body ++ [7]) = .ok r ∧
      (8 ≤ other.length ∧ other.take 8 ≠ body.take 8 ∧
        (Request.format.deserialize other = .error (.header .invalidMagic) ∨
          ∃ got, got ≠ Request.format.version ∧ Request.format.deserialize other =
            .error (.unsupportedVersion got Request.format.version))) ∧
    Response.format.deserialize (answer ++ [7]) = .ok ⟨[1, 200]⟩ ∧
      (8 ≤ body.length ∧ body.take 8 ≠ answer.take 8 ∧
        (Response.format.deserialize body = .error (.header .invalidMagic) ∨
          ∃ got, got ≠ Response.format.version ∧ Response.format.deserialize body =
            .error (.unsupportedVersion got Response.format.version))) := by
  intro r body other answer
  have layout : body = [0x4f, 0x52, 0x43, 0x51, 0, 0, 0, 1, 0x92, 0xa5, 113, 117, 111, 116, 101,
      0x92, 1, 0xcc, 200] := by decide
  have size : body.length = 19 := by rw [layout]; rfl
  have edges : Request.format.Delimits r := bodies_delimited.1 r (by decide) (by decide)
  have edges' : Response.format.Delimits ⟨[1, 200]⟩ := bodies_delimited.2 _ (by decide)
  have version : other.take 8 ≠ body.take 8 := by decide
  have kind : body.take 8 ≠ answer.take 8 := by decide
  have long : 8 ≤ body.length := by rw [size]; decide
  exact ⟨by decide, by decide, layout, edges.cut 3 (by rw [size]; decide),
    edges.cut 18 (by rw [size]; decide), edges.followed [7],
    ⟨by decide, version, edges.altered other (by decide) version⟩,
    edges'.followed [7], long, kind, edges'.altered body long kind⟩

end FeltWire
