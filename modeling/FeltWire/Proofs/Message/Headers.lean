import FeltWire.Proofs.Command
import FeltWire.Proofs.Message.Edges

/-!
# The header decides first

A body is read in two ways: as a whole, or as a stream of which the first eight
bytes are taken and looked at on their own before the rest is. Each way has
tests of its own for bytes that are missing, and the version is tested where the
payload is read. In both ways the same question is asked first, so that a body
that is wrong in several respects is refused for the same one.

A body that is refused for its header is refused whatever stands behind it. Once
the header is right its eight bytes are known, and only then the payload is
read, from the bytes behind it alone. The headers of requests and responses
differ in their fourth byte, and so no body is both.

## Main definitions

* `BodyFormat.ofPayload`: the message that the bytes behind a right header hold
* `Failure.ofBody`: what a command reports about a body that is no message
* `BodyFormat.HeaderFirst`: what is received in either way, by the first thing
  that is wrong

## Main results

* `receive_eq`: a command receives what the whole body gives, failures included
* `BodyFormat.headerFirst`: the header decides first, for all formats of version
  one
* `header_decides`: it does for requests and responses, and no body is both
-/

namespace FeltWire

/-- **What a command reports** about a body that is no message. A body of fewer
than eight bytes ends while its header is read, before there is a header to look
at (`headerUnread`). -/
def Failure.ofBody (side : Side) (source : Source) : BodyError → Failure
  | .header .tooShort => .headerUnread source
  | .header .invalidMagic => .headerRefused source .invalidMagic
  | e => .bodyRefused side source e

namespace BodyFormat

variable {α : Type} {f : BodyFormat α} {bytes : List UInt8}

/-- The message that the bytes behind a right header hold, the `payload`. -/
def ofPayload (f : BodyFormat α) (payload : List UInt8) : Except BodyError α :=
  match f.read.run payload with
  | some (message, _) => .ok message
  | none => .error .payload

theorem deserialize_of_short (short : bytes.length < headerSize) :
    f.deserialize bytes = .error (.header .tooShort) := by
  rw [deserialize_eq, if_pos short]

theorem deserialize_of_magic_ne (long : headerSize ≤ bytes.length)
    (other : bytes.take 4 ≠ f.magic) : f.deserialize bytes = .error (.header .invalidMagic) := by
  rw [deserialize_eq, if_neg (Nat.not_lt.2 long), if_pos other]

theorem deserialize_of_version_ne (long : headerSize ≤ bytes.length)
    (magic : bytes.take 4 = f.magic) (other : versionOf bytes ≠ f.version) :
    f.deserialize bytes = .error (.unsupportedVersion (versionOf bytes) f.version) := by
  rw [deserialize_eq, if_neg (Nat.not_lt.2 long), if_neg (not_not_intro magic), if_pos other]

theorem deserialize_of_header (long : headerSize ≤ bytes.length) (magic : bytes.take 4 = f.magic)
    (version : versionOf bytes = f.version) :
    f.deserialize bytes = f.ofPayload (bytes.drop headerSize) := by
  rw [deserialize_eq, if_neg (Nat.not_lt.2 long), if_neg (not_not_intro magic),
    if_neg (not_not_intro version)]
  rfl

/-- A message has the `magic` bytes of its format in front of it. -/
theorem take_eq_magic {message : α} (h : f.deserialize bytes = .ok message) :
    bytes.take 4 = f.magic := by
  by_contra other
  rcases Nat.lt_or_ge bytes.length headerSize with short | long
  · rw [deserialize_of_short short] at h
    cases h
  · rw [deserialize_of_magic_ne long other] at h
    cases h

end BodyFormat

/-- The payload of a body that is long enough is not refused for its header:
`readPayload` fails in other ways only. -/
theorem BodyFormat.mapError_readPayload {α : Type} {f : BodyFormat α} {bytes : List UInt8}
    (long : ¬ bytes.length < headerSize) (version : Nat) (side : Side) (source : Source) :
    (f.readPayload bytes version).mapError (Failure.ofBody side source) =
      (f.readPayload bytes version).mapError (.bodyRefused side source) := by
  unfold readPayload
  rw [if_neg (mt length_take_lt_iff.1 long)]
  split
  · split <;> rfl
  · rfl

/-- **A command receives what the whole body gives**, and reports what is wrong
with the whole. The version is tested with the payload, so that only the magic
bytes part `receive` from `deserialize`. -/
theorem receive_eq {α : Type} (f : BodyFormat α) (side : Side) (source : Source)
    (bytes : List UInt8) :
    receive f side source bytes = (f.deserialize bytes).mapError (.ofBody side source) := by
  unfold receive
  simp only [List.take_append_drop, BodyFormat.peekVersion_take]
  by_cases short : bytes.length < BodyFormat.headerSize
  · rw [if_pos (BodyFormat.length_take_lt_iff.2 short), BodyFormat.deserialize_of_short short]
    rfl
  · have long := mt BodyFormat.length_take_lt_iff.1 short
    rw [if_neg long]
    unfold BodyFormat.deserialize BodyFormat.peekVersion
    rw [if_neg long]
    split
    · exact (BodyFormat.mapError_readPayload short _ side source).symm
    · rfl

namespace BodyFormat

variable {α : Type}

/-- **The header decides first.** What is received depends on the number of
bytes, then on the first four, then on the version that the next four are
(`versionOf`), and only then on what stands behind them. A command receives the
same message, or reports the same refusal. -/
structure HeaderFirst (f : BodyFormat α) (side : Side) (magic : List UInt8) : Prop where
  short : ∀ bytes, bytes.length < 8 → f.deserialize bytes = .error (.header .tooShort)
  otherMagic : ∀ bytes, 8 ≤ bytes.length → bytes.take 4 ≠ magic →
    f.deserialize bytes = .error (.header .invalidMagic)
  otherVersion : ∀ bytes, 8 ≤ bytes.length → bytes.take 4 = magic → versionOf bytes ≠ 1 →
    f.deserialize bytes = .error (.unsupportedVersion (versionOf bytes) 1)
  /-- Reading the payload sees nothing of the header. -/
  payload : ∀ bytes, 8 ≤ bytes.length → bytes.take 4 = magic → versionOf bytes = 1 →
    f.deserialize bytes = f.ofPayload (bytes.drop 8)
  received : ∀ source bytes message,
    receive f side source bytes = .ok message ↔ f.deserialize bytes = .ok message
  refused : ∀ source bytes e, f.deserialize bytes = .error e →
    receive f side source bytes = .error (.ofBody side source e)

/-- The header decides first in every format `f` of version one. -/
theorem headerFirst (f : BodyFormat α) (side : Side) (one : f.version = 1) :
    f.HeaderFirst side f.magic where
  short _ short := deserialize_of_short short
  otherMagic _ long other := deserialize_of_magic_ne long other
  otherVersion _ long magic other := by
    rw [← one] at other ⊢
    exact deserialize_of_version_ne long magic other
  payload _ long magic version := deserialize_of_header long magic (version.trans one.symm)
  received _ _ _ := receive_eq_ok_iff
  refused source bytes e failed := by rw [receive_eq, failed]; rfl

end BodyFormat

/-- **The header decides first** (`HeaderFirst`), for requests and for
responses, whose magic bytes differ in the last one. No bytes are received both
as a request and as a response. -/
theorem header_decides :
    Request.format.HeaderFirst .request [0x4f, 0x52, 0x43, 0x51] ∧
    Response.format.HeaderFirst .response [0x4f, 0x52, 0x43, 0x52] ∧
    ∀ bytes request response, Request.format.deserialize bytes = .ok request →
      Response.format.deserialize bytes ≠ .ok response := by
  refine ⟨Request.format.headerFirst .request rfl, Response.format.headerFirst .response rfl, ?_⟩
  intro bytes request response asked answered
  have magic := (BodyFormat.take_eq_magic asked).symm.trans (BodyFormat.take_eq_magic answered)
  exact absurd magic (by decide)

/-- A response of another version whose payload is none either, read as each
kind; a body that is cut inside other magic bytes; and an empty response. -/
theorem header_decides_several_faults :
    let body : List UInt8 := [0x4f, 0x52, 0x43, 0x52, 0, 0, 1, 2, 0xc1]
    let empty : List UInt8 := [0x4f, 0x52, 0x43, 0x52, 0, 0, 0, 1, 0x91, 0x90]
    Request.format.deserialize body = .error (.header .invalidMagic) ∧
    Response.format.deserialize body = .error (.unsupportedVersion 258 1) ∧
      receive Response.format .response .stdin body =
        .error (.bodyRefused .response .stdin (.unsupportedVersion 258 1)) ∧
    Request.format.deserialize (body.take 7) = .error (.header .tooShort) ∧
      receive Request.format .request .stdin (body.take 7) = .error (.headerUnread .stdin) ∧
    Response.format.deserialize empty = .ok ⟨[]⟩ ∧
      receive Response.format .response .stdin empty = .ok ⟨[]⟩ ∧
      Request.format.deserialize empty ≠ .ok ⟨"", []⟩ := by
  intro body empty
  obtain ⟨asked, answered, exclusive⟩ := header_decides
  have other : Response.format.deserialize body = .error (.unsupportedVersion 258 1) :=
    answered.otherVersion body (by decide) (by decide) (by decide)
  have cut : Request.format.deserialize (body.take 7) = .error (.header .tooShort) :=
    asked.short (body.take 7) (by decide)
  have held : Response.format.read.run (empty.drop 8) = some (⟨[]⟩, []) := by decide
  have read : Response.format.deserialize empty = .ok ⟨[]⟩ := by
    rw [answered.payload empty (by decide) (by decide) (by decide), BodyFormat.ofPayload, held]
  exact ⟨asked.otherMagic body (by decide) (by decide), other, answered.refused _ _ _ other, cut,
    asked.refused _ _ _ cut, read, (answered.received _ _ _).2 read,
    fun both => exclusive empty _ _ both read⟩

end FeltWire
