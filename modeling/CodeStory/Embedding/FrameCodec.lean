import Mathlib.Algebra.Ring.Nat
import CodeStory.Lib.Framing

/-!
# Protocol frames on the wire

A frame is two big-endian lengths, a JSON control value and a payload. `writeFrame` and
`readFrame` are the blocking codec; the held lease polls its stream with a reader that keeps
what has arrived. JSON is a parameter. Writing to the stream, its time limits and the
transport's own errors are left out; a read of the stream is an answer of the world.
-/

set_option autoImplicit false

namespace CodeStory.FrameCodec

open Framing

def perUserEmbeddingMaxMetadataBytes : Nat := 16 * 1024 * 1024

def perUserEmbeddingMaxPayloadBytes : Nat := 16 * 1024 * 1024

abbrev Bytes := List UInt8

/-- `serde_json::to_vec` and `serde_json::from_slice` at one type. The empty slice is no JSON
value. -/
structure ControlCodec (T : Type) where
  toVec : T → Option Bytes
  fromSlice : Bytes → Option T
  fromSlice_toVec : ∀ {control bytes}, toVec control = some bytes →
    fromSlice bytes = some control
  fromSlice_nil : fromSlice [] = none

abbrev Frame (T : Type) := T × Bytes

/-- `(n as u32).to_be_bytes()`; the conversion to a byte drops the higher digits. -/
def toBeBytes (n : Nat) : Bytes :=
  [UInt8.ofNat (n / 2 ^ 24), UInt8.ofNat (n / 2 ^ 16), UInt8.ofNat (n / 2 ^ 8), UInt8.ofNat n]

/-- `u32::from_be_bytes` of a slice of four bytes. -/
def fromBeBytes (bytes : Bytes) : Nat := bytes.foldl (fun n b => n * 256 + b.toNat) 0

inductive WriteFrameError where
  | serialize
  | frameTooLarge
  deriving DecidableEq, Repr

inductive ReadFrameError where
  | controlLength
  | payloadLength
  | frameTooLarge
  | controlFrame
  | payloadFrame
  | decodeControl
  deriving DecidableEq, Repr

inductive PollError where
  | frameTooLarge
  | frameLengthOverflow
  | decodeControl
  | frameTruncated
  | readFailed
  deriving DecidableEq, Repr

def WriteFrameError.message : WriteFrameError → String
  | .serialize => "serialize embedding protocol frame"
  | .frameTooLarge => "embedding_server_frame_too_large"

def ReadFrameError.message : ReadFrameError → String
  | .controlLength => "read embedding control length"
  | .payloadLength => "read embedding payload length"
  | .frameTooLarge => "embedding_server_frame_too_large"
  | .controlFrame => "read embedding control frame"
  | .payloadFrame => "read embedding payload frame"
  | .decodeControl => "decode embedding protocol control frame"

def PollError.message : PollError → String
  | .frameTooLarge => "embedding_server_frame_too_large"
  | .frameLengthOverflow => "embedding_server_frame_length_overflow"
  | .decodeControl => "decode held embedding lease control frame"
  | .frameTruncated => "embedding_server_frame_truncated"
  | .readFailed => "read held embedding lease frame"

section Codec
variable {T : Type} (codec : ControlCodec T)

def writeFrame (control : T) (payload : Bytes) : Except WriteFrameError Bytes :=
  match codec.toVec control with
  | none => .error .serialize
  | some control =>
    if control.length > perUserEmbeddingMaxMetadataBytes ∨
        payload.length > perUserEmbeddingMaxPayloadBytes then
      .error .frameTooLarge
    else
      .ok (toBeBytes control.length ++ toBeBytes payload.length ++ control ++ payload)

/-- `Read::read_exact` on a stream that holds these bytes and then ends. -/
def readExact (n : Nat) (stream : Bytes) : Option (Bytes × Bytes) :=
  if n ≤ stream.length then some (stream.take n, stream.drop n) else none

def readFrame (stream : Bytes) : Except ReadFrameError (Frame T × Bytes) :=
  match readExact 4 stream with
  | none => .error .controlLength
  | some (controlLen, stream) =>
    match readExact 4 stream with
    | none => .error .payloadLength
    | some (payloadLen, stream) =>
      let controlLen := fromBeBytes controlLen
      let payloadLen := fromBeBytes payloadLen
      if controlLen = 0 ∨ controlLen > perUserEmbeddingMaxMetadataBytes ∨
          payloadLen > perUserEmbeddingMaxPayloadBytes then
        .error .frameTooLarge
      else
        match readExact controlLen stream with
        | none => .error .controlFrame
        | some (control, stream) =>
          match readExact payloadLen stream with
          | none => .error .payloadFrame
          | some (payload, stream) =>
            match codec.fromSlice control with
            | none => .error .decodeControl
            | some control => .ok ((control, payload), stream)

structure IncrementalProtocolFrameReader where
  bytes : Bytes
  -- history: what `drain` has removed from the buffer
  drained : Bytes
  deriving DecidableEq, Repr

/-- `self.bytes.drain(..frame_len)` -/
def IncrementalProtocolFrameReader.drain (reader : IncrementalProtocolFrameReader)
    (frameLen : Nat) : IncrementalProtocolFrameReader where
  bytes := reader.bytes.drop frameLen
  drained := reader.drained ++ reader.bytes.take frameLen

inductive ProtocolFramePoll (T : Type) where
  | pending
  | closed
  | ready (frame : Frame T)

def checkedAdd (a b : Nat) : Option Nat := if a + b < 2 ^ 64 then some (a + b) else none

/-- The frame at the front of the buffer, and how much of the buffer it takes. -/
def decodeReady (bytes : Bytes) : Except PollError (Option (Frame T × Nat)) :=
  if bytes.length < 8 then .ok none
  else
    let controlLen := fromBeBytes (bytes.take 4)
    let payloadLen := fromBeBytes ((bytes.drop 4).take 4)
    if controlLen = 0 ∨ controlLen > perUserEmbeddingMaxMetadataBytes ∨
        payloadLen > perUserEmbeddingMaxPayloadBytes then
      .error .frameTooLarge
    else
      match (checkedAdd 8 controlLen).bind (checkedAdd · payloadLen) with
      | none => .error .frameLengthOverflow
      | some frameLen =>
        if bytes.length < frameLen then .ok none
        else
          match codec.fromSlice ((bytes.drop 8).take controlLen) with
          | none => .error .decodeControl
          | some control =>
            .ok (some ((control, (bytes.take frameLen).drop (8 + controlLen)), frameLen))

/-- What a read of the stream gives: `read []` is its end, `disconnected` any of the kinds
that count as one. -/
inductive ReadOutcome where
  | read (chunk : Bytes)
  | timedOut
  | disconnected
  | failed
  deriving DecidableEq, Repr

/-- The next read; a stream that has nothing more to say has ended. -/
def nextRead : List ReadOutcome → ReadOutcome × List ReadOutcome
  | [] => (.read [], [])
  | outcome :: stream => (outcome, stream)

abbrev Polled (T : Type) :=
  Except PollError (ProtocolFramePoll T) × IncrementalProtocolFrameReader × List ReadOutcome

/-- The second `decode_ready` of a poll, after a read. -/
def pollDecoded (reader : IncrementalProtocolFrameReader) (stream : List ReadOutcome) :
    Polled T :=
  match decodeReady codec reader.bytes with
  | .error e => (.error e, reader, stream)
  | .ok (some (frame, frameLen)) => (.ok (.ready frame), reader.drain frameLen, stream)
  | .ok none => (.ok .pending, reader, stream)

def poll (reader : IncrementalProtocolFrameReader) (stream : List ReadOutcome) : Polled T :=
  match decodeReady codec reader.bytes with
  | .error e => (.error e, reader, stream)
  | .ok (some (frame, frameLen)) => (.ok (.ready frame), reader.drain frameLen, stream)
  | .ok none =>
    let (outcome, stream) := nextRead stream
    match outcome with
    | .read [] =>
      if reader.bytes.isEmpty then (.ok .closed, reader, stream)
      else (.error .frameTruncated, reader, stream)
    | .read chunk => pollDecoded codec { reader with bytes := reader.bytes ++ chunk } stream
    | .timedOut => (.ok .pending, reader, stream)
    | .disconnected => (.ok .closed, reader, stream)
    | .failed => (.error .readFailed, reader, stream)

end Codec

section Header

theorem fromBeBytes_toBeBytes {n : Nat} (h : n < 2 ^ 32) : fromBeBytes (toBeBytes n) = n := by
  simp only [toBeBytes, fromBeBytes, List.foldl_cons, List.foldl_nil, UInt8.toNat_ofNat']
  omega

@[simp] theorem toBeBytes_length (n : Nat) : (toBeBytes n).length = 4 := rfl

/-- The two lengths that the first eight bytes give. -/
def controlLength (bytes : Bytes) : Nat := fromBeBytes (bytes.take 4)

def payloadLength (bytes : Bytes) : Nat := fromBeBytes ((bytes.drop 4).take 4)

def Oversized (bytes : Bytes) : Prop :=
  controlLength bytes = 0 ∨ controlLength bytes > perUserEmbeddingMaxMetadataBytes ∨
    payloadLength bytes > perUserEmbeddingMaxPayloadBytes

instance (bytes : Bytes) : Decidable (Oversized bytes) :=
  inferInstanceAs (Decidable (_ ∨ _ ∨ _))

def frameLength (bytes : Bytes) : Nat := 8 + controlLength bytes + payloadLength bytes

variable {bytes : Bytes}

/-- The header is read off the first eight bytes. -/
theorem header_append (h : 8 ≤ bytes.length) (ys : Bytes) :
    controlLength (bytes ++ ys) = controlLength bytes ∧
      payloadLength (bytes ++ ys) = payloadLength bytes := by
  refine ⟨?_, ?_⟩
  · unfold controlLength
    rw [List.take_append_of_le_length (by omega)]
  · unfold payloadLength
    rw [List.drop_append_of_le_length (by omega),
      List.take_append_of_le_length (by rw [List.length_drop]; omega)]

theorem oversized_append (h : 8 ≤ bytes.length) (ys : Bytes) :
    Oversized (bytes ++ ys) ↔ Oversized bytes := by
  obtain ⟨hcontrol, hpayload⟩ := header_append h ys
  unfold Oversized
  rw [hcontrol, hpayload]

/-- The limits keep the length of a frame far from overflow. -/
theorem frameLen_checked (h : ¬ Oversized bytes) :
    (checkedAdd 8 (controlLength bytes)).bind (checkedAdd · (payloadLength bytes)) =
      some (frameLength bytes) := by
  unfold Oversized perUserEmbeddingMaxMetadataBytes perUserEmbeddingMaxPayloadBytes at h
  have hfirst : checkedAdd 8 (controlLength bytes) = some (8 + controlLength bytes) :=
    if_pos (by omega)
  rw [hfirst, Option.bind_some]
  exact if_pos (by omega)

end Header

section Decoder
variable {T : Type} {codec : ControlCodec T} {bytes : Bytes}

def controlBytes (bytes : Bytes) : Bytes := (bytes.drop 8).take (controlLength bytes)

def payloadBytes (bytes : Bytes) : Bytes :=
  (bytes.take (frameLength bytes)).drop (8 + controlLength bytes)

theorem decodeReady_short (h : bytes.length < 8) : decodeReady codec bytes = .ok none :=
  if_pos h

theorem decodeReady_oversized (h : 8 ≤ bytes.length) (hbig : Oversized bytes) :
    decodeReady codec bytes = .error .frameTooLarge := by
  unfold decodeReady
  rw [if_neg (by omega)]
  exact if_pos hbig

theorem decodeReady_sized (h : 8 ≤ bytes.length) (hfits : ¬ Oversized bytes) :
    decodeReady codec bytes =
      if bytes.length < frameLength bytes then .ok none
      else
        match codec.fromSlice (controlBytes bytes) with
        | none => .error .decodeControl
        | some control => .ok (some ((control, payloadBytes bytes), frameLength bytes)) := by
  have hlen := frameLen_checked hfits
  unfold decodeReady
  rw [if_neg (by omega)]
  refine (if_neg hfits).trans ?_
  unfold controlLength payloadLength at hlen
  rw [hlen]
  rfl

/-- A frame that was decoded, with everything that was checked on the way. -/
theorem decodeReady_some {frame : Frame T} {n : Nat}
    (h : decodeReady codec bytes = .ok (some (frame, n))) :
    8 ≤ bytes.length ∧ ¬ Oversized bytes ∧ n = frameLength bytes ∧ n ≤ bytes.length ∧
      codec.fromSlice (controlBytes bytes) = some frame.1 ∧ frame.2 = payloadBytes bytes := by
  by_cases hshort : bytes.length < 8
  · rw [decodeReady_short hshort] at h
    exact absurd h (by simp)
  have hlong : 8 ≤ bytes.length := by omega
  by_cases hbig : Oversized bytes
  · rw [decodeReady_oversized hlong hbig] at h
    exact absurd h (by simp)
  rw [decodeReady_sized hlong hbig] at h
  split at h
  · exact absurd h (by simp)
  · rename_i hwhole
    split at h
    · exact absurd h (by simp)
    · rename_i control hcontrol
      obtain ⟨rfl, rfl⟩ := Prod.mk.inj (Option.some.inj (Except.ok.inj h))
      exact ⟨hlong, hbig, rfl, by omega, hcontrol, rfl⟩

theorem decodeReady_error {e : PollError} (h : decodeReady codec bytes = .error e) :
    8 ≤ bytes.length ∧ (Oversized bytes ∧ e = .frameTooLarge ∨
      ¬ Oversized bytes ∧ frameLength bytes ≤ bytes.length ∧
        codec.fromSlice (controlBytes bytes) = none ∧ e = .decodeControl) := by
  by_cases hshort : bytes.length < 8
  · rw [decodeReady_short hshort] at h
    exact absurd h (by simp)
  have hlong : 8 ≤ bytes.length := by omega
  refine ⟨hlong, ?_⟩
  by_cases hbig : Oversized bytes
  · rw [decodeReady_oversized hlong hbig] at h
    exact .inl ⟨hbig, (Except.error.inj h).symm⟩
  rw [decodeReady_sized hlong hbig] at h
  split at h
  · exact absurd h (by simp)
  · rename_i hwhole
    split at h
    · rename_i hcontrol
      exact .inr ⟨hbig, by omega, hcontrol, (Except.error.inj h).symm⟩
    · exact absurd h (by simp)

/-- A whole frame at the front is not changed by what follows it. -/
theorem contents_append (h : 8 ≤ bytes.length) (hwhole : frameLength bytes ≤ bytes.length)
    (ys : Bytes) : frameLength (bytes ++ ys) = frameLength bytes ∧
      controlBytes (bytes ++ ys) = controlBytes bytes ∧
      payloadBytes (bytes ++ ys) = payloadBytes bytes := by
  obtain ⟨hcontrol, hpayload⟩ := header_append h ys
  have hlen : frameLength (bytes ++ ys) = frameLength bytes := by
    unfold frameLength
    rw [hcontrol, hpayload]
  have hroom : controlLength bytes ≤ (bytes.drop 8).length := by
    unfold frameLength at hwhole
    rw [List.length_drop]
    omega
  refine ⟨hlen, ?_, ?_⟩
  · unfold controlBytes
    rw [hcontrol, List.drop_append_of_le_length h, List.take_append_of_le_length hroom]
  · unfold payloadBytes
    rw [hlen, hcontrol, List.take_append_of_le_length hwhole]

theorem decodeReady_some_append {frame : Frame T} {n : Nat}
    (h : decodeReady codec bytes = .ok (some (frame, n))) (ys : Bytes) :
    decodeReady codec (bytes ++ ys) = .ok (some (frame, n)) := by
  obtain ⟨hlong, hfits, rfl, hwhole, hcontrol, hpayload⟩ := decodeReady_some h
  obtain ⟨hlen, hsame, hrest⟩ := contents_append hlong hwhole ys
  rw [decodeReady_sized (by rw [List.length_append]; omega)
      (fun hbig => hfits ((oversized_append hlong ys).mp hbig)),
    hlen, hsame, hrest, hcontrol, if_neg (by rw [List.length_append]; omega), ← hpayload]

theorem decodeReady_error_append {e : PollError} (h : decodeReady codec bytes = .error e)
    (ys : Bytes) : decodeReady codec (bytes ++ ys) = .error e := by
  obtain ⟨hlong, ⟨hbig, rfl⟩ | ⟨hfits, hwhole, hcontrol, rfl⟩⟩ := decodeReady_error h
  · exact decodeReady_oversized (by rw [List.length_append]; omega)
      ((oversized_append hlong ys).mpr hbig)
  · obtain ⟨hlen, hsame, -⟩ := contents_append hlong hwhole ys
    rw [decodeReady_sized (by rw [List.length_append]; omega)
        (fun hbig => hfits ((oversized_append hlong ys).mp hbig)),
      hlen, hsame, hcontrol, if_neg (by rw [List.length_append]; omega)]

/-- `decode_ready` as a decoder: it does not change its mind when more arrives. -/
def decoder (codec : ControlCodec T) : Decoder UInt8 (Frame T) PollError where
  decode bytes :=
    match decodeReady codec bytes with
    | .ok none => .more
    | .ok (some (frame, n)) => .frame frame n
    | .error e => .bad e
  used_pos {bytes frame n} h := by
    split at h
    · exact absurd h (by simp)
    · rename_i frame' n' hdecoded
      obtain ⟨rfl, rfl⟩ := Verdict.frame.inj h
      obtain ⟨-, -, rfl, -⟩ := decodeReady_some hdecoded
      unfold frameLength
      omega
    · exact absurd h (by simp)
  used_le {bytes frame n} h := by
    split at h
    · exact absurd h (by simp)
    · rename_i frame' n' hdecoded
      obtain ⟨rfl, rfl⟩ := Verdict.frame.inj h
      exact (decodeReady_some hdecoded).2.2.2.1
    · exact absurd h (by simp)
  frame_append {bytes frame n} h ys := by
    split at h
    · exact absurd h (by simp)
    · rename_i frame' n' hdecoded
      obtain ⟨rfl, rfl⟩ := Verdict.frame.inj h
      rw [decodeReady_some_append hdecoded ys]
    · exact absurd h (by simp)
  bad_append {bytes e} h ys := by
    split at h
    · exact absurd h (by simp)
    · exact absurd h (by simp)
    · rename_i e' hdecoded
      obtain rfl := Verdict.bad.inj h
      rw [decodeReady_error_append hdecoded ys]

end Decoder

/-- Why a frame is refused; the two readers name it at different places. -/
inductive FrameFault where
  | tooLarge
  | malformed
  | truncated
  | transport
  deriving DecidableEq, Repr

def ReadFrameError.fault : ReadFrameError → FrameFault
  | .controlLength | .payloadLength | .controlFrame | .payloadFrame => .truncated
  | .frameTooLarge => .tooLarge
  | .decodeControl => .malformed

def PollError.fault : PollError → FrameFault
  | .frameTooLarge | .frameLengthOverflow => .tooLarge
  | .decodeControl => .malformed
  | .frameTruncated => .truncated
  | .readFailed => .transport

section Blocking
variable {T : Type} {codec : ControlCodec T} {bytes : Bytes}

theorem readFrame_short (h : bytes.length < 8) :
    ∃ e, readFrame codec bytes = .error e ∧ e.fault = .truncated := by
  by_cases hfirst : 4 ≤ bytes.length
  · refine ⟨.payloadLength, ?_, rfl⟩
    have hsecond : ¬ 4 ≤ (bytes.drop 4).length := by
      rw [List.length_drop]
      omega
    simp only [readFrame, readExact, if_pos hfirst, if_neg hsecond]
  · refine ⟨.controlLength, ?_, rfl⟩
    simp only [readFrame, readExact, if_neg hfirst]

/-- Past the two lengths. -/
theorem readFrame_header (h : 8 ≤ bytes.length) :
    readFrame codec bytes =
      if Oversized bytes then .error .frameTooLarge
      else
        match readExact (controlLength bytes) (bytes.drop 8) with
        | none => .error .controlFrame
        | some (control, stream) =>
          match readExact (payloadLength bytes) stream with
          | none => .error .payloadFrame
          | some (payload, stream) =>
            match codec.fromSlice control with
            | none => .error .decodeControl
            | some control => .ok ((control, payload), stream) := by
  have hfirst : readExact 4 bytes = some (bytes.take 4, bytes.drop 4) := if_pos (by omega)
  have hsecond : readExact 4 (bytes.drop 4) = some ((bytes.drop 4).take 4, bytes.drop 8) := by
    unfold readExact
    rw [if_pos (by rw [List.length_drop]; omega), List.drop_drop]
  unfold readFrame
  rw [hfirst]
  dsimp only
  rw [hsecond]
  rfl

theorem readFrame_cut (h : 8 ≤ bytes.length) (hfits : ¬ Oversized bytes)
    (hcut : bytes.length < frameLength bytes) :
    ∃ e, readFrame codec bytes = .error e ∧ e.fault = .truncated := by
  rw [readFrame_header h, if_neg hfits]
  unfold frameLength at hcut
  by_cases hcontrol : controlLength bytes ≤ (bytes.drop 8).length
  · refine ⟨.payloadFrame, ?_, rfl⟩
    have hpayload : ¬ payloadLength bytes ≤
        ((bytes.drop 8).drop (controlLength bytes)).length := by
      rw [List.length_drop, List.length_drop]
      rw [List.length_drop] at hcontrol
      omega
    simp only [readExact, if_pos hcontrol, if_neg hpayload]
  · refine ⟨.controlFrame, ?_, rfl⟩
    simp only [readExact, if_neg hcontrol]

theorem readFrame_whole (h : 8 ≤ bytes.length) (hfits : ¬ Oversized bytes)
    (hwhole : frameLength bytes ≤ bytes.length) :
    readFrame codec bytes =
      match codec.fromSlice (controlBytes bytes) with
      | none => .error .decodeControl
      | some control => .ok ((control, payloadBytes bytes), bytes.drop (frameLength bytes)) := by
  have hlen : frameLength bytes = 8 + controlLength bytes + payloadLength bytes := rfl
  have hcontrol : controlLength bytes ≤ (bytes.drop 8).length := by
    rw [List.length_drop]
    omega
  have hpayload : payloadLength bytes ≤ ((bytes.drop 8).drop (controlLength bytes)).length := by
    rw [List.length_drop, List.length_drop]
    omega
  have hbytes : ((bytes.drop 8).drop (controlLength bytes)).take (payloadLength bytes) =
      payloadBytes bytes := by
    unfold payloadBytes
    rw [List.drop_take, List.drop_drop]
    congr 1
    omega
  have hrest : ((bytes.drop 8).drop (controlLength bytes)).drop (payloadLength bytes) =
      bytes.drop (frameLength bytes) := by
    rw [List.drop_drop, List.drop_drop, hlen, Nat.add_assoc]
  rw [readFrame_header h, if_neg hfits]
  simp only [readExact, if_pos hcontrol, if_pos hpayload, hbytes, hrest]
  rfl

/-- The blocking reader on a whole stream does what `decode_ready` says of it. -/
theorem readFrame_of_some {frame : Frame T} {n : Nat}
    (h : decodeReady codec bytes = .ok (some (frame, n))) :
    readFrame codec bytes = .ok (frame, bytes.drop n) := by
  obtain ⟨hlong, hfits, rfl, hwhole, hcontrol, hpayload⟩ := decodeReady_some h
  rw [readFrame_whole hlong hfits hwhole, hcontrol, ← hpayload]

theorem readFrame_of_error {e : PollError} (h : decodeReady codec bytes = .error e) :
    ∃ e', readFrame codec bytes = .error e' ∧ e'.fault = e.fault := by
  obtain ⟨hlong, ⟨hbig, rfl⟩ | ⟨hfits, hwhole, hcontrol, rfl⟩⟩ := decodeReady_error h
  · refine ⟨.frameTooLarge, ?_, rfl⟩
    rw [readFrame_header hlong, if_pos hbig]
  · refine ⟨.decodeControl, ?_, rfl⟩
    rw [readFrame_whole hlong hfits hwhole, hcontrol]

theorem readFrame_of_none (h : decodeReady codec bytes = .ok none) :
    ∃ e, readFrame codec bytes = .error e ∧ e.fault = .truncated := by
  by_cases hshort : bytes.length < 8
  · exact readFrame_short hshort
  have hlong : 8 ≤ bytes.length := by omega
  by_cases hbig : Oversized bytes
  · rw [decodeReady_oversized hlong hbig] at h
    exact absurd h (by simp)
  rw [decodeReady_sized hlong hbig] at h
  split at h
  · rename_i hcut
    exact readFrame_cut hlong hbig hcut
  · split at h
    · exact absurd h (by simp)
    · exact absurd h (by simp)

theorem readFrame_shorter {frame : Frame T} {stream : Bytes}
    (h : readFrame codec bytes = .ok (frame, stream)) : stream.length < bytes.length := by
  cases hdecoded : decodeReady codec bytes with
  | error e =>
    obtain ⟨e', he', -⟩ := readFrame_of_error hdecoded
    exact absurd (he'.symm.trans h) (by simp)
  | ok decoded =>
    cases decoded with
    | none =>
      obtain ⟨e', he', -⟩ := readFrame_of_none hdecoded
      exact absurd (he'.symm.trans h) (by simp)
    | some pair =>
      obtain ⟨frame', n⟩ := pair
      obtain ⟨-, -, hn, hle, -⟩ := decodeReady_some hdecoded
      have heq := Except.ok.inj ((readFrame_of_some hdecoded).symm.trans h)
      obtain ⟨-, rfl⟩ := Prod.mk.inj heq
      unfold frameLength at hn
      rw [List.length_drop]
      omega

end Blocking

/-- Repeated reading: the frames, the error that ended it, and the bytes before that read. -/
structure Reading (T : Type) where
  frames : List (Frame T)
  error : ReadFrameError
  rest : Bytes

def readFrames {T : Type} (codec : ControlCodec T) (stream : Bytes) : Reading T :=
  match _h : readFrame codec stream with
  | .error e => ⟨[], e, stream⟩
  | .ok (frame, rest) =>
    let reading := readFrames codec rest
    { reading with frames := frame :: reading.frames }
termination_by stream.length
decreasing_by exact readFrame_shorter _h

/-- Repeated writing. -/
def writeFrames {T : Type} (codec : ControlCodec T) :
    List (Frame T) → Except WriteFrameError Bytes
  | [] => .ok []
  | (control, payload) :: frames => do
    let bytes ← writeFrame codec control payload
    let rest ← writeFrames codec frames
    .ok (bytes ++ rest)

section Repeated
variable {T : Type} {codec : ControlCodec T} {bytes : Bytes}

theorem readFrames_ok {frame : Frame T} {rest : Bytes}
    (h : readFrame codec bytes = .ok (frame, rest)) :
    readFrames codec bytes =
      { readFrames codec rest with frames := frame :: (readFrames codec rest).frames } := by
  rw [readFrames]
  split
  · rename_i e he
    exact absurd (h.symm.trans he) (by simp)
  · rename_i frame' rest' hok
    obtain ⟨rfl, rfl⟩ := Prod.mk.inj (Except.ok.inj (h.symm.trans hok))
    rfl

theorem readFrames_error {e : ReadFrameError} (h : readFrame codec bytes = .error e) :
    readFrames codec bytes = ⟨[], e, bytes⟩ := by
  rw [readFrames]
  split
  · rename_i e' he
    rw [Except.error.inj (h.symm.trans he)]
  · rename_i frame' rest' hok
    exact absurd (h.symm.trans hok) (by simp)

/-- An error of the scan is the error at which reading stops; without one, what is left is
cut off. -/
def Reading.Matches (reading : Reading T) (scan : Scan UInt8 (Frame T) PollError) : Prop :=
  reading.frames = scan.frames ∧ reading.rest = scan.rest ∧
    reading.error.fault = (scan.error.map PollError.fault).getD .truncated

/-- Repeated reading of a stream finds the frames that the scan of it finds. -/
theorem readFrames_matches (codec : ControlCodec T) (bytes : Bytes) :
    (readFrames codec bytes).Matches ((decoder codec).scan bytes) := by
  cases hdecoded : decodeReady codec bytes with
  | error e =>
    obtain ⟨e', he', hfault⟩ := readFrame_of_error hdecoded
    have hbad : (decoder codec).decode bytes = .bad e := by
      simp only [decoder, hdecoded]
    have hscan := Decoder.scan_bad hbad []
    rw [List.append_nil] at hscan
    rw [readFrames_error he', hscan]
    exact ⟨rfl, rfl, hfault⟩
  | ok decoded =>
    cases decoded with
    | none =>
      obtain ⟨e', he', hfault⟩ := readFrame_of_none hdecoded
      have hmore : (decoder codec).decode bytes = .more := by
        simp only [decoder, hdecoded]
      rw [readFrames_error he', Decoder.scan_more hmore]
      exact ⟨rfl, rfl, hfault⟩
    | some pair =>
      obtain ⟨frame, n⟩ := pair
      have hframe : (decoder codec).decode bytes = .frame frame n := by
        simp only [decoder, hdecoded]
      have hscan := Decoder.scan_frame hframe []
      rw [List.append_nil, List.append_nil] at hscan
      have hread := readFrame_of_some hdecoded
      have hshorter := readFrame_shorter hread
      obtain ⟨hframes, hrest, herror⟩ := readFrames_matches codec (bytes.drop n)
      rw [readFrames_ok hread, hscan]
      exact ⟨congrArg (frame :: ·) hframes, hrest, herror⟩
termination_by bytes.length
decreasing_by exact hshorter

/-- What `write_frame` accepts, `read_frame` gives back, whatever follows it. -/
theorem readFrame_writeFrame {control : T} {payload : Bytes}
    (h : writeFrame codec control payload = .ok bytes) (rest : Bytes) :
    readFrame codec (bytes ++ rest) = .ok ((control, payload), rest) := by
  unfold writeFrame at h
  split at h
  · exact absurd h (by simp)
  rename_i encoded hencoded
  split at h
  · exact absurd h (by simp)
  rename_i hsizes
  obtain rfl := Except.ok.inj h
  unfold perUserEmbeddingMaxMetadataBytes perUserEmbeddingMaxPayloadBytes at hsizes
  have hne : encoded ≠ [] := by
    rintro rfl
    have hdecoded := codec.fromSlice_toVec hencoded
    rw [codec.fromSlice_nil] at hdecoded
    exact absurd hdecoded (by simp)
  have hpos : 0 < encoded.length := List.length_pos_of_ne_nil hne
  let stream := toBeBytes encoded.length ++ toBeBytes payload.length ++ encoded ++ payload ++ rest
  change readFrame codec stream = _
  have hlong : 8 ≤ stream.length := by
    simp only [stream, List.length_append, toBeBytes_length]
    omega
  have hcontrol : controlLength stream = encoded.length := by
    have htake : stream.take 4 = toBeBytes encoded.length := rfl
    unfold controlLength
    rw [htake]
    exact fromBeBytes_toBeBytes (by omega)
  have hpayload : payloadLength stream = payload.length := by
    have htake : (stream.drop 4).take 4 = toBeBytes payload.length := rfl
    unfold payloadLength
    rw [htake]
    exact fromBeBytes_toBeBytes (by omega)
  have hfits : ¬ Oversized stream := by
    unfold Oversized perUserEmbeddingMaxMetadataBytes perUserEmbeddingMaxPayloadBytes
    omega
  have hwhole : frameLength stream ≤ stream.length := by
    unfold frameLength
    simp only [stream, List.length_append, toBeBytes_length] at hcontrol hpayload ⊢
    omega
  have hbody : stream.drop 8 = encoded ++ (payload ++ rest) := by
    change encoded ++ payload ++ rest = _
    rw [List.append_assoc]
  have hcontrolBytes : controlBytes stream = encoded := by
    unfold controlBytes
    rw [hcontrol, hbody, List.take_left]
  have hpayloadBytes : payloadBytes stream = payload := by
    unfold payloadBytes frameLength
    rw [List.drop_take, hcontrol, hpayload, ← List.drop_drop, hbody, List.drop_left]
    rw [Nat.add_sub_cancel_left, List.take_left]
  have hrest : stream.drop (frameLength stream) = rest := by
    unfold frameLength
    rw [hcontrol, hpayload, ← List.drop_drop, ← List.drop_drop, hbody, List.drop_left,
      List.drop_left]
  rw [readFrame_whole hlong hfits hwhole, hcontrolBytes, codec.fromSlice_toVec hencoded,
    hpayloadBytes, hrest]

/-- What was written frame by frame is read frame by frame, to the last byte. -/
theorem readFrames_writeFrames {frames : List (Frame T)}
    (h : writeFrames codec frames = .ok bytes) :
    readFrames codec bytes = ⟨frames, .controlLength, []⟩ := by
  induction frames generalizing bytes with
  | nil =>
    obtain rfl := Except.ok.inj h
    exact readFrames_error rfl
  | cons frame frames ih =>
    obtain ⟨control, payload⟩ := frame
    unfold writeFrames at h
    cases hfirst : writeFrame codec control payload with
    | error e =>
      rw [hfirst] at h
      exact absurd h (by simp [bind, Except.bind])
    | ok first =>
      rw [hfirst] at h
      cases hothers : writeFrames codec frames with
      | error e =>
        rw [hothers] at h
        exact absurd h (by simp [bind, Except.bind])
      | ok others =>
        rw [hothers] at h
        obtain rfl := Except.ok.inj h
        rw [readFrames_ok (readFrame_writeFrame hfirst others), ih hothers]

end Repeated

/-- How a session of polls ended. -/
inductive Ending where
  | closed
  | failed (e : PollError)
  deriving DecidableEq, Repr

/-- A reader, its stream, and the history of its polls: the frames it returned and how it
ended. -/
structure Session (T : Type) where
  reader : IncrementalProtocolFrameReader
  stream : List ReadOutcome
  frames : List (Frame T)
  ending : Option Ending

/-- The bytes that the reads of a stream bring. -/
def delivered : List ReadOutcome → Bytes
  | [] => []
  | .read chunk :: stream => chunk ++ delivered stream
  | _ :: stream => delivered stream

/-- Non-empty reads and timeouts, and then the end. -/
def Delivers (stream : List ReadOutcome) : Prop :=
  ∀ outcome ∈ stream, outcome = .timedOut ∨ ∃ b chunk, outcome = .read (b :: chunk)

namespace Session
variable {T : Type} (codec : ControlCodec T)

def start (stream : List ReadOutcome) : Session T := ⟨⟨[], []⟩, stream, [], none⟩

/-- One more poll, unless the session has ended. -/
def next (s : Session T) : Session T :=
  match s.ending with
  | some _ => s
  | none =>
    match poll codec s.reader s.stream with
    | (.error e, reader, stream) =>
      { s with reader := reader, stream := stream, ending := some (.failed e) }
    | (.ok .closed, reader, stream) =>
      { s with reader := reader, stream := stream, ending := some .closed }
    | (.ok .pending, reader, stream) => { s with reader := reader, stream := stream }
    | (.ok (.ready frame), reader, stream) =>
      { s with reader := reader, stream := stream, frames := s.frames ++ [frame] }

def polls : Nat → Session T → Session T
  | 0, s => s
  | n + 1, s => polls n (s.next codec)

end Session

section Polling
variable {T : Type} {codec : ControlCodec T}

theorem Delivers.tail {outcome : ReadOutcome} {stream : List ReadOutcome}
    (h : Delivers (outcome :: stream)) : Delivers stream :=
  fun o ho => h o (List.mem_cons_of_mem _ ho)

theorem drain_append (reader : IncrementalProtocolFrameReader) (n : Nat) :
    (reader.drain n).drained ++ (reader.drain n).bytes = reader.drained ++ reader.bytes := by
  unfold IncrementalProtocolFrameReader.drain
  rw [List.append_assoc, List.take_append_drop]

/-- What one poll does. It returns the frame at the front of the buffer, before or after one
read; or it takes a read that completes no frame; or it ends the session. -/
inductive Polls (codec : ControlCodec T) (reader : IncrementalProtocolFrameReader)
    (stream : List ReadOutcome) : Polled T → Prop where
  | buffered {frame : Frame T} {n : Nat}
      (decoded : decodeReady codec reader.bytes = .ok (some (frame, n))) :
      Polls codec reader stream (.ok (.ready frame), reader.drain n, stream)
  | refused {e : PollError} (decoded : decodeReady codec reader.bytes = .error e) :
      Polls codec reader stream (.error e, reader, stream)
  | timedOut {rest : List ReadOutcome} (front : stream = .timedOut :: rest) :
      Polls codec reader stream (.ok .pending, reader, rest)
  | ended (empty : stream = []) (decoded : decodeReady codec reader.bytes = .ok none) :
      Polls codec reader stream
        (if reader.bytes = [] then .ok .closed else .error .frameTruncated, reader, [])
  | taken {b : UInt8} {chunk : Bytes} {rest : List ReadOutcome}
      (front : stream = .read (b :: chunk) :: rest) {polled : Polled T}
      (again : polled = pollDecoded codec
        { reader with bytes := reader.bytes ++ b :: chunk } rest) :
      Polls codec reader stream polled

theorem poll_cases (codec : ControlCodec T) (reader : IncrementalProtocolFrameReader)
    {stream : List ReadOutcome}
    (h : Delivers stream) : Polls codec reader stream (poll codec reader stream) := by
  unfold poll
  cases hdecoded : decodeReady codec reader.bytes with
  | error e => exact .refused hdecoded
  | ok decoded =>
    cases decoded with
    | some pair => exact .buffered hdecoded
    | none =>
      cases stream with
      | nil =>
        have hended : Polls codec reader [] _ := .ended rfl hdecoded
        by_cases hempty : reader.bytes = []
        · simp only [nextRead, hempty, List.isEmpty_nil, if_true] at hended ⊢
          exact hended
        · have hne : reader.bytes.isEmpty = false := List.isEmpty_eq_false_iff.mpr hempty
          rw [if_neg hempty] at hended
          simp only [nextRead, hne]
          exact hended
      | cons outcome rest =>
        rcases h outcome List.mem_cons_self with rfl | ⟨b, chunk, rfl⟩
        · exact .timedOut rfl
        · exact .taken rfl rfl

/-- `ending` is how polling has to end when the scan of the whole stream is `scan`. -/
def Ending.Fits (ending : Ending) (scan : Scan UInt8 (Frame T) PollError) : Prop :=
  match ending with
  | .closed => scan.error = none ∧ scan.rest = []
  | .failed e => scan.error = some e ∨
      scan.error = none ∧ scan.rest ≠ [] ∧ e = .frameTruncated

/-- Where a session stands in the scan of the whole stream. -/
structure Session.Follows (codec : ControlCodec T) (whole : Bytes) (s : Session T) : Prop where
  delivers : Delivers s.stream
  bytes : s.reader.drained ++ s.reader.bytes ++ delivered s.stream = whole
  polling : s.ending = none →
    let ahead := (decoder codec).scan (s.reader.bytes ++ delivered s.stream)
    (decoder codec).scan whole = { ahead with frames := s.frames ++ ahead.frames }
  ended : ∀ ending, s.ending = some ending →
    ((decoder codec).scan whole).frames = s.frames ∧ ending.Fits ((decoder codec).scan whole)

variable {whole : Bytes} {s : Session T}

theorem follows_start {stream : List ReadOutcome} (h : Delivers stream) :
    (Session.start stream : Session T).Follows codec (delivered stream) :=
  ⟨h, rfl, fun _ => rfl, fun _ hending => absurd hending (by simp [Session.start])⟩

/-- The frame at the front of the buffer is returned. -/
theorem Session.Follows.ready (h : s.Follows codec whole) (hending : s.ending = none)
    (reader : IncrementalProtocolFrameReader) {stream : List ReadOutcome}
    (hdelivers : Delivers stream)
    (hbytes : reader.bytes ++ delivered stream = s.reader.bytes ++ delivered s.stream)
    (hdrained : reader.drained = s.reader.drained) {frame : Frame T} {n : Nat}
    (hdecoded : decodeReady codec reader.bytes = .ok (some (frame, n))) :
    ({ s with reader := reader.drain n, stream := stream, frames := s.frames ++ [frame] } :
      Session T).Follows codec whole := by
  have hscan := h.polling hending
  have hframe : (decoder codec).decode reader.bytes = .frame frame n := by
    simp only [decoder, hdecoded]
  have hnext := Decoder.scan_frame hframe (delivered stream)
  rw [hbytes] at hnext
  refine ⟨hdelivers, ?_, ?_, ?_⟩
  · rw [drain_append, List.append_assoc, hbytes, hdrained, ← List.append_assoc]
    exact h.bytes
  · intro _
    dsimp only at hscan ⊢
    rw [hscan, hnext]
    simp only [Scan.cons, List.append_assoc, List.singleton_append]
    rfl
  · intro ending hsome
    exact absurd (hending.symm.trans hsome) (by simp)

/-- The front of the buffer is refused. -/
theorem Session.Follows.refuse (h : s.Follows codec whole) (hending : s.ending = none)
    (reader : IncrementalProtocolFrameReader) {stream : List ReadOutcome}
    (hdelivers : Delivers stream)
    (hbytes : reader.bytes ++ delivered stream = s.reader.bytes ++ delivered s.stream)
    (hdrained : reader.drained = s.reader.drained) {e : PollError}
    (hdecoded : decodeReady codec reader.bytes = .error e) :
    ({ s with reader := reader, stream := stream, ending := some (.failed e) } :
      Session T).Follows codec whole := by
  have hscan := h.polling hending
  have hbad : (decoder codec).decode reader.bytes = .bad e := by
    simp only [decoder, hdecoded]
  have hnext := Decoder.scan_bad hbad (delivered stream)
  rw [hbytes] at hnext
  refine ⟨hdelivers, ?_, fun hnone => absurd hnone (by simp), ?_⟩
  · rw [List.append_assoc, hbytes, hdrained, ← List.append_assoc]
    exact h.bytes
  · intro ending hsome
    obtain rfl := Option.some.inj hsome
    dsimp only at hscan
    rw [hscan, hnext]
    exact ⟨List.append_nil _, .inl rfl⟩

/-- A read that completes no frame. -/
theorem Session.Follows.wait (h : s.Follows codec whole) (hending : s.ending = none)
    (reader : IncrementalProtocolFrameReader) {stream : List ReadOutcome}
    (hdelivers : Delivers stream)
    (hbytes : reader.bytes ++ delivered stream = s.reader.bytes ++ delivered s.stream)
    (hdrained : reader.drained = s.reader.drained) :
    ({ s with reader := reader, stream := stream } : Session T).Follows codec whole := by
  refine ⟨hdelivers, ?_, ?_, ?_⟩
  · rw [List.append_assoc, hbytes, hdrained, ← List.append_assoc]
    exact h.bytes
  · intro hnone
    rw [hbytes]
    exact h.polling hnone
  · intro ending hsome
    exact absurd (hending.symm.trans hsome) (by simp)

theorem Session.Follows.next (h : s.Follows codec whole) : (s.next codec).Follows codec whole := by
  unfold Session.next
  split
  · exact h
  rename_i hending
  have hcases := poll_cases codec s.reader h.delivers
  generalize poll codec s.reader s.stream = polled at hcases
  cases hcases with
  | buffered hdecoded => exact h.ready hending s.reader h.delivers rfl rfl hdecoded
  | refused hdecoded => exact h.refuse hending s.reader h.delivers rfl rfl hdecoded
  | timedOut hfront =>
    have hdelivers := h.delivers
    rw [hfront] at hdelivers
    refine h.wait hending s.reader hdelivers.tail ?_ rfl
    rw [hfront]
    rfl
  | ended hempty hdecoded =>
    have hmore : (decoder codec).decode s.reader.bytes = .more := by
      simp only [decoder, hdecoded]
    have hscan := h.polling hending
    have hbytes := h.bytes
    rw [hempty] at hscan hbytes
    simp only [delivered, List.append_nil] at hscan hbytes
    rw [Decoder.scan_more hmore] at hscan
    by_cases hnil : s.reader.bytes = []
    · rw [if_pos hnil]
      refine ⟨fun _ ho => absurd ho (by simp), by simpa [delivered] using hbytes,
        fun hnone => absurd hnone (by simp), ?_⟩
      intro ending hsome
      obtain rfl := Option.some.inj hsome
      rw [hscan]
      exact ⟨List.append_nil _, rfl, hnil⟩
    · rw [if_neg hnil]
      refine ⟨fun _ ho => absurd ho (by simp), by simpa [delivered] using hbytes,
        fun hnone => absurd hnone (by simp), ?_⟩
      intro ending hsome
      obtain rfl := Option.some.inj hsome
      rw [hscan]
      exact ⟨List.append_nil _, .inr ⟨rfl, hnil, rfl⟩⟩
  | taken hfront hpolled =>
    rename_i b chunk rest
    have hdelivers := h.delivers
    rw [hfront] at hdelivers
    have hbytes : (s.reader.bytes ++ b :: chunk) ++ delivered rest =
        s.reader.bytes ++ delivered s.stream := by
      rw [hfront, List.append_assoc]
      rfl
    let reader := { s.reader with bytes := s.reader.bytes ++ b :: chunk }
    unfold pollDecoded at hpolled
    subst hpolled
    cases hdecoded : decodeReady codec (s.reader.bytes ++ b :: chunk) with
    | error e => exact h.refuse hending reader hdelivers.tail hbytes rfl hdecoded
    | ok decoded =>
      cases decoded with
      | none => exact h.wait hending reader hdelivers.tail hbytes rfl
      | some pair => exact h.ready hending reader hdelivers.tail hbytes rfl hdecoded

theorem Session.Follows.polls (h : s.Follows codec whole) (n : Nat) :
    (s.polls codec n).Follows codec whole := by
  induction n generalizing s with
  | zero => exact h
  | succ n ih => exact ih h.next

/-- Reads that are still to come, and bytes that are still to be drained. -/
def Session.ahead (s : Session T) : Nat :=
  s.stream.length + (s.reader.bytes.length + (delivered s.stream).length)

theorem drain_shorter {reader : IncrementalProtocolFrameReader} {frame : Frame T} {n : Nat}
    (hdecoded : decodeReady codec reader.bytes = .ok (some (frame, n))) :
    (reader.drain n).bytes.length < reader.bytes.length := by
  obtain ⟨-, -, rfl, hle, -⟩ := decodeReady_some hdecoded
  unfold IncrementalProtocolFrameReader.drain
  rw [List.length_drop]
  unfold frameLength at hle ⊢
  omega

/-- A poll that does not end the session makes progress. -/
theorem Session.ahead_next (h : Delivers s.stream) (hnext : (s.next codec).ending = none) :
    (s.next codec).ahead < s.ahead := by
  unfold Session.next at hnext ⊢
  split at hnext
  · rename_i ending hending
    exact absurd (hending.symm.trans hnext) (by simp)
  have hcases := poll_cases codec s.reader h
  generalize poll codec s.reader s.stream = polled at hcases hnext
  cases hcases with
  | buffered hdecoded =>
    have hshorter := drain_shorter hdecoded
    simp only [Session.ahead]
    omega
  | refused hdecoded => exact absurd hnext (by simp)
  | timedOut hfront =>
    simp only [Session.ahead, hfront, delivered, List.length_cons]
    omega
  | ended hempty hdecoded =>
    by_cases hnil : s.reader.bytes = []
    · rw [if_pos hnil] at hnext
      exact absurd hnext (by simp)
    · rw [if_neg hnil] at hnext
      exact absurd hnext (by simp)
  | taken hfront hpolled =>
    rename_i b chunk rest
    unfold pollDecoded at hpolled
    subst hpolled
    cases hdecoded : decodeReady codec (s.reader.bytes ++ b :: chunk) with
    | error e =>
      simp only [hdecoded] at hnext
      exact absurd hnext (by simp)
    | ok decoded =>
      cases decoded with
      | none =>
        simp only [Session.ahead, hfront, delivered, List.length_cons, List.length_append]
        omega
      | some pair =>
        let reader := { s.reader with bytes := s.reader.bytes ++ b :: chunk }
        have hshorter : (reader.drain pair.2).bytes.length < reader.bytes.length :=
          drain_shorter hdecoded
        simp only [Session.ahead, hfront, delivered, List.length_cons, List.length_append,
          reader] at hshorter ⊢
        omega

/-- Enough polls end the session. -/
theorem Session.Follows.ends (h : s.Follows codec whole) {n : Nat} (hn : s.ahead < n) :
    (s.polls codec n).ending ≠ none := by
  induction n generalizing s with
  | zero => exact absurd hn (by omega)
  | succ n ih =>
    intro hnone
    cases hnext : (s.next codec).ending with
    | none =>
      have hprogress := Session.ahead_next h.delivers hnext
      exact ih h.next (by omega) hnone
    | some ending =>
      have hstays : ∀ m (r : Session T), r.ending = some ending →
          (r.polls codec m).ending = some ending := by
        intro m
        induction m with
        | zero => exact fun _ hr => hr
        | succ m ihm =>
          intro r hr
          apply ihm
          unfold Session.next
          rw [hr]
          exact hr
      exact absurd ((hstays n _ hnext).symm.trans hnone) (by simp)

theorem scan_error_rest {e : PollError} (h : ((decoder codec).scan whole).error = some e) :
    ((decoder codec).scan whole).rest ≠ [] := by
  have hbad := Decoder.scan_error whole h
  intro hnil
  rw [hnil] at hbad
  have hshort : decodeReady codec [] = .ok none := decodeReady_short (by simp)
  simp only [decoder, hshort] at hbad
  exact absurd hbad (by simp)

/-- `ending` is how polling has to end when repeated reading of the whole stream ends so: the
stream is closed where no byte is left, and the same fault is found at the same frame. -/
def Ending.Agrees (ending : Ending) (reading : Reading T) : Prop :=
  match ending with
  | .closed => reading.rest = []
  | .failed e => reading.rest ≠ [] ∧ e.fault = reading.error.fault

theorem Ending.Fits.agrees {ending : Ending} (h : ending.Fits ((decoder codec).scan whole)) :
    ending.Agrees (readFrames codec whole) := by
  obtain ⟨-, hrest, herror⟩ := readFrames_matches codec whole
  cases ending with
  | closed => exact hrest.trans h.2
  | failed e =>
    rcases h with hsome | ⟨hnone, hne, rfl⟩
    · refine ⟨?_, ?_⟩
      · rw [hrest]
        exact scan_error_rest hsome
      · rw [herror, hsome]
        rfl
    · refine ⟨?_, ?_⟩
      · rw [hrest]
        exact hne
      · rw [herror, hnone]
        rfl

/-- What has been returned so far is the beginning of what the whole stream holds. -/
theorem Session.Follows.frames_prefix (h : s.Follows codec whole) :
    s.frames <+: ((decoder codec).scan whole).frames := by
  cases hending : s.ending with
  | none =>
    rw [h.polling hending]
    exact List.prefix_append _ _
  | some ending =>
    have hframes := (h.ended ending hending).1
    exact hframes ▸ List.prefix_rfl

/-- The codec of protocol frames. What `write_frame` accepts is read back by `read_frame`,
frame by frame and to the last byte. And whatever the pieces and timeouts in which a stream
arrives, at every poll the bytes drained, the bytes buffered and the bytes to come are the
stream; the frames returned so far are the first that repeated `read_frame` returns on the
whole stream; polling comes to an end; and then the frames are all of them, and the end is
the same. -/
theorem frames_independent_of_chunks (codec : ControlCodec T) :
    (∀ frames bytes, writeFrames codec frames = .ok bytes →
      readFrames codec bytes = ⟨frames, .controlLength, []⟩) ∧
    ∀ stream, Delivers stream → ∀ n,
      let s := (Session.start stream).polls codec n
      let reading := readFrames codec (delivered stream)
      s.reader.drained ++ s.reader.bytes ++ delivered s.stream = delivered stream ∧
        s.frames <+: reading.frames ∧
        (stream.length + (delivered stream).length < n → s.ending ≠ none) ∧
        ∀ ending, s.ending = some ending → s.frames = reading.frames ∧ ending.Agrees reading := by
  refine ⟨fun frames bytes h => readFrames_writeFrames h, ?_⟩
  intro stream hdelivers n
  have hstart : (Session.start stream : Session T).Follows codec (delivered stream) :=
    follows_start hdelivers
  have hfollows := hstart.polls n
  obtain ⟨hframes, -, -⟩ := readFrames_matches codec (delivered stream)
  refine ⟨hfollows.bytes, ?_, ?_, ?_⟩
  · rw [hframes]
    exact hfollows.frames_prefix
  · intro hn
    apply hstart.ends
    simp only [Session.ahead, Session.start, List.length_nil]
    omega
  · intro ending hending
    obtain ⟨hall, hfits⟩ := hfollows.ended ending hending
    exact ⟨hall.symm.trans hframes.symm, hfits.agrees⟩

/-- JSON for truth values. -/
def boolCodec : ControlCodec Bool where
  toVec b := some (if b then [116, 114, 117, 101] else [102, 97, 108, 115, 101])
  fromSlice bytes :=
    if bytes = [116, 114, 117, 101] then some true
    else if bytes = [102, 97, 108, 115, 101] then some false
    else none
  fromSlice_toVec {control bytes} h := by
    obtain rfl := Option.some.inj h
    cases control <;> rfl
  fromSlice_nil := rfl

/-- Two frames, in reads that cut a header and a body and carry over into the next frame. -/
def cutStream : List ReadOutcome :=
  [.timedOut, .read [0, 0, 0, 4, 0], .read [0, 0, 2, 116, 114], .timedOut, .timedOut,
    .read [117, 101, 7, 9, 0, 0, 0, 5, 0, 0, 0, 0, 102], .read [97, 108, 115, 101]]

theorem frames_independent_of_chunks_cut :
    let written : Bytes :=
      [0, 0, 0, 4, 0, 0, 0, 2, 116, 114, 117, 101, 7, 9,
        0, 0, 0, 5, 0, 0, 0, 0, 102, 97, 108, 115, 101]
    let s := (Session.start cutStream).polls boolCodec 35
    readFrames boolCodec written = ⟨[(true, [7, 9]), (false, [])], .controlLength, []⟩ ∧
      s.ending = some .closed ∧ s.frames = (readFrames boolCodec (delivered cutStream)).frames := by
  intro written s
  have hwritten : writeFrames boolCodec [(true, [7, 9]), (false, [])] = .ok written := by
    decide
  have hdelivers : Delivers cutStream := by
    intro outcome ho
    simp only [cutStream, List.mem_cons, List.not_mem_nil, or_false] at ho
    rcases ho with rfl | rfl | rfl | rfl | rfl | rfl | rfl
    all_goals
      first
      | exact .inl rfl
      | exact .inr ⟨_, _, rfl⟩
  have hclosed : s.ending = some .closed := by decide
  obtain ⟨hread, hpolled⟩ := frames_independent_of_chunks boolCodec
  obtain ⟨-, -, -, hended⟩ := hpolled cutStream hdelivers 35
  exact ⟨hread _ _ hwritten, hclosed, (hended _ hclosed).1⟩

end Polling

end CodeStory.FrameCodec
