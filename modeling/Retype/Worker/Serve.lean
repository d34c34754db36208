import Retype.Worker.Message
/-! # Serving the primary

What a worker does with the messages it gets, one after the other: a batch is
handled and answered by `next`, and a request for a report by the report. It
ends where its input does, or at the first thing that is no message for it.
-/

namespace Retype

namespace Frame

/-- A header takes something from the stream. -/
theorem length_readHeader_lt {before : List UInt8} {s rest : ByteStream} {header : List UInt8}
    (h : readHeader before s = (.ok (some header), rest)) :
    rest.bytes.length < s.bytes.length := by
  fun_induction readHeader before s with
  | case1 before s rest' hr he => simp at h
  | case2 before s rest' hr he => simp at h
  | case3 before s b bs rest' hr before' hp =>
    have := ByteStream.length_read_lt (s := s) (n := 1) (by simp [hr])
    simp_all
  | case4 before s b bs rest' hr before' hp ih =>
    have := ByteStream.length_read_lt (s := s) (n := 1) (by simp [hr])
    have := ih h
    simp_all; omega

/-- A body gives nothing back to the stream. -/
theorem length_readBody_le (before : List UInt8) (length : Nat) (s : ByteStream) :
    (readBody before length s).2.bytes.length ≤ s.bytes.length := by
  fun_induction readBody before length s with
  | case1 => simp
  | case2 before length s hl rest' hr =>
    have := congrArg List.length (ByteStream.read_bytes s length)
    simp_all
  | case3 before length s hl b bs rest' hr ih =>
    have := ByteStream.length_read_lt (s := s) (n := length) (by simp [hr])
    simp_all; omega

/-- A frame takes something from the stream. -/
theorem length_read_lt {s rest : ByteStream} {frame : Json}
    (h : read s = (.ok (some frame), rest)) : rest.bytes.length < s.bytes.length := by
  unfold read at h
  split at h <;> try simp at h
  next header s' hh =>
    have hlt := length_readHeader_lt hh
    split at h <;> try simp at h
    next length _ =>
      have hle := length_readBody_le [] length s'
      split at h <;> try simp at h
      split at h <;> simp_all; omega

end Frame

/-- A message takes something from the stream. -/
theorem Message.length_receive_lt {s rest : ByteStream} {m : Message}
    (h : receive s = (.ok (some m), rest)) : rest.bytes.length < s.bytes.length := by
  unfold receive at h
  split at h <;> try simp at h
  next frame s' hf =>
    have := Frame.length_read_lt hf
    split at h <;> simp_all

namespace Worker

/-- What a worker does with a batch, and the report it gives; its state is
`σ`. -/
structure Handler (σ : Type) where
  handle : σ → List String → σ
  report : σ → Report

/-- What has come of serving: the state, the batches that were handled, the
replies, and what broke it off, if something did. -/
structure Served (σ : Type) where
  state : σ
  handled : List (List String)
  replies : List Message
  failure : Option ProtocolError

variable {σ : Type}

/-- The state after a message, and the reply. -/
def respond (h : Handler σ) (s : σ) : Message → Except ProtocolError (σ × Message)
  | .batch files => .ok (h.handle s files, .next)
  | .reportRequest => .ok (s, .report (h.report s))
  | m => .error (.unexpected m.kindName)

/-- The batch in a message. -/
def batchIn : Message → List (List String)
  | .batch files => [files]
  | _ => []

/-- Serves until the input ends. -/
def serve (h : Handler σ) (s : σ) (input : ByteStream) : Served σ :=
  match _received : Message.receive input with
  | (.error e, _) => ⟨s, [], [], some e⟩
  | (.ok none, _) => ⟨s, [], [], none⟩
  | (.ok (some m), rest) =>
    match respond h s m with
    | .error e => ⟨s, [], [], some e⟩
    | .ok (s, reply) =>
      let more := serve h s rest
      { more with handled := batchIn m ++ more.handled, replies := reply :: more.replies }
termination_by input.bytes.length
decreasing_by exact Message.length_receive_lt _received

end Worker

end Retype
