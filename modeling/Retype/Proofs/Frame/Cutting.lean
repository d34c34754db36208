import Retype.Proofs.Frame.Single
import Retype.Proofs.Worker.Message
/-!
# Frames that are cut

Frames that are written one behind the other are read back one after the
other, however the reads are cut. Where the bytes end too early, the frames
that are there in full are found, and then the end of the stream if it ends
between two frames, and an error of the protocol if it ends inside one. This
holds for objects and for messages (`frames_read_back`); both readers are
covered by one argument about readers that treat each frame as they do
(`foundBefore_of_framed`).
-/

namespace Retype

variable {ε α : Type} {next : ByteStream → Except ε (Option α) × ByteStream}
  {ofProtocol : ε → Bool}

/-! ## Reading to the end -/

/-- **What a reader finds in a stream that it reads to the end**: values, one
after the other, and then the end of the stream, or an error. -/
inductive Drains (next : ByteStream → Except ε (Option α) × ByteStream) :
    ByteStream → List α → Option ε → Prop
  | ended {s : ByteStream} (hend : (next s).1 = .ok none) : Drains next s [] none
  | failed {s : ByteStream} {e : ε} (hfail : (next s).1 = .error e) : Drains next s [] (some e)
  | found {s rest : ByteStream} {a : α} {as : List α} {e : Option ε}
      (hfound : next s = (.ok (some a), rest)) (hrest : Drains next rest as e) :
      Drains next s (a :: as) e

/-! ## Where a stream is cut -/

/-- A number of bytes after which a frame ends, or none has begun. -/
def Boundary (frames : List (List UInt8)) (k : Nat) : Prop :=
  ∃ i, (frames.take i).flatten.length = k

/-- **What is found before a cut**: a reader of the first `k` bytes of some
frames finds the values whose frames lie in them in full; then it finds the
end of the stream if `k` is a boundary, and an error of the protocol if it is
not. -/
def FoundBefore (next : ByteStream → Except ε (Option α) × ByteStream) (ofProtocol : ε → Bool)
    (as : List α) (frames : List (List UInt8)) (k : Nat) (cuts : List Nat) : Prop :=
  ∃ n e, (∀ i < frames.length, i < n ↔ (frames.take (i + 1)).flatten.length ≤ k) ∧
    Drains next ⟨frames.flatten.take k, cuts⟩ (as.take n) e ∧
    (Boundary frames k → e = none) ∧
    (¬ Boundary frames k → ∃ cause, e = some cause ∧ ofProtocol cause)

theorem boundary_zero (frames : List (List UInt8)) : Boundary frames 0 := ⟨0, rfl⟩

theorem boundary_cons {frame : List UInt8} {frames : List (List UInt8)} {k : Nat} (hk : 0 < k) :
    Boundary (frame :: frames) k ↔ frame.length ≤ k ∧ Boundary frames (k - frame.length) := by
  constructor
  · rintro ⟨i, hi⟩
    cases i with
    | zero => exact absurd hi (Nat.ne_of_lt hk)
    | succ i =>
      rw [List.take_succ_cons, List.flatten_cons, List.length_append] at hi
      exact ⟨by omega, i, by omega⟩
  · rintro ⟨hle, i, hi⟩
    refine ⟨i + 1, ?_⟩
    rw [List.take_succ_cons, List.flatten_cons, List.length_append]
    omega

/-- A frame that a reader treats as it should: it finds the value and stops
behind the frame, and a frame that ends too early breaks the protocol. -/
structure Framed (next : ByteStream → Except ε (Option α) × ByteStream) (ofProtocol : ε → Bool)
    (a : α) (frame : List UInt8) : Prop where
  pos : 0 < frame.length
  whole : ∀ rest cuts, ∃ cuts', next ⟨frame ++ rest, cuts⟩ = (.ok (some a), ⟨rest, cuts'⟩)
  cut : ∀ k cuts, 0 < k → k < frame.length →
    ∃ e, (next ⟨frame.take k, cuts⟩).1 = .error e ∧ ofProtocol e

/-- **One frame at a time is enough.** -/
theorem foundBefore_of_framed (hend : ∀ cuts, (next ⟨[], cuts⟩).1 = .ok none) {as : List α}
    {frames : List (List UInt8)} (h : List.Forall₂ (Framed next ofProtocol) as frames) {k : Nat}
    (hk : k ≤ frames.flatten.length) (cuts : List Nat) :
    FoundBefore next ofProtocol as frames k cuts := by
  induction h generalizing k cuts with
  | nil =>
    obtain rfl : k = 0 := Nat.le_zero.mp hk
    exact ⟨0, none, by simp, .ended (hend cuts), fun _ => rfl, fun h => absurd (boundary_zero _) h⟩
  | @cons a frame as frames hframe hframes ih =>
    rcases Nat.lt_or_ge k frame.length with hshort | hlong
    · -- the cut is in front of the first frame, or inside it
      have hnone : ∀ i, i < 0 ↔ ((frame :: frames).take (i + 1)).flatten.length ≤ k := fun i => by
        rw [List.take_succ_cons, List.flatten_cons, List.length_append]
        omega
      have htake : (frame :: frames).flatten.take k = frame.take k := by
        rw [List.flatten_cons, List.take_append_of_le_length (Nat.le_of_lt hshort)]
      rcases Nat.eq_zero_or_pos k with rfl | hpos
      · exact ⟨0, none, fun i _ => hnone i, .ended (hend cuts), fun _ => rfl,
          fun h => absurd (boundary_zero _) h⟩
      · obtain ⟨e, hfail, he⟩ := hframe.cut k cuts hpos hshort
        refine ⟨0, some e, fun i _ => hnone i, .failed (htake ▸ hfail), fun hboundary => ?_,
          fun _ => ⟨e, rfl, he⟩⟩
        have := ((boundary_cons hpos).mp hboundary).1
        omega
    · -- the first frame is there in full
      rw [List.flatten_cons, List.length_append] at hk
      obtain ⟨cuts', hfound⟩ := hframe.whole (frames.flatten.take (k - frame.length)) cuts
      obtain ⟨n, e, hn, hrest, hend', hcut⟩ := ih (by omega : k - frame.length ≤ _) cuts'
      have htake : (frame :: frames).flatten.take k
          = frame ++ frames.flatten.take (k - frame.length) := by
        rw [List.flatten_cons, List.take_append, List.take_of_length_le hlong]
      have hboundary : Boundary (frame :: frames) k ↔ Boundary frames (k - frame.length) := by
        rw [boundary_cons (Nat.lt_of_lt_of_le hframe.pos hlong)]
        exact and_iff_right hlong
      refine ⟨n + 1, e, fun i hi => ?_, .found (htake ▸ hfound) hrest, hend' ∘ hboundary.mp,
        hcut ∘ mt hboundary.mpr⟩
      rw [List.take_succ_cons, List.flatten_cons, List.length_append]
      cases i with
      | zero => simpa using hlong
      | succ i =>
        have := hn i (Nat.lt_of_succ_lt_succ hi)
        omega

/-! ## Objects and messages -/

theorem Frame.framed_read {message : Json} {frame : List UInt8}
    (hobj : message.isObject) (hp : message.isPlain) (h : bytes? message = some frame) :
    Framed read FrameError.isOfProtocol message frame := by
  obtain ⟨line, body, rfl, hline, hlength, hle, hbody⟩ := framed_of_bytes? hobj hp h
  have hpos : 0 < (line ++ headerEnd.reverse ++ body).length := by
    simp only [List.length_append, List.length_reverse]
    exact Nat.add_pos_left (Nat.add_pos_right _ (by decide)) _
  exact ⟨hpos, read_framed hline hlength hle hbody,
    fun k cuts hpos hk => read_framed_cut hline hlength hle hpos hk cuts⟩

/-- A message is received where its object is read. -/
theorem Message.framed_receive {m : Message} {frame : List UInt8}
    (h : Framed Frame.read FrameError.isOfProtocol m.toJson frame) :
    Framed receive ProtocolError.isOfProtocol m frame where
  pos := h.pos
  whole rest cuts := by
    obtain ⟨cuts', hread⟩ := h.whole rest cuts
    exact ⟨cuts', by rw [receive, hread]; simp [ofJson?_toJson]⟩
  cut k cuts hpos hk := by
    obtain ⟨e, hread, he⟩ := h.cut k cuts hpos hk
    refine ⟨.frame e, ?_, he⟩
    rw [receive]
    split <;> simp_all

theorem Message.receive_nil (cuts : List Nat) : (receive ⟨[], cuts⟩).1 = .ok none := by
  have := Frame.read_nil cuts
  rw [receive]
  split <;> simp_all

theorem forall₂_of_mapM {β : Type} {write : α → Option β} {R : α → β → Prop} {as : List α}
    {bs : List β} (h : as.mapM write = some bs) (hR : ∀ a ∈ as, ∀ b, write a = some b → R a b) :
    List.Forall₂ R as bs := by
  induction as generalizing bs with
  | nil =>
    obtain rfl : [] = bs := by simpa using h
    exact .nil
  | cons a as ih =>
    rw [List.mapM_cons] at h
    simp only [Option.bind_eq_bind, Option.bind_eq_some_iff, Option.pure_def,
      Option.some.injEq] at h
    obtain ⟨b, hb, bs, hbs, rfl⟩ := h
    exact .cons (hR a List.mem_cons_self b hb)
      (ih hbs fun a' ha' => hR a' (List.mem_cons_of_mem a ha'))

/-- **Frames are read back however they are cut.** Of the bytes that are
written for some objects, or some messages, the first `k` give back exactly
those whose frames lie in them in full, in their order, whatever pieces the
reads return; then comes the end of the stream if `k` is a boundary between
two frames, and an error of the protocol if it is not. The objects hold no
numbers but whole ones. -/
theorem frames_read_back :
    (∀ (messages : List Json) (frames : List (List UInt8)),
      (∀ m ∈ messages, m.isObject ∧ m.isPlain) → messages.mapM Frame.bytes? = some frames →
      ∀ k ≤ frames.flatten.length, ∀ cuts,
        FoundBefore Frame.read FrameError.isOfProtocol messages frames k cuts) ∧
    (∀ (messages : List Message) (frames : List (List UInt8)),
      (∀ m ∈ messages, m.CountsOnce) → messages.mapM Message.bytes? = some frames →
      ∀ k ≤ frames.flatten.length, ∀ cuts,
        FoundBefore Message.receive ProtocolError.isOfProtocol messages frames k cuts) := by
  constructor
  · intro messages frames hplain hframes k hk cuts
    refine foundBefore_of_framed Frame.read_nil
      (forall₂_of_mapM hframes fun m hm frame h => ?_) hk cuts
    exact Frame.framed_read (hplain m hm).1 (hplain m hm).2 h
  · intro messages frames honce hframes k hk cuts
    refine foundBefore_of_framed Message.receive_nil
      (forall₂_of_mapM hframes fun m hm frame h => ?_)
      hk cuts
    exact Message.framed_receive (Frame.framed_read m.isObject_toJson
      (Message.isPlain_toJson (honce m hm)) h)

theorem frames_read_back_sample :
    FoundBefore Frame.read FrameError.isOfProtocol [.obj [("a", .int 1)], .obj [("b", .str "é")]]
        [Frame.bytes (.obj [("a", .int 1)]), Frame.bytes (.obj [("b", .str "é")])] 40 [3, 1, 7] ∧
      FoundBefore Message.receive ProtocolError.isOfProtocol [.batch ["a.js"], .reportRequest]
        [Frame.bytes (Message.batch ["a.js"]).toJson, Frame.bytes Message.reportRequest.toJson]
        5 [2] := by
  constructor
  · refine frames_read_back.1 _ _ (by decide) ?_ 40 ?_ [3, 1, 7]
    · decide +kernel
    · decide +kernel
  · refine frames_read_back.2 _ _ (by simp [Message.CountsOnce]) ?_ 5 ?_ [2]
    · decide +kernel
    · decide +kernel

end Retype
