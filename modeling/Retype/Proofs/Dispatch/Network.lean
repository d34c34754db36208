import Mathlib.Logic.Function.Basic
import Mathlib.Data.List.Perm.Basic
import Retype.Dispatch.Session
import Retype.Worker.Serve
/-!
# A network of workers

Surroundings in which every worker serves: it takes the messages that have
been delivered to it one after the other and replies. That is how it serves a
stream, which is read off the messages that the stream holds
(`Worker.serve_of_receives`). Messages are under way for as long as they like.
Between any two calls of the primary anything may move, any number of times, as
a `Schedule` says; it is arbitrary, and so are the clock and what the primary
notices of the replies that have arrived.
-/

namespace Retype.Worker

/-! ## Serving, one message at a time -/

variable {σ : Type} {h : Handler σ}

/-- An input that holds some messages, one after the other, and then ends. -/
inductive Receives : ByteStream → List Message → Prop
  | ended {input rest : ByteStream} (hend : Message.receive input = (.ok none, rest)) :
      Receives input []
  | received {input rest : ByteStream} {m : Message} {ms : List Message}
      (hreceive : Message.receive input = (.ok (some m), rest)) (hrest : Receives rest ms) :
      Receives input (m :: ms)

/-- A worker takes some messages, one after the other, and ends in a state with
these replies. -/
inductive Answers (h : Handler σ) : σ → List Message → σ → List Message → Prop
  | nil {s : σ} : Answers h s [] s []
  | cons {s s' s'' : σ} {m reply : Message} {ms replies : List Message}
      (hm : respond h s m = .ok (s', reply)) (hms : Answers h s' ms s'' replies) :
      Answers h s (m :: ms) s'' (reply :: replies)

/-- One message more. -/
theorem Answers.snoc {s s' s'' : σ} {ms replies : List Message} {m reply : Message}
    (hms : Answers h s ms s' replies) (hm : respond h s' m = .ok (s'', reply)) :
    Answers h s (ms ++ [m]) s'' (replies ++ [reply]) := by
  induction hms with
  | nil => exact .cons hm .nil
  | cons hm' _ ih => exact .cons hm' (ih hm)

/-- **Serving an input is answering its messages.** -/
theorem serve_of_receives {s s' : σ} {input : ByteStream} {ms replies : List Message}
    (hinput : Receives input ms) (hms : Answers h s ms s' replies) :
    (serve h s input).failure = none ∧ (serve h s input).state = s' ∧
      (serve h s input).replies = replies ∧ (serve h s input).handled = ms.flatMap batchIn := by
  induction hinput generalizing s replies with
  | ended hend =>
    cases hms
    rw [serve.eq_def, hend]
    exact ⟨rfl, rfl, rfl, rfl⟩
  | received hreceive hrest ih =>
    cases hms with
    | cons hm hms =>
      obtain ⟨hfailure, hstate, hreplies, hhandled⟩ := ih hms
      rw [serve.eq_def, hreceive]
      simp [hm, hfailure, hstate, hreplies, hhandled, List.flatMap_cons]

end Retype.Worker

namespace Retype.Dispatch

open Worker (Handler respond Answers)

/-! ## Workers -/

/-- What is found in each file. -/
abbrev Operations := String → List Finding

/-- A worker that does the same with every file of a batch, and reports what
it has found. -/
def reporting (ops : Operations) : Handler (List Finding) :=
  ⟨fun found files => found ++ files.flatMap ops, Report.ofFindings⟩

/-- A worker, with the messages that are under way to it, those that it has
not taken and those that it has, and its replies, under way or arrived. -/
structure Peer where
  inbox : List Message
  delivered : List Message
  taken : List Message
  findings : List Finding
  outbox : List Message
  arrived : List Message
  failure : Option ProtocolError
  ended : Bool

/-- What moves. -/
inductive Move where
  /-- A message is delivered to the worker. -/
  | deliver
  /-- The worker takes a message and replies. -/
  | work
  /-- A reply of the worker arrives. -/
  | arrive

namespace Peer

/-- A worker that has just been spawned. -/
def fresh : Peer := ⟨[], [], [], [], [], [], none, false⟩

def move (ops : Operations) (p : Peer) : Move → Peer
  | .deliver =>
    match p.inbox with
    | [] => p
    | m :: rest => { p with inbox := rest, delivered := p.delivered ++ [m] }
  | .work =>
    match p.failure, p.delivered with
    | none, m :: rest =>
      match respond (reporting ops) p.findings m with
      | .ok (found, reply) =>
        { p with
          delivered := rest
          taken := p.taken ++ [m]
          findings := found
          outbox := p.outbox ++ [reply] }
      | .error cause => { p with delivered := rest, failure := some cause }
    | _, _ => p
  | .arrive =>
    match p.outbox with
    | [] => p
    | m :: rest => { p with outbox := rest, arrived := p.arrived ++ [m] }

/-- A message is sent to the worker. -/
def post (p : Peer) (m : Message) : Peer := { p with inbox := p.inbox ++ [m] }

/-- The replies that have arrived are received up to these. -/
def keep (p : Peer) (rest : List Message) : Peer := { p with arrived := rest }

/-- The worker is ended. -/
def stop (p : Peer) : Peer := { p with ended := true }

/-- Whether the worker can be sent something. -/
def isOpen (p : Peer) : Bool := p.failure.isNone && !p.ended

/-- Whether the primary has something to read: a reply, or the end. -/
def isReadable (p : Peer) : Bool := !p.arrived.isEmpty || p.failure.isSome

end Peer

/-! ## The surroundings -/

/-- The workers by their numbers, and how many calls there have been. -/
structure Network where
  calls : Nat
  peers : Nat → Option Peer

/-- **A schedule**: what moves before each call, the time, which replies are
noticed, and how long the primary can wait. -/
structure Schedule where
  moves : Nat → List (Nat × Move)
  clock : Network → Double
  notices : Nat → Nat → Bool
  bears : Option Double → Bool

namespace Network

/-- A network of nobody. -/
def empty : Network := ⟨0, fun _ => none⟩

def put (net : Network) (number : Nat) (p : Peer) : Network :=
  { net with peers := Function.update net.peers number (some p) }

/-- Something moves. -/
def move (ops : Operations) (net : Network) (m : Nat × Move) : Network :=
  match net.peers m.1 with
  | some p => net.put m.1 (p.move ops m.2)
  | none => net

/-- What happens before the next call. -/
def pass (ops : Operations) (schedule : Schedule) (net : Network) : Network :=
  { (schedule.moves net.calls).foldl (move ops) net with calls := net.calls + 1 }

end Network

/-- The surroundings in which these workers serve. -/
def Schedule.surroundings (ops : Operations) (schedule : Schedule) : Surroundings Network where
  now := schedule.clock
  spawn net number := ((net.pass ops schedule).put number .fresh, none)
  send net number m :=
    let net := net.pass ops schedule
    match net.peers number with
    | some p =>
      if p.isOpen then (net.put number (p.post m), none)
      else (net, some ⟨number⟩)
    | none => (net, some ⟨number⟩)
  wait net numbers t :=
    let net := net.pass ops schedule
    (net, if schedule.bears t then
      some (numbers.filter fun number =>
        schedule.notices net.calls number && (net.peers number).any Peer.isReadable)
      else none)
  receive net number :=
    let net := net.pass ops schedule
    match net.peers number with
    | some p =>
      match p.arrived with
      | m :: rest => (net.put number (p.keep rest), .ok (some m))
      | [] => (net, .ok none)
    | none => (net, .ok none)
  terminate net number :=
    let net := net.pass ops schedule
    match net.peers number with
    | some p => net.put number p.stop
    | none => net

/-! ## What moving keeps -/

/-- What is found in the files of a message. -/
def foundFor (ops : Operations) : Message → List Finding
  | .batch files => files.flatMap ops
  | _ => []

/-- Whether a message is for a worker. -/
def IsForWorker : Message → Prop
  | .batch _ => True
  | .reportRequest => True
  | _ => False

namespace Peer

variable {ops : Operations} {p q : Peer}

/-- The messages that the worker has not taken. -/
def pending (p : Peer) : List Message := p.delivered ++ p.inbox

/-- The replies that the primary has not received. -/
def replies (p : Peer) : List Message := p.arrived ++ p.outbox

/-- What the worker will have found when it has taken every message. -/
def settled (ops : Operations) (p : Peer) : List Finding :=
  p.findings ++ p.pending.flatMap (foundFor ops)

/-- **The worker serves**: nothing has gone wrong with it, it has done with its
messages what serving does, and is sent no other ones. -/
structure Sound (ops : Operations) (p : Peer) : Prop where
  failure : p.failure = none
  pending : ∀ m ∈ p.pending, IsForWorker m
  serves : ∃ replies, Answers (reporting ops) [] p.taken p.findings replies

/-- What is under way between the primary and the worker, by where the session
stands. -/
def Holds (p : Peer) : SessionState → Prop
  | .idle => p.pending = [] ∧ p.replies = []
  | .awaitingBatchResult =>
    (∃ files, p.pending = [.batch files] ∧ p.replies = []) ∨
      (p.pending = [] ∧ p.replies = [.next])
  | .awaitingReport =>
    (p.pending = [.reportRequest] ∧ p.replies = []) ∨
      (p.pending = [] ∧ p.replies = [.report (.ofFindings p.findings)])
  | .terminated => p.pending = [] ∧ p.replies = []

/-- A worker at a later moment, when nobody has called it. -/
structure Later (ops : Operations) (p q : Peer) : Prop where
  sound : q.Sound ops
  holds : ∀ state, p.Holds state → q.Holds state
  settled : q.settled ops = p.settled ops
  arrived : p.arrived <+: q.arrived
  ended : q.ended = p.ended

theorem Later.refl (h : p.Sound ops) : Later ops p p :=
  ⟨h, fun _ => id, rfl, List.prefix_rfl, rfl⟩

theorem Later.trans {r : Peer} (h : Later ops p q) (h' : Later ops q r) : Later ops p r :=
  ⟨h'.sound, fun state hp => h'.holds state (h.holds state hp), h'.settled.trans h.settled,
    h.arrived.trans h'.arrived, h'.ended.trans h.ended⟩

/-- A message in the middle of the way changes nothing else. -/
theorem Later.of_eq (h : p.Sound ops) (hpending : q.pending = p.pending)
    (hreplies : q.replies = p.replies) (hfindings : q.findings = p.findings)
    (htaken : q.taken = p.taken) (hfailure : q.failure = p.failure)
    (harrived : p.arrived <+: q.arrived) (hended : q.ended = p.ended) : Later ops p q := by
  refine ⟨⟨hfailure.trans h.failure, hpending ▸ h.pending, ?_⟩, fun state hp => ?_, ?_,
    harrived, hended⟩
  · rw [htaken, hfindings]
    exact h.serves
  · cases state <;> simpa only [Holds, hpending, hreplies, hfindings] using hp
  · rw [Peer.settled, Peer.settled, hpending, hfindings]

theorem move_deliver (h : p.Sound ops) : Later ops p (p.move ops .deliver) := by
  rcases hinbox : p.inbox with _ | ⟨m, rest⟩
  · simp only [move, hinbox]
    exact .refl h
  · simp only [move, hinbox]
    refine .of_eq h ?_ rfl rfl rfl rfl List.prefix_rfl rfl
    simp [pending, hinbox]

theorem move_arrive (h : p.Sound ops) : Later ops p (p.move ops .arrive) := by
  rcases houtbox : p.outbox with _ | ⟨m, rest⟩
  · simp only [move, houtbox]
    exact .refl h
  · simp only [move, houtbox]
    refine .of_eq h rfl ?_ rfl rfl rfl (List.prefix_append ..) rfl
    simp [replies, houtbox]

/-- A worker replies to every message that is for it. -/
theorem respond_reporting (ops : Operations) {m : Message} (hm : IsForWorker m)
    (found : List Finding) :
    ∃ reply, respond (reporting ops) found m = .ok (found ++ foundFor ops m, reply) := by
  cases m with
  | batch files => exact ⟨.next, rfl⟩
  | reportRequest => exact ⟨.report (.ofFindings found), by simp [respond, reporting, foundFor]⟩
  | next | report => exact hm.elim

/-- The reply to the message under way takes its place. -/
theorem Holds.replied {state : SessionState} (hp : p.Holds state) {m reply : Message}
    {rest : List Message} (hpending : p.pending = m :: rest) (hrest : q.pending = rest)
    (hreply : respond (reporting ops) p.findings m = .ok (q.findings, reply))
    (hreplies : q.replies = p.replies ++ [reply]) : q.Holds state := by
  cases state with
  | idle | terminated => exact absurd (hpending.symm.trans hp.1) (by simp)
  | awaitingBatchResult =>
    rcases hp with ⟨files, hbatch, hnone⟩ | ⟨hnil, -⟩
    · obtain ⟨rfl, rfl⟩ := List.cons.inj (hpending.symm.trans hbatch)
      obtain ⟨-, rfl⟩ := Prod.mk.inj (Except.ok.inj hreply)
      refine .inr ⟨hrest, ?_⟩
      rw [hreplies, hnone]
      rfl
    · exact absurd (hpending.symm.trans hnil) (by simp)
  | awaitingReport =>
    rcases hp with ⟨hrequest, hnone⟩ | ⟨hnil, -⟩
    · obtain ⟨rfl, rfl⟩ := List.cons.inj (hpending.symm.trans hrequest)
      obtain ⟨hfindings, rfl⟩ := Prod.mk.inj (Except.ok.inj hreply)
      refine .inr ⟨hrest, ?_⟩
      rw [hreplies, hnone, ← hfindings]
      rfl
    · exact absurd (hpending.symm.trans hnil) (by simp)

/-- Taking a message turns it into a reply. -/
theorem move_work (h : p.Sound ops) : Later ops p (p.move ops .work) := by
  rcases hdelivered : p.delivered with _ | ⟨m, rest⟩
  · simp only [move, h.failure, hdelivered]
    exact .refl h
  · have hpending : p.pending = m :: (rest ++ p.inbox) := by rw [pending, hdelivered]; rfl
    have hm : IsForWorker m := h.pending m (hpending ▸ List.mem_cons_self ..)
    have hrest : ∀ m' ∈ rest ++ p.inbox, IsForWorker m' := fun m' hm' =>
      h.pending m' (hpending ▸ List.mem_cons_of_mem m hm')
    obtain ⟨_, hserves⟩ := h.serves
    obtain ⟨reply, hreply⟩ := respond_reporting ops hm p.findings
    simp only [move, h.failure, hdelivered, hreply]
    refine ⟨⟨rfl, hrest, _, hserves.snoc hreply⟩, fun state hp => ?_, ?_, List.prefix_rfl, rfl⟩
    · refine hp.replied hpending rfl hreply ?_
      rw [replies, replies, ← List.append_assoc]
    · rw [settled, settled, hpending, List.flatMap_cons, ← List.append_assoc]
      rfl

theorem move_later (h : p.Sound ops) (m : Move) : Later ops p (p.move ops m) := by
  cases m with
  | deliver => exact move_deliver h
  | work => exact move_work h
  | arrive => exact move_arrive h

end Peer

namespace Network

variable {ops : Operations} {schedule : Schedule} {net net' : Network}

/-- Every worker serves. -/
def Sound (ops : Operations) (net : Network) : Prop :=
  ∀ number p, net.peers number = some p → p.Sound ops

/-- A network at a later moment, when nobody has been called. -/
structure Later (ops : Operations) (net net' : Network) : Prop where
  peer : ∀ number p, net.peers number = some p →
    ∃ q, net'.peers number = some q ∧ p.Later ops q
  nobody : ∀ number, net.peers number = none → net'.peers number = none

theorem Later.trans {net'' : Network} (h : Later ops net net') (h' : Later ops net' net'') :
    Later ops net net'' := by
  refine ⟨fun number p hp => ?_, fun number hnone => h'.nobody number (h.nobody number hnone)⟩
  obtain ⟨q, hq, hpq⟩ := h.peer number p hp
  obtain ⟨r, hr, hqr⟩ := h'.peer number q hq
  exact ⟨r, hr, hpq.trans hqr⟩

theorem Later.sound (h : Later ops net net') : net'.Sound ops := by
  intro number q hq
  rcases hp : net.peers number with _ | p
  · exact absurd (hq.symm.trans (h.nobody number hp)) (by simp)
  · obtain ⟨r, hr, hpr⟩ := h.peer number p hp
    rw [hr] at hq
    exact Option.some.inj hq ▸ hpr.sound

/-- A worker is put in the place of an earlier one. -/
theorem later_put (hsound : net.Sound ops) {number : Nat} {p q : Peer}
    (hp : net.peers number = some p) (hpq : p.Later ops q) : Later ops net (net.put number q) := by
  refine ⟨fun m r hr => ?_, fun m hm => ?_⟩
  · by_cases h : m = number
    · subst h
      rw [hp] at hr
      exact ⟨q, Function.update_self .., Option.some.inj hr ▸ hpq⟩
    · exact ⟨r, (Function.update_of_ne h ..).trans hr, .refl (hsound m r hr)⟩
  · have hne : m ≠ number := fun h => by
      rw [h, hp] at hm
      exact absurd hm (by simp)
    exact (Function.update_of_ne hne ..).trans hm

theorem later_move (hsound : net.Sound ops) (m : Nat × Move) : Later ops net (net.move ops m) := by
  rw [move]
  rcases hp : net.peers m.1 with _ | p
  · exact ⟨fun number p hp => ⟨p, hp, .refl (hsound number p hp)⟩, fun _ => id⟩
  · exact later_put hsound hp (Peer.move_later (hsound _ p hp) m.2)

theorem later_moves (hsound : net.Sound ops) (moves : List (Nat × Move)) :
    Later ops net (moves.foldl (move ops) net) := by
  induction moves generalizing net with
  | nil => exact ⟨fun number p hp => ⟨p, hp, .refl (hsound number p hp)⟩, fun _ => id⟩
  | cons m moves ih => exact (later_move hsound m).trans (ih (later_move hsound m).sound)

/-- **Whatever moves** before a call, everybody serves on. -/
theorem later_pass (schedule : Schedule) (hsound : net.Sound ops) :
    Later ops net (net.pass ops schedule) :=
  ⟨(later_moves hsound _).peer, (later_moves hsound _).nobody⟩

end Network

end Retype.Dispatch
