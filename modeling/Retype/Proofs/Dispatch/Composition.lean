import Retype.Proofs.Dispatch.Exchange
import Retype.Proofs.Dispatch.Network
import Retype.Proofs.Report.Merge
/-!
# The primary in front of its workers

The orchestrator and the workers of a network, together. `Traffic` says what is
under way between them while a run goes on: one message or reply for each
session, as the session expects, and every batch found out about by one
worker. From it neither side ever gets what it does not expect, and the
merged report is that of one worker with all the files.
-/

namespace Retype.Dispatch

variable {ops : Operations} {schedule : Schedule} {net net' : Network}

namespace Network

/-- What the worker with a number will have found when it has taken every
message. -/
def settledAt (ops : Operations) (net : Network) (number : Nat) : List Finding :=
  match net.peers number with
  | some p => p.settled ops
  | none => []

/-- A reply of the worker has arrived. -/
def ArrivedAt (net : Network) (number : Nat) : Prop :=
  ∃ p, net.peers number = some p ∧ p.arrived ≠ []

theorem settledAt_of_peer {number : Nat} {p : Peer} (hp : net.peers number = some p) :
    net.settledAt ops number = p.settled ops := by
  rw [settledAt, hp]

theorem peers_put (net : Network) (number : Nat) (p : Peer) :
    (net.put number p).peers number = some p :=
  Function.update_self ..

theorem peers_put_of_ne {number m : Nat} (h : m ≠ number) (p : Peer) :
    (net.put number p).peers m = net.peers m :=
  Function.update_of_ne h ..

theorem settledAt_put_of_ne {number m : Nat} (h : m ≠ number) (p : Peer) :
    (net.put number p).settledAt ops m = net.settledAt ops m := by
  rw [settledAt, peers_put_of_ne h, settledAt]

theorem Later.settledAt (h : Later ops net net') : net'.settledAt ops = net.settledAt ops := by
  funext number
  rcases hp : net.peers number with _ | p
  · rw [Network.settledAt, Network.settledAt, hp, h.nobody number hp]
  · obtain ⟨q, hq, hpq⟩ := h.peer number p hp
    rw [settledAt_of_peer hp, settledAt_of_peer hq, hpq.settled]

theorem ArrivedAt.later {number : Nat} (harrived : net.ArrivedAt number)
    (h : Later ops net net') : net'.ArrivedAt number := by
  obtain ⟨p, hp, hne⟩ := harrived
  obtain ⟨q, hq, hpq⟩ := h.peer number p hp
  exact ⟨q, hq, fun hnil => hne (List.prefix_nil.1 (hnil ▸ hpq.arrived))⟩

theorem ArrivedAt.put {number m : Nat} (harrived : net.ArrivedAt m) (h : m ≠ number) (p : Peer) :
    (net.put number p).ArrivedAt m := by
  obtain ⟨q, hq, hne⟩ := harrived
  exact ⟨q, (peers_put_of_ne h p).trans hq, hne⟩

theorem Sound.put (hsound : net.Sound ops) {number : Nat} {p : Peer} (hp : p.Sound ops) :
    (net.put number p).Sound ops := by
  intro m q hq
  by_cases h : m = number
  · subst h
    rw [peers_put] at hq
    exact Option.some.inj hq ▸ hp
  · exact hsound m q ((peers_put_of_ne h p).symm.trans hq)

end Network

/-! ## What is under way -/

/-- **What is under way** while a run goes on. -/
structure Traffic (ops : Operations) (net : Network) (status : Nat → Option SessionState)
    (numbers : List Nat) (handed : List (List String)) (reports : List Report) : Prop where
  sound : net.Sound ops
  nodup : numbers.Nodup
  mem : ∀ number, number ∈ numbers ↔ status number ≠ none
  peer : ∀ number state, status number = some state →
    ∃ p, net.peers number = some p ∧ p.Holds state ∧ (state ≠ .terminated → p.ended = false)
  found : (numbers.flatMap (net.settledAt ops)).Perm (handed.flatten.flatMap ops)
  reported : ∃ reporters : List Nat, reporters.Nodup ∧
    (∀ number, number ∈ reporters ↔ status number = some .terminated) ∧
    reports = reporters.map fun number => .ofFindings (net.settledAt ops number)

/-- More is found by one worker. -/
theorem perm_flatMap_update {f : Nat → List Finding} {numbers : List Nat} (hnodup : numbers.Nodup)
    {number : Nat} (hmem : number ∈ numbers) {g : Nat → List Finding}
    (hg : ∀ m, m ≠ number → g m = f m) {more : List Finding} (hmore : g number = f number ++ more) :
    (numbers.flatMap g).Perm (numbers.flatMap f ++ more) := by
  induction numbers with
  | nil => exact absurd hmem List.not_mem_nil
  | cons m numbers ih =>
    rw [List.nodup_cons] at hnodup
    rw [List.flatMap_cons, List.flatMap_cons]
    by_cases hm : m = number
    · subst hm
      have hsame : numbers.flatMap g = numbers.flatMap f :=
        List.flatMap_congr fun n hn => hg n fun h => hnodup.1 (h ▸ hn)
      rw [hsame, hmore, List.append_assoc, List.append_assoc]
      exact List.perm_append_comm.append_left _
    · rw [hg m hm, List.append_assoc]
      exact (ih hnodup.2 ((List.mem_cons.1 hmem).resolve_left fun h => hm h.symm)).append_left _

namespace Traffic

variable {status : Nat → Option SessionState} {numbers : List Nat} {handed : List (List String)}
variable {reports : List Report}

/-- Nothing is lost on the way. -/
theorem later (h : Traffic ops net status numbers handed reports) (hlater : net.Later ops net') :
    Traffic ops net' status numbers handed reports := by
  refine ⟨hlater.sound, h.nodup, h.mem, fun number state hstatus => ?_, ?_, ?_⟩
  · obtain ⟨p, hp, hholds, hended⟩ := h.peer number state hstatus
    obtain ⟨q, hq, hpq⟩ := hlater.peer number p hp
    exact ⟨q, hq, hpq.holds state hholds, fun hlive => hpq.ended.trans (hended hlive)⟩
  · rw [hlater.settledAt]
    exact h.found
  · rw [hlater.settledAt]
    exact h.reported

/-- **One worker goes on**: its session stands elsewhere, it has more to find, and
when the session has ended it has reported what it has found. -/
theorem put (h : Traffic ops net status numbers handed reports) {number : Nat}
    {state state' : SessionState} (hstatus : status number = some state)
    (hlive : state ≠ .terminated) {p q : Peer} (hp : net.peers number = some p)
    (hsound : q.Sound ops) (hholds : q.Holds state')
    (hended : state' ≠ .terminated → q.ended = false) {more : List Finding}
    (hsettled : q.settled ops = p.settled ops ++ more) {handed' : List (List String)}
    (hhanded : handed'.flatten.flatMap ops = handed.flatten.flatMap ops ++ more)
    {reports' : List Report}
    (hreports : (state' ≠ .terminated ∧ reports' = reports) ∨
      (state' = .terminated ∧ reports' = reports ++ [.ofFindings (q.settled ops)])) :
    Traffic ops (net.put number q) (Function.update status number (some state')) numbers handed'
      reports' := by
  have hmem : number ∈ numbers := (h.mem number).2 (by simp [hstatus])
  refine ⟨h.sound.put hsound, h.nodup, fun m => ?_, fun m st hst => ?_, ?_, ?_⟩
  · by_cases hm : m = number
    · simp [hm, hmem]
    · rw [h.mem, Function.update_of_ne hm]
  · by_cases hm : m = number
    · subst hm
      rw [Function.update_self, Option.some.injEq] at hst
      subst hst
      exact ⟨q, Network.peers_put .., hholds, hended⟩
    · rw [Function.update_of_ne hm] at hst
      obtain ⟨r, hr, hrest⟩ := h.peer m st hst
      exact ⟨r, (Network.peers_put_of_ne hm q).trans hr, hrest⟩
  · rw [hhanded]
    refine (perm_flatMap_update h.nodup hmem (fun m hm => Network.settledAt_put_of_ne hm q)
      ?_).trans (h.found.append_right more)
    rw [Network.settledAt_of_peer hp, Network.settledAt_of_peer (Network.peers_put ..), hsettled]
  · obtain ⟨reporters, hnodup, hiff, rfl⟩ := h.reported
    -- those who have reported are others, and what they found stays
    have hnumber : number ∉ reporters :=
      fun hr => hlive (by simpa [hstatus] using (hiff number).1 hr)
    have hsame : (reporters.map fun m => Report.ofFindings ((net.put number q).settledAt ops m)) =
        reporters.map fun m => .ofFindings (net.settledAt ops m) :=
      List.map_congr_left fun m hm => by
        rw [Network.settledAt_put_of_ne (ne_of_mem_of_not_mem hm hnumber)]
    rcases hreports with ⟨hne, rfl⟩ | ⟨rfl, rfl⟩
    · refine ⟨reporters, hnodup, fun m => ?_, hsame.symm⟩
      by_cases hm : m = number
      · simp [hm, hnumber, hne]
      · rw [hiff, Function.update_of_ne hm]
    · refine ⟨reporters ++ [number], ?_, fun m => ?_, ?_⟩
      · refine List.nodup_append'.2 ⟨hnodup, List.nodup_singleton _, ?_⟩
        rwa [List.disjoint_singleton]
      · by_cases hm : m = number
        · simp [hm]
        · simp [hm, hiff]
      · rw [List.map_append, hsame, List.map_singleton,
          Network.settledAt_of_peer (Network.peers_put ..)]

/-- Somebody is spawned. -/
theorem spawned (h : Traffic ops net status numbers handed reports) {number : Nat}
    (hstatus : status number = none) :
    Traffic ops (net.put number .fresh) (Function.update status number (some .idle))
      (numbers ++ [number]) handed reports := by
  have hnumber : number ∉ numbers := fun hmem => (h.mem number).1 hmem hstatus
  have hsame : ∀ m ∈ numbers, (net.put number .fresh).settledAt ops m = net.settledAt ops m :=
    fun m hm => Network.settledAt_put_of_ne (ne_of_mem_of_not_mem hm hnumber) _
  refine ⟨h.sound.put ⟨rfl, fun _ hm => absurd hm List.not_mem_nil, _, .nil⟩, ?_, fun m => ?_,
    fun m st hst => ?_, ?_, ?_⟩
  · refine List.nodup_append'.2 ⟨h.nodup, List.nodup_singleton _, ?_⟩
    rwa [List.disjoint_singleton]
  · by_cases hm : m = number
    · simp [hm]
    · simp [hm, h.mem]
  · by_cases hm : m = number
    · subst hm
      rw [Function.update_self, Option.some.injEq] at hst
      subst hst
      exact ⟨.fresh, Network.peers_put .., ⟨rfl, rfl⟩, fun _ => rfl⟩
    · rw [Function.update_of_ne hm] at hst
      obtain ⟨r, hr, hrest⟩ := h.peer m st hst
      exact ⟨r, (Network.peers_put_of_ne hm _).trans hr, hrest⟩
  · rw [List.flatMap_append, List.flatMap_congr hsame, List.flatMap_singleton,
      Network.settledAt_of_peer (Network.peers_put ..)]
    exact (List.append_nil _).symm ▸ h.found
  · obtain ⟨reporters, hnodup, hiff, rfl⟩ := h.reported
    refine ⟨reporters, hnodup, fun m => ?_, ?_⟩
    · by_cases hm : m = number
      · simp [hm, hiff, hstatus]
      · rw [hiff, Function.update_of_ne hm]
    · refine List.map_congr_left fun m hm => ?_
      have hne : m ≠ number := fun h => by
        have hended := (hiff m).1 hm
        rw [h, hstatus] at hended
        exact absurd hended (by simp)
      rw [Network.settledAt_put_of_ne hne]

/-! ### The calls -/

/-- A message can be sent to a worker that lives. -/
theorem send_eq {number : Nat} {p : Peer} {m : Message}
    (hp : (net.pass ops schedule).peers number = some p) (hfailure : p.failure = none)
    (hended : p.ended = false) :
    (schedule.surroundings ops).send net number m =
      ((net.pass ops schedule).put number (p.post m), none) := by
  simp [Schedule.surroundings, hp, Peer.isOpen, hfailure, hended]

/-- A free worker is sent a message, and expects to reply. -/
theorem send (h : Traffic ops net status numbers handed reports) {number : Nat}
    (hstatus : status number = some .idle) {m : Message} (hm : IsForWorker m)
    {state : SessionState} (hlive : state ≠ .terminated)
    (hholds : ∀ p : Peer, p.pending = [m] → p.replies = [] → p.Holds state)
    {handed' : List (List String)}
    (hhanded : handed'.flatten.flatMap ops = handed.flatten.flatMap ops ++ foundFor ops m) :
    ∃ net', (schedule.surroundings ops).send net number m = (net', none) ∧
      Traffic ops net' (Function.update status number (some state)) numbers handed' reports ∧
      ∀ k, k ≠ number → net.ArrivedAt k → net'.ArrivedAt k := by
  have hlater : net.Later ops (net.pass ops schedule) := Network.later_pass schedule h.sound
  have hflow := h.later hlater
  obtain ⟨p, hp, ⟨hpending, hreplies⟩, hended⟩ := hflow.peer number .idle hstatus
  have hsound := hflow.sound number p hp
  have hpending' : (p.post m).pending = [m] := by
    refine (List.append_assoc ..).symm.trans ?_
    exact congrArg (· ++ [m]) hpending
  refine ⟨_, send_eq hp hsound.failure (hended (by simp)), ?_, fun k hk harrived =>
    (harrived.later hlater).put hk _⟩
  have hposted : (p.post m).Holds state := hholds _ hpending' hreplies
  have hsound' : (p.post m).Sound ops := by
    refine ⟨hsound.failure, ?_, hsound.serves⟩
    rw [hpending']
    intro m' hm'
    rwa [List.mem_singleton.1 hm']
  have hsettled : (p.post m).settled ops = p.settled ops ++ foundFor ops m := by
    rw [Peer.settled, Peer.settled, hpending', hpending, List.flatMap_singleton, List.flatMap_nil,
      List.append_nil]
    rfl
  exact hflow.put hstatus (by simp) hp hsound' hposted (fun _ => hended (by simp)) hsettled hhanded
    (.inl ⟨hlive, rfl⟩)

/-- A free worker is sent a batch. -/
theorem sendBatch (schedule : Schedule) (h : Traffic ops net status numbers handed reports)
    {number : Nat} (hstatus : status number = some .idle) (batch : List String) :
    ∃ net', (schedule.surroundings ops).send net number (.batch batch) = (net', none) ∧
      Traffic ops net' (Function.update status number (some .awaitingBatchResult)) numbers
        (handed ++ [batch]) reports ∧
      ∀ k, k ≠ number → net.ArrivedAt k → net'.ArrivedAt k := by
  refine h.send (m := .batch batch) hstatus trivial (by simp) (fun p hpending hreplies => ?_) ?_
  · exact .inl ⟨batch, hpending, hreplies⟩
  · rw [List.flatten_append, List.flatMap_append, List.flatten_singleton, foundFor]

/-- A free worker is asked for its report. -/
theorem sendRequest (schedule : Schedule) (h : Traffic ops net status numbers handed reports)
    {number : Nat} (hstatus : status number = some .idle) :
    ∃ net', (schedule.surroundings ops).send net number .reportRequest = (net', none) ∧
      Traffic ops net' (Function.update status number (some .awaitingReport)) numbers handed
        reports ∧
      ∀ k, k ≠ number → net.ArrivedAt k → net'.ArrivedAt k := by
  refine h.send (m := .reportRequest) hstatus trivial (by simp) (fun p hpending hreplies => ?_) ?_
  · exact .inl ⟨hpending, hreplies⟩
  · exact (List.append_nil _).symm

/-- Somebody is spawned and sent its first batch. -/
theorem spawnBatch (h : Traffic ops net status numbers handed reports) {number : Nat}
    (hstatus : status number = none) {failure : Option String}
    (hspawn : (schedule.surroundings ops).spawn net number = (net', failure))
    (batch : List String) :
    failure = none ∧
      ∃ net'', (schedule.surroundings ops).send net' number (.batch batch) = (net'', none) ∧
      Traffic ops net'' (Function.update status number (some .awaitingBatchResult))
        (numbers ++ [number]) (handed ++ [batch]) reports := by
  obtain ⟨rfl, rfl⟩ := Prod.mk.inj hspawn
  have hflow := (h.later (Network.later_pass schedule h.sound)).spawned hstatus
  obtain ⟨net'', hsend, hflow', -⟩ :=
    hflow.sendBatch schedule (Function.update_self ..) batch
  rw [Function.update_idem] at hflow'
  exact ⟨rfl, net'', hsend, hflow'⟩

/-- What has arrived from a worker is received. -/
theorem receive_eq {number : Nat} {p : Peer} {m : Message} {rest : List Message}
    (hp : (net.pass ops schedule).peers number = some p) (harrived : p.arrived = m :: rest) :
    (schedule.surroundings ops).receive net number =
      ((net.pass ops schedule).put number (p.keep rest), .ok (some m)) := by
  simp [Schedule.surroundings, hp, harrived]

/-- **A reply is the one that is due**, and leaves nothing under way. -/
theorem arrived_cases {p : Peer} {state : SessionState} (hholds : p.Holds state)
    {m : Message} {rest : List Message} (harrived : p.arrived = m :: rest) :
    p.pending = [] ∧ (p.keep rest).replies = [] ∧
      ((state = .awaitingBatchResult ∧ m = .next) ∨
        (state = .awaitingReport ∧ m = .report (.ofFindings p.findings))) := by
  have hreplies : p.replies = m :: (rest ++ p.outbox) := by rw [Peer.replies, harrived]; rfl
  cases state with
  | idle | terminated => exact absurd (hreplies.symm.trans hholds.2) (by simp)
  | awaitingBatchResult =>
    rcases hholds with ⟨_, -, hnil⟩ | ⟨hpending, hone⟩
    · exact absurd (hreplies.symm.trans hnil) (by simp)
    · rw [hreplies, List.cons.injEq] at hone
      exact ⟨hpending, hone.2, .inl ⟨rfl, hone.1⟩⟩
  | awaitingReport =>
    rcases hholds with ⟨-, hnil⟩ | ⟨hpending, hone⟩
    · exact absurd (hreplies.symm.trans hnil) (by simp)
    · rw [hreplies, List.cons.injEq] at hone
      exact ⟨hpending, hone.2, .inr ⟨rfl, hone.1⟩⟩

/-- The primary receives what is due, and either the worker is free or it has
reported and its session ends. -/
theorem receive (h : Traffic ops net status numbers handed reports) {number : Nat}
    {state : SessionState} (hstatus : status number = some state)
    (harrived : net.ArrivedAt number) :
    ∃ net' m, (schedule.surroundings ops).receive net number = (net', .ok (some m)) ∧
      (∀ k, k ≠ number → net.ArrivedAt k → net'.ArrivedAt k) ∧
      ((state = .awaitingBatchResult ∧ m = .next ∧
          Traffic ops net' (Function.update status number (some .idle)) numbers handed reports) ∨
        (state = .awaitingReport ∧ ∃ data, m = .report data ∧
          Traffic ops net' (Function.update status number (some .terminated)) numbers handed
            (reports ++ [data]))) := by
  have hlater : net.Later ops (net.pass ops schedule) := Network.later_pass schedule h.sound
  have hflow := h.later hlater
  obtain ⟨p, hp, hholds, hended⟩ := hflow.peer number state hstatus
  have hsound := hflow.sound number p hp
  obtain ⟨p', hp', hne⟩ := harrived.later hlater
  obtain rfl : p' = p := Option.some.inj (hp'.symm.trans hp)
  obtain ⟨m, rest, hm⟩ := List.exists_cons_of_ne_nil hne
  obtain ⟨hpending, hreplies, hcases⟩ := arrived_cases hholds hm
  have hsound' : (p'.keep rest).Sound ops :=
    ⟨hsound.failure, hsound.pending, hsound.serves⟩
  have hsettled : (p'.keep rest).settled ops = p'.settled ops ++ [] :=
    (List.append_nil _).symm
  have hhanded : handed.flatten.flatMap ops = handed.flatten.flatMap ops ++ [] :=
    (List.append_nil _).symm
  refine ⟨_, m, receive_eq hp hm, fun k hk hk' => (hk'.later hlater).put hk _, ?_⟩
  rcases hcases with ⟨rfl, rfl⟩ | ⟨rfl, rfl⟩
  · have hfree : (p'.keep rest).Holds .idle := ⟨hpending, hreplies⟩
    exact .inl ⟨rfl, rfl, hflow.put hstatus (by simp) hp hsound' hfree
      (fun _ => hended (by simp)) hsettled hhanded (.inl ⟨by simp, rfl⟩)⟩
  · have hfree : (p'.keep rest).Holds .terminated := ⟨hpending, hreplies⟩
    refine .inr ⟨rfl, _, rfl, hflow.put hstatus (by simp) hp hsound' hfree
      (fun h => absurd rfl h) hsettled hhanded (.inr ⟨rfl, ?_⟩)⟩
    -- the report says what has been found, and with nothing under way that is everything
    have hfound : p'.findings = p'.settled ops := by
      rw [Peer.settled, hpending, List.flatMap_nil, List.append_nil]
    rw [hsettled, List.append_nil, hfound]

/-- Ending a worker keeps everybody else, and what it has found. -/
theorem terminate (schedule : Schedule) (h : Traffic ops net status numbers handed reports)
    {number : Nat} (hstatus : status number = some .terminated) :
    Traffic ops ((schedule.surroundings ops).terminate net number) status numbers handed
      reports := by
  have hflow := h.later (Network.later_pass schedule h.sound)
  obtain ⟨p, hp, hholds, -⟩ := hflow.peer number _ hstatus
  have hsound := hflow.sound number p hp
  have hnet : (schedule.surroundings ops).terminate net number =
      (net.pass ops schedule).put number p.stop := by
    simp [Schedule.surroundings, hp]
  have hsettled : ((net.pass ops schedule).put number p.stop).settledAt ops =
      (net.pass ops schedule).settledAt ops := by
    funext m
    by_cases hm : m = number
    · rw [hm, Network.settledAt_of_peer (Network.peers_put ..), Network.settledAt_of_peer hp]
      rfl
    · exact Network.settledAt_put_of_ne hm _
  have hsound' : p.stop.Sound ops := ⟨hsound.failure, hsound.pending, hsound.serves⟩
  rw [hnet]
  refine ⟨hflow.sound.put hsound', h.nodup, h.mem, fun m st hst => ?_, ?_, ?_⟩
  · by_cases hm : m = number
    · subst hm
      obtain rfl : .terminated = st := Option.some.inj (hstatus.symm.trans hst)
      exact ⟨p.stop, Network.peers_put .., hholds, fun h => absurd rfl h⟩
    · obtain ⟨r, hr, hrest⟩ := hflow.peer m st hst
      exact ⟨r, (Network.peers_put_of_ne hm _).trans hr, hrest⟩
  · rw [hsettled]
    exact hflow.found
  · rw [hsettled]
    exact hflow.reported

end Traffic

/-- Ending a worker breaks none. -/
theorem Network.Sound.terminate (h : net.Sound ops) (number : Nat) :
    ((schedule.surroundings ops).terminate net number).Sound ops := by
  have hsound := (later_pass schedule h).sound
  rcases hp : (net.pass ops schedule).peers number with _ | p
  · simpa [Schedule.surroundings, hp] using hsound
  · have hpeer := hsound number p hp
    have hstop : p.stop.Sound ops := ⟨hpeer.failure, hpeer.pending, hpeer.serves⟩
    simpa [Schedule.surroundings, hp] using hsound.put hstop

/-- Ending a worker leaves what has arrived. -/
theorem Network.ArrivedAt.terminate (hsound : net.Sound ops) {m : Nat} (h : net.ArrivedAt m)
    (number : Nat) : ((schedule.surroundings ops).terminate net number).ArrivedAt m := by
  have harrived := h.later (later_pass schedule hsound)
  rcases hp : (net.pass ops schedule).peers number with _ | p
  · simpa [Schedule.surroundings, hp] using harrived
  · have hstop : ((net.pass ops schedule).put number p.stop).ArrivedAt m := by
      by_cases hm : m = number
      · subst hm
        obtain ⟨q, hq, hne⟩ := harrived
        obtain rfl : q = p := Option.some.inj (hq.symm.trans hp)
        exact ⟨q.stop, peers_put .., hne⟩
      · exact harrived.put hm _
    simpa [Schedule.surroundings, hp] using hstop

/-- Whoever is found ready has something to be received. -/
theorem arrivedAt_of_wait (h : net.Sound ops) {numbers ready : List Nat} {t : Option Double}
    (hwait : (schedule.surroundings ops).wait net numbers t = (net', some ready)) {number : Nat}
    (hready : number ∈ ready) : net'.ArrivedAt number := by
  have hsound := (Network.later_pass schedule h).sound
  simp only [Schedule.surroundings, Prod.mk.injEq] at hwait
  obtain ⟨rfl, hready'⟩ := hwait
  split at hready'
  · obtain rfl := Option.some.inj hready'
    have hreadable := (List.mem_filter.1 hready).2
    rw [Bool.and_eq_true] at hreadable
    obtain ⟨p, hp, hp'⟩ := (Option.any_eq_true ..).mp hreadable.2
    -- a worker that serves is readable only if it has replied
    have hfailure := (hsound number p hp).failure
    refine ⟨p, hp, fun hnil => ?_⟩
    simp [Peer.isReadable, hnil, hfailure] at hp'
  · exact absurd hready' (by simp)

/-! ## The invariant of composed runs -/

/-- The sessions that a run deals with. -/
def Phase.ready : Phase → List Session
  | handling ready => ready
  | _ => []

/-- **A composed run**: everybody serves; while it goes on nothing is lost on
the way; it fails only if the primary cannot wait, and when it finishes what
was found is in the reports. -/
structure Composed (ops : Operations) (c : Moment Network) : Prop where
  sound : c.state.surroundings.Sound ops
  going : c.phase.result? = none →
    Traffic ops c.state.surroundings c.status (numbersOf c.state.sessions) c.state.batches
      c.state.reports ∧ ∀ x ∈ c.phase.ready, c.state.surroundings.ArrivedAt x.number
  failed : ∀ cause, c.phase.result? = some (.error cause) → cause = .deadlineTooFar
  finished : c.phase.result? = some (.ok ()) → ∃ chunks : List (List Finding),
    c.state.reports.Perm (chunks.map .ofFindings) ∧
    chunks.flatten.Perm (c.state.batches.flatten.flatMap ops)

variable {o : Settings} {c c' : Moment Network}

/-- A run that goes on. -/
theorem Composed.of_flow {handed : List (List String)}
    (h : Traffic ops c.state.surroundings c.status (numbersOf c.state.sessions) handed
      c.state.reports) (hbatches : c.state.batches = handed)
    (hready : ∀ x ∈ c.phase.ready, c.state.surroundings.ArrivedAt x.number)
    (hresult : c.phase.result? = none) : Composed ops c := by
  refine ⟨h.sound, fun _ => ⟨hbatches ▸ h, hready⟩, fun cause hcause => ?_, fun hok => ?_⟩
  · exact absurd (hresult.symm.trans hcause) (by simp)
  · exact absurd (hresult.symm.trans hok) (by simp)

/-- When nobody is left everything has been reported. -/
theorem Traffic.finished {status : Nat → Option SessionState} {numbers : List Nat}
    {handed : List (List String)} {reports : List Report}
    (h : Traffic ops net status numbers handed reports)
    (hended : ∀ number state, status number = some state → state = .terminated) :
    ∃ chunks : List (List Finding), reports.Perm (chunks.map .ofFindings) ∧
      chunks.flatten.Perm (handed.flatten.flatMap ops) := by
  obtain ⟨reporters, hnodup, hiff, rfl⟩ := h.reported
  refine ⟨numbers.map (net.settledAt ops), ?_, h.found⟩
  rw [List.map_map]
  refine List.Perm.map _ ((List.perm_ext_iff_of_nodup hnodup h.nodup).2 fun number => ?_)
  rw [hiff, h.mem]
  refine ⟨fun h => by simp [h], fun hne => ?_⟩
  obtain ⟨state, hstate⟩ := Option.ne_none_iff_exists'.1 hne
  rw [hstate, hended number state hstate]

/-- What is under way once the session of one worker has changed. -/
theorem Traffic.of_change {xs : List Session} {number : Nat} {f : Session → Session}
    {state state' : SessionState} {handed : List (List String)} {reports : List Report}
    (hstatus : statusIn xs number = some state) (hf : ∀ x, (f x).number = x.number)
    (hstate : ∀ x, (f x).state = state')
    (h : Traffic ops net (Function.update (statusIn xs) number (some state')) (numbersOf xs) handed
      reports) :
    Traffic ops net (statusIn (Session.change number f xs)) (numbersOf (Session.change number f xs))
      handed reports := by
  rwa [statusIn_change_to hf hstate hstatus, Session.numbersOf_change hf]

/-- What keeps the replies of everybody but one, who is dealt with, keeps those
of the others who are ready. -/
theorem arrivedAt_rest {s : RunState Network} {x : Session} {rest : List Session}
    (hstanding : Standing ⟨.handling (x :: rest), s⟩)
    (hothers : ∀ k, k ≠ x.number → net.ArrivedAt k → net'.ArrivedAt k)
    (harrived : ∀ y ∈ rest, net.ArrivedAt y.number) : ∀ y ∈ rest, net'.ArrivedAt y.number := by
  intro y hy
  have hx : x.number ∉ numbersOf rest := (List.nodup_cons.1 hstanding.2.2.1).1
  exact hothers y.number (ne_of_mem_of_not_mem (Session.mem_numbersOf hy) hx) (harrived y hy)

/-- **What the primary receives is what is due**, from a worker that is dealt with. -/
theorem Composed.received {s : RunState Network} {x : Session} {rest : List Session}
    (hc : Composed ops ⟨.handling (x :: rest), s⟩) (hstanding : Standing ⟨.handling (x :: rest), s⟩)
    {answer : Except ProtocolError (Option Message)}
    (hreceive : (schedule.surroundings ops).receive s.surroundings x.number = (net, answer)) :
    ∃ m, answer = .ok (some m) ∧ Due x.state m ∧ (∀ y ∈ rest, net.ArrivedAt y.number) ∧
      (m = .next → Traffic ops net (Function.update (statusIn s.sessions) x.number (some .idle))
        (numbersOf s.sessions) s.batches s.reports) ∧
      ∀ data, m = .report data →
        Traffic ops net (Function.update (statusIn s.sessions) x.number (some .terminated))
          (numbersOf s.sessions) s.batches (s.reports ++ [data]) := by
  obtain ⟨hflow, hready⟩ := hc.going rfl
  obtain ⟨net', m, hreceive', hothers, hcases⟩ :=
    hflow.receive (status_of_handling hstanding).1 (hready x (List.mem_cons_self ..))
  obtain ⟨rfl, rfl⟩ := Prod.mk.inj (hreceive.symm.trans hreceive')
  refine ⟨m, rfl, ?_, ?_, ?_⟩
  · rw [due_iff]
    exact hcases.imp (fun h => ⟨h.1, h.2.1⟩) fun ⟨hstate, data, hm, _⟩ => ⟨hstate, data, hm⟩
  · exact arrivedAt_rest hstanding hothers fun y hy => hready y (List.mem_cons_of_mem x hy)
  · rcases hcases with ⟨-, rfl, hflow'⟩ | ⟨-, data, rfl, hflow'⟩
    · exact ⟨fun _ => hflow', fun _ h => absurd h (by simp)⟩
    · exact ⟨fun h => absurd h (by simp), fun data' h => Message.report.inj h ▸ hflow'⟩

/-- **Every action of a composed run keeps it composed.** -/
theorem composed_action (h : Action (schedule.surroundings ops) o c c') (hstanding : Standing c)
    (hc : Composed ops c) : Composed ops c' := by
  cases h with
  | allSpawned | noFiles | roundOver =>
    obtain ⟨hflow, -⟩ := hc.going rfl
    exact .of_flow hflow rfl (fun x hx => absurd hx List.not_mem_nil) rfl
  | notSpawned hq hspawn =>
    exact absurd (congrArg Prod.snd hspawn) (by simp [Schedule.surroundings])
  | @firstGone s number rest u u' cause hq hspawn hsend =>
    obtain ⟨-, net'', hsend', -⟩ := (hc.going rfl).1.spawnBatch
      (status_of_spawning hstanding) hspawn (s.queue.take o.batchSize)
    exact absurd (congrArg Prod.snd (hsend.symm.trans hsend')) (by simp)
  | @spawned s number rest u u' hq hspawn hsend =>
    have hbefore := status_of_spawning hstanding
    obtain ⟨-, net'', hsend', hflow⟩ := (hc.going rfl).1.spawnBatch hbefore hspawn
      (s.queue.take o.batchSize)
    obtain ⟨rfl, -⟩ := Prod.mk.inj (hsend.symm.trans hsend')
    refine .of_flow ?_ (List.filterMap_append ..) (fun x hx => absurd hx List.not_mem_nil) rfl
    have hidle : statusIn (s.sessions ++ [Session.ofNumber number]) number = some .idle := by
      rw [statusIn_append hbefore, Function.update_self]
    refine Traffic.of_change hidle (by intro; rfl) (by intro; rfl) ?_
    rw [statusIn_append hbefore, Function.update_idem, Session.numbersOf_append]
    exact hflow
  | @nobodyLeft s hlive =>
    obtain ⟨hflow, -⟩ := hc.going rfl
    refine ⟨hc.sound, fun h => absurd h (by simp), fun _ h => absurd h (by simp), fun _ => ?_⟩
    refine hflow.finished fun number state hstatus => ?_
    obtain ⟨x, hx, -, rfl⟩ := mem_of_statusIn hstatus
    have hended := List.filter_eq_nil_iff.1 hlive x hx
    simpa [Session.isLive] using hended
  | @cannotWait s live t u hlive hne ht hwait =>
    obtain ⟨rfl, -⟩ := Prod.mk.inj hwait
    exact ⟨(Network.later_pass schedule hc.sound).sound, fun h => absurd h (by simp),
      fun cause h => by simpa using h.symm, fun h => absurd h (by simp)⟩
  | @waited s live stalled t u ready hlive hne ht hwait hstalled =>
    have harrived : ∀ number ∈ ready, u.ArrivedAt number := fun number hready =>
      arrivedAt_of_wait hc.sound hwait hready
    obtain ⟨rfl, -⟩ := Prod.mk.inj hwait
    have hflow := (hc.going rfl).1.later (Network.later_pass schedule hc.sound)
    have hsessions : Traffic ops (s.surroundings.pass ops schedule)
        (statusIn (Session.calmAll stalled s.sessions))
        (numbersOf (Session.calmAll stalled s.sessions)) s.batches s.reports := by
      rw [statusIn_calmAll, Session.numbersOf_calmAll]
      exact hflow
    refine .of_flow hsessions ?_ (fun x hx => harrived x.number ?_) rfl
    · refine (List.filterMap_append ..).trans ?_
      rw [List.filterMap_cons_none rfl, filterMap_batch?_printed, List.append_nil]
      rfl
    · simpa using (List.mem_filter.1 hx).2
  -- what is received is a message and due, so the run does not fail here
  | unreadable hreceive =>
    obtain ⟨m, hm, -⟩ := hc.received hstanding hreceive
    exact absurd hm (by simp)
  | exited hreceive =>
    obtain ⟨m, hm, -⟩ := hc.received hstanding hreceive
    exact absurd hm (by simp)
  | illegal hreceive hdue =>
    obtain ⟨m, hm, hdue', -⟩ := hc.received hstanding hreceive
    exact absurd (Option.some.inj (Except.ok.inj hm) ▸ hdue') hdue
  | @nextGone s x rest u u' cause hstate hreceive hq hsend =>
    obtain ⟨m, hm, -, -, hnext, -⟩ := hc.received hstanding hreceive
    have hflow := hnext (Option.some.inj (Except.ok.inj hm)).symm
    obtain ⟨_, hsend', -⟩ := hflow.sendBatch schedule (Function.update_self ..)
      (s.queue.take o.batchSize)
    exact absurd (congrArg Prod.snd (hsend.symm.trans hsend')) (by simp)
  | @nextBatch s x rest u u' hstate hreceive hq hsend =>
    obtain ⟨m, hm, -, harrived, hnext, -⟩ := hc.received hstanding hreceive
    have hflow := hnext (Option.some.inj (Except.ok.inj hm)).symm
    obtain ⟨net'', hsend', hflow', hothers⟩ :=
      hflow.sendBatch schedule (Function.update_self ..) (s.queue.take o.batchSize)
    obtain ⟨rfl, -⟩ := Prod.mk.inj (hsend.symm.trans hsend')
    rw [Function.update_idem] at hflow'
    exact .of_flow (Traffic.of_change (status_of_handling hstanding).1 (by intro; rfl)
      (by intro; rfl) hflow') (List.filterMap_append ..)
      (arrivedAt_rest hstanding hothers harrived) rfl
  | @requestGone s x rest u u' cause hstate hreceive hq hsend =>
    obtain ⟨m, hm, -, -, hnext, -⟩ := hc.received hstanding hreceive
    have hflow := hnext (Option.some.inj (Except.ok.inj hm)).symm
    obtain ⟨_, hsend', -⟩ := hflow.sendRequest schedule (Function.update_self ..)
    exact absurd (congrArg Prod.snd (hsend.symm.trans hsend')) (by simp)
  | @request s x rest u u' hstate hreceive hq hsend =>
    obtain ⟨m, hm, -, harrived, hnext, -⟩ := hc.received hstanding hreceive
    have hflow := hnext (Option.some.inj (Except.ok.inj hm)).symm
    obtain ⟨net'', hsend', hflow', hothers⟩ :=
      hflow.sendRequest schedule (Function.update_self ..)
    obtain ⟨rfl, -⟩ := Prod.mk.inj (hsend.symm.trans hsend')
    rw [Function.update_idem] at hflow'
    exact .of_flow (Traffic.of_change (status_of_handling hstanding).1 (by intro; rfl)
      (by intro; rfl) hflow') ((List.filterMap_append ..).trans (List.append_nil _))
      (arrivedAt_rest hstanding hothers harrived) rfl
  | @report s x rest u data hstate hreceive =>
    obtain ⟨m, hm, -, harrived, -, hreport⟩ := hc.received hstanding hreceive
    have hflow := hreport data (Option.some.inj (Except.ok.inj hm)).symm
    have hflow' := hflow.terminate schedule (Function.update_self ..)
    refine .of_flow (Traffic.of_change (status_of_handling hstanding).1 (by intro; rfl)
      (by intro; rfl) hflow') ((List.filterMap_append ..).trans (List.append_nil _))
      (fun y hy => ?_) rfl
    exact (harrived y hy).terminate hflow.sound x.number
  | @terminated s x rest result =>
    have hbatches : (s.events ++ [Event.terminated x.number]).filterMap Event.batch? = s.batches :=
      (List.filterMap_append ..).trans (List.append_nil _)
    refine ⟨hc.sound.terminate x.number, fun h => absurd h (by simp [Phase.result?]), hc.failed,
      fun h => ?_⟩
    rw [RunState.batches, hbatches]
    exact hc.finished h
  | @closed s result =>
    exact ⟨hc.sound, fun h => absurd h (by simp [Phase.result?]), hc.failed, hc.finished⟩
  | concluded => exact hc

theorem composed_opened (o : Settings) (files : List String) (hb : 1 ≤ o.batchSize) :
    Composed ops ((RunState.ofFiles Network.empty files).opened o) := by
  rw [RunState.opened, if_neg (by omega)]
  refine .of_flow ⟨?_, List.nodup_nil, fun number => ?_, fun _ _ h => ?_, ?_, [], List.nodup_nil,
    fun number => ?_, rfl⟩ rfl (fun x hx => absurd hx List.not_mem_nil) rfl
  · exact fun number p hp =>
      absurd hp (by simp [RunState.announced, RunState.ofFiles, Network.empty])
  · simp [RunState.announced, RunState.ofFiles, numbersOf, Moment.status, statusIn]
  · exact absurd h (by simp [RunState.announced, RunState.ofFiles, Moment.status, statusIn])
  · exact .refl _
  · simp [RunState.announced, RunState.ofFiles, Moment.status, statusIn]

/-- **Composed runs stay composed.** -/
theorem composed_of_reaches {files : List String} {c : Moment Network} (hb : 1 ≤ o.batchSize)
    (h : Moment.Reaches (schedule.surroundings ops) o
      ((RunState.ofFiles Network.empty files).opened o) c) : Composed ops c :=
  h.of_action (composed_opened o files hb) fun _ _ hd haction =>
    composed_action haction (standing_of_reaches hd)

/-- The reports of a run that has finished, merged, are the report of a worker
that has been given all the files. -/
theorem merge_of_finished {files shuffled : List String} {c : Moment Network}
    (hshuffled : shuffled.Perm files) (hworkers : 1 ≤ o.workers) (hb : 1 ≤ o.batchSize)
    (h : Moment.Reaches (schedule.surroundings ops) o
      ((RunState.ofFiles Network.empty shuffled).opened o) c)
    (hresult : c.phase.result? = some (.ok ())) :
    Report.merge c.state.reports = Report.merge [.ofFindings (files.flatMap ops)] := by
  obtain ⟨chunks, hreports, hchunks⟩ := (composed_of_reaches hb h).finished hresult
  have hbatches := handed_of_finished hshuffled hworkers hb h hresult
  rw [Report.merge_perm hreports]
  exact Report.merge_ofFindings (hchunks.trans (hbatches.flatMap_right ops))

/-- **A composed run does not depend on the schedule.** Put the orchestrator
in front of workers that serve, each of which finds the same in a file
whoever it is given to. Whatever moves when, no worker breaks off, and has
answered what it has taken as serving would; the run fails only if the
primary cannot wait until the next deadline; and if it finishes, its merged
report is that of one worker with all the files in their order. -/
theorem merged_report_unscheduled (ops : Operations) (schedule : Schedule) (o : Settings)
    {files shuffled : List String} (hshuffled : shuffled.Perm files) (hworkers : 1 ≤ o.workers)
    (hb : 1 ≤ o.batchSize) :
    (∀ c, Moment.Reaches (schedule.surroundings ops) o
        ((RunState.ofFiles Network.empty shuffled).opened o) c →
      (∀ number p, c.state.surroundings.peers number = some p →
        p.failure = none ∧ ∀ input, Worker.Receives input p.taken →
          (Worker.serve (reporting ops) [] input).failure = none ∧
          (Worker.serve (reporting ops) [] input).state = p.findings) ∧
      (∀ cause, c.phase.result? = some (.error cause) → cause = .deadlineTooFar) ∧
      (c.phase.result? = some (.ok ()) →
        Report.merge c.state.reports = Report.merge [.ofFindings (files.flatMap ops)])) ∧
    ∀ n, (∀ cause,
        ((RunState.ofFiles Network.empty shuffled).run (schedule.surroundings ops) o n).1 =
          .failed cause → cause = .deadlineTooFar) ∧
      (((RunState.ofFiles Network.empty shuffled).run (schedule.surroundings ops) o n).1 =
          .finished →
        Report.merge ((RunState.ofFiles Network.empty shuffled).run
            (schedule.surroundings ops) o n).2.reports =
          Report.merge [.ofFindings (files.flatMap ops)]) := by
  refine ⟨fun c h => ⟨fun number p hp => ?_, (composed_of_reaches hb h).failed,
    merge_of_finished hshuffled hworkers hb h⟩, fun n => ⟨fun cause hcause => ?_, fun hn => ?_⟩⟩
  · obtain ⟨hfailure, -, replies, hserves⟩ := (composed_of_reaches hb h).sound number p hp
    refine ⟨hfailure, fun input hinput => ?_⟩
    obtain ⟨hnone, hstate, -⟩ := Worker.serve_of_receives hinput hserves
    exact ⟨hnone, hstate⟩
  · have hreaches := reaches_run (w := schedule.surroundings ops) (o := o) n
      (RunState.ofFiles Network.empty shuffled)
    refine (composed_of_reaches hb hreaches).failed cause ?_
    rw [hcause]
    rfl
  · have hreaches := reaches_run (w := schedule.surroundings ops) (o := o) n
      (RunState.ofFiles Network.empty shuffled)
    refine merge_of_finished hshuffled hworkers hb hreaches ?_
    rw [hn]
    rfl

/-- Everything of the first worker moves on before each call. -/
def Schedule.sample : Schedule where
  moves _ := [(1, .deliver), (1, .work), (1, .arrive)]
  clock _ := Double.zero false
  notices _ _ := true
  bears _ := true

/-- One worker reports the names of three files, which it gets in two batches. -/
theorem merged_report_unscheduled_sample :
    ((RunState.ofFiles Network.empty ["b", "a", "a"]).run
        (Schedule.sample.surroundings fun path => [.anyAlias path]) .sample 4).1 = .finished ∧
      Report.merge ((RunState.ofFiles Network.empty ["b", "a", "a"]).run
          (Schedule.sample.surroundings fun path => [.anyAlias path]) .sample 4).2.reports =
        Report.merge [.ofFindings (["a", "b", "a"].flatMap fun path => [.anyAlias path])] := by
  have hfinished : ((RunState.ofFiles Network.empty ["b", "a", "a"]).run
      (Schedule.sample.surroundings fun path => [.anyAlias path]) .sample 4).1 = .finished := by cbv
  have hshuffled : ["b", "a", "a"].Perm ["a", "b", "a"] := by decide
  have hmerged := merged_report_unscheduled (fun path => [.anyAlias path]) .sample .sample hshuffled
    (by decide) (by decide)
  exact ⟨hfinished, (hmerged.2 4).2 hfinished⟩

end Retype.Dispatch
