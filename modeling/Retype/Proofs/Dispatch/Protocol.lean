import Mathlib.Data.List.Count
import Retype.Proofs.Dispatch.Exchange
/-!
# The protocol of a session

What the primary and a worker say to each other follows one pattern: some
batches, each answered, then the request for the report, and the report. A
session leaves the pattern at most with its last turn, and then the run
fails. Whatever happens, everybody who is spawned is ended once and not
talked to after that.
-/

namespace Retype.Dispatch

variable {σ : Type} {w : Surroundings σ} {o : Settings}

/-! ## Transcripts -/

/-- A turn of a session: what is sent to the worker, and why it could not be,
or what is received. -/
inductive Turn where
  | sent (message : Message) (failure : Option Worker.Gone)
  | received (answer : Except ProtocolError (Option Message))

/-- The turn that a call is, and the number of the worker. -/
def Call.turn? : Call → Option (Nat × Turn)
  | .sent number m failure => some (number, .sent m failure)
  | .received number answer => some (number, .received answer)
  | .spawned .. => none
  | .terminated .. => none

/-- The turns of one session, in order. -/
def transcript (number : Nat) (log : List Call) : List Turn :=
  ((log.filterMap Call.turn?).filter (·.1 = number)).map (·.2)

/-- The transcript of a longer log goes on where the first one ends. -/
@[simp] theorem transcript_append (number : Nat) (log log' : List Call) :
    transcript number (log ++ log') = transcript number log ++ transcript number log' := by
  simp [transcript]

/-- An empty log has an empty transcript. -/
@[simp] theorem transcript_nil (number : Nat) : transcript number [] = [] := rfl

/-- A spawn is no turn of a session. -/
@[simp] theorem transcript_spawned (number m : Nat) (failure : Option String) (log : List Call) :
    transcript number (.spawned m failure :: log) = transcript number log := rfl

/-- Nor is an end. -/
@[simp] theorem transcript_terminated (number m : Nat) (log : List Call) :
    transcript number (.terminated m :: log) = transcript number log := rfl

/-- A message sent is a turn. -/
@[simp] theorem transcript_sent (number : Nat) (m : Message) (failure : Option Worker.Gone)
    (log : List Call) :
    transcript number (.sent number m failure :: log) =
      .sent m failure :: transcript number log := by
  simp [transcript, Call.turn?]

/-- A message received is a turn. -/
@[simp] theorem transcript_received (number : Nat)
    (answer : Except ProtocolError (Option Message)) (log : List Call) :
    transcript number (.received number answer :: log) =
      .received answer :: transcript number log := by
  simp [transcript, Call.turn?]

/-- Every turn in the log is in its session's transcript. -/
theorem mem_transcript {log : List Call} {call : Call} (hcall : call ∈ log) {number : Nat}
    {turn : Turn} (hturn : call.turn? = some (number, turn)) : turn ∈ transcript number log := by
  refine List.mem_map.2 ⟨(number, turn), List.mem_filter.2 ⟨?_, by simp⟩, rfl⟩
  exact List.mem_filterMap.2 ⟨call, hcall, hturn⟩

/-- What a turn is in the pattern of a session. -/
inductive Beat where
  | batch
  | next
  | request
  | report
  /-- A failure, or a message that no worker sends. -/
  | stray
  deriving DecidableEq

def Turn.beat : Turn → Beat
  | .sent (.batch _) none => .batch
  | .sent .reportRequest none => .request
  | .received (.ok (some .next)) => .next
  | .received (.ok (some (.report _))) => .report
  | _ => .stray

/-- The beats of some turns. -/
def beats (turns : List Turn) : List Beat := turns.map Turn.beat

/-- The beats of joined turns are joined. -/
@[simp] theorem beats_append (turns turns' : List Turn) :
    beats (turns ++ turns') = beats turns ++ beats turns' :=
  List.map_append

/-- Some batches, each answered. -/
def answered : Nat → List Beat
  | 0 => []
  | k + 1 => .batch :: .next :: answered k

/-- A whole session with a number of batches. -/
def pattern (k : Nat) : List Beat := answered k ++ [.request, .report]

/-- One more batch is answered after the others. -/
theorem answered_succ (k : Nat) : answered (k + 1) = answered k ++ [.batch, .next] := by
  induction k with
  | zero => rfl
  | succ k ih => exact congrArg (fun said => Beat.batch :: Beat.next :: said) ih

/-- **Orderly** turns are the beginning of a session. -/
def Orderly (turns : List Turn) : Prop := ∃ k, 1 ≤ k ∧ beats turns <+: pattern k

/-- Turns that begin like orderly ones are orderly. -/
theorem Orderly.of_prefix {turns turns' : List Turn} (h : Orderly turns') (hp : turns <+: turns') :
    Orderly turns := by
  obtain ⟨k, hk, hpattern⟩ := h
  exact ⟨k, hk, (hp.map Turn.beat).trans hpattern⟩

/-- **The fatal turns** after some others: a sending that fails, an output
that is closed or cannot be read, and a message that is not due. -/
inductive Fatal (before : List Turn) : Turn → Prop
  | gone {m : Message} {cause : Worker.Gone} : Fatal before (.sent m (some cause))
  | unreadable {cause : ProtocolError} : Fatal before (.received (.error cause))
  | exited : Fatal before (.received (.ok none))
  | illegal {m : Message} (h : ¬ Orderly (before ++ [.received (.ok (some m))])) :
      Fatal before (.received (.ok (some m)))

/-- Orderly turns and then a fatal one. -/
def Broken (turns : List Turn) : Prop :=
  ∃ before turn, turns = before ++ [turn] ∧ Orderly before ∧ Fatal before turn

/-! ## What has been said, by where a session stands -/

/-- What has been said in a session that stands somewhere. -/
def SessionState.Told : SessionState → List Beat → Prop
  | .idle, _ => False
  | .awaitingBatchResult, said => ∃ k, said = answered k ++ [.batch]
  | .awaitingReport, said => ∃ k, said = answered (k + 1) ++ [.request]
  | .terminated, said => ∃ k, said = pattern (k + 1)

/-- What has been said to somebody, who may not be there yet. -/
def Follows : Option SessionState → List Turn → Prop
  | none, turns => turns = []
  | some state, turns => state.Told (beats turns)

/-- Turns that follow the pattern are orderly. -/
theorem Follows.orderly {status : Option SessionState} {turns : List Turn}
    (h : Follows status turns) : Orderly turns := by
  rcases status with _ | _ | _ | _ | _
  · rw [Follows] at h
    exact ⟨1, Nat.le_refl 1, h ▸ List.nil_prefix⟩
  · exact h.elim
  · obtain ⟨k, hk⟩ := h
    refine ⟨k + 1, by omega, hk ▸ ?_⟩
    rw [pattern, answered_succ]
    exact ⟨[.next, .request, .report], by simp⟩
  · obtain ⟨k, hk⟩ := h
    exact ⟨k + 1, by omega, hk ▸ ⟨[.report], by simp [pattern]⟩⟩
  · obtain ⟨k, hk⟩ := h
    exact ⟨k + 1, by omega, hk ▸ List.prefix_rfl⟩

/-- Answered batches come first in a pattern. -/
theorem prefix_of_answered {k j : Nat} {said : List Beat} (h : answered k ++ said <+: pattern j) :
    ∃ i, said <+: pattern i := by
  induction k generalizing j with
  | zero => exact ⟨j, h⟩
  | succ k ih =>
    cases j with
    | zero => simp [answered, pattern] at h
    | succ j =>
      refine ih (j := j) ?_
      simpa [answered, pattern] using h

/-- A message that is not due is not orderly. -/
theorem not_orderly_of_not_due {state : SessionState} {turns : List Turn} {m : Message}
    (h : state.Told (beats turns)) (hlive : state ≠ .terminated) (hdue : ¬ Due state m) :
    ¬ Orderly (turns ++ [.received (.ok (some m))]) := by
  rintro ⟨j, -, hj⟩
  rw [beats_append] at hj
  rcases state with _ | _ | _ | _
  · exact h
  -- what was answered cannot tell, and what comes after it allows for one message
  · obtain ⟨k, hk⟩ := h
    rw [hk, List.append_assoc] at hj
    obtain ⟨i, hi⟩ := prefix_of_answered hj
    cases i <;> cases m <;> simp_all [pattern, answered, beats, Turn.beat, Due]
  · obtain ⟨k, hk⟩ := h
    rw [hk, List.append_assoc] at hj
    obtain ⟨i, hi⟩ := prefix_of_answered hj
    cases i <;> cases m <;> simp_all [pattern, answered, beats, Turn.beat, Due]
  · exact hlive rfl

section
variable {number : Nat} {queue : List String} {before after : Option SessionState}
variable {calls : List Call} {reports : List Report} {result : Outcome} {turns : List Turn}

/-- An exchange is with one worker. -/
theorem Exchange.transcript_of_ne {result' : Outcome}
    (h : Exchange number queue before after calls reports result result') {m : Nat}
    (hm : m ≠ number) : transcript m calls = [] := by
  cases h <;> simp [transcript, Call.turn?, hm.symm]

/-- While a run goes on there are exchanges; then everybody who lives is ended. -/
theorem Exchange.result_cases {result' : Outcome}
    (h : Exchange number queue before after calls reports result result') :
    (result = none ∧ result' ≠ some (.ok ())) ∨
      (result = result' ∧ result ≠ none ∧ transcript number calls = [] ∧
        ∃ state, before = some state ∧ state ≠ .terminated) := by
  cases h with
  | ended hlive => exact .inr ⟨rfl, by simp, rfl, _, rfl, hlive⟩
  | notSpawned | firstGone | spawned | unreadable | exited | illegal | nextGone | nextBatch
    | requestGone | request | report => exact .inl ⟨rfl, by simp⟩

/-- An exchange after which the run goes on follows the pattern. -/
theorem Exchange.follows (h : Exchange number queue before after calls reports result none)
    (hturns : Follows before turns) : Follows after (turns ++ transcript number calls) := by
  cases h with
  | spawned =>
    rw [Follows] at hturns
    exact ⟨0, by rw [hturns]; simp [beats, Turn.beat, answered]⟩
  | nextBatch =>
    obtain ⟨k, hk⟩ := hturns
    refine ⟨k + 1, ?_⟩
    rw [beats_append, hk, answered_succ]
    simp [beats, Turn.beat]
  | request =>
    obtain ⟨k, hk⟩ := hturns
    refine ⟨k, ?_⟩
    rw [beats_append, hk, answered_succ]
    simp [beats, Turn.beat]
  | report =>
    obtain ⟨k, hk⟩ := hturns
    refine ⟨k, ?_⟩
    rw [beats_append, hk, pattern]
    simp [beats, Turn.beat]

/-- The answer to a batch is in order. -/
theorem orderly_next {k : Nat} (h : beats turns = answered k ++ [.batch]) :
    Orderly (turns ++ [.received (.ok (some .next))]) := by
  refine ⟨k + 1, by omega, [.request, .report], ?_⟩
  rw [beats_append, h, pattern, answered_succ]
  simp [beats, Turn.beat]

/-- **An exchange after which the run fails** ends with a fatal turn, unless
nothing was said. -/
theorem Exchange.broken {cause : DispatchError}
    (h : Exchange number queue before after calls reports none (some (.error cause)))
    (hturns : Follows before turns) :
    transcript number calls = [] ∨ Broken (turns ++ transcript number calls) := by
  cases h with
  | notSpawned => exact .inl rfl
  | @firstGone batch cause hq =>
    rw [Follows] at hturns
    refine .inr ⟨[], .sent (.batch batch) (some cause), ?_, ⟨1, by omega, List.nil_prefix⟩, .gone⟩
    rw [hturns]
    simp
  | @unreadable state cause hlive =>
    refine .inr ⟨turns, .received (.error cause), ?_, hturns.orderly, .unreadable⟩
    simp
  | exited =>
    refine .inr ⟨turns, .received (.ok none), ?_, hturns.orderly, .exited⟩
    simp
  | @illegal state m hlive hdue =>
    refine .inr ⟨turns, .received (.ok (some m)), ?_, hturns.orderly,
      .illegal (not_orderly_of_not_due hturns hlive hdue)⟩
    simp
  | @nextGone batch cause hq =>
    obtain ⟨k, hk⟩ := hturns
    refine .inr ⟨_, .sent (.batch batch) (some cause), ?_, orderly_next hk, .gone⟩
    simp
  | @requestGone cause hq =>
    obtain ⟨k, hk⟩ := hturns
    refine .inr ⟨_, .sent .reportRequest (some cause), ?_, orderly_next hk, .gone⟩
    simp

end

/-! ## The invariant of transcripts -/

/-- **Every session follows the pattern** while the run goes on, and when it
finishes nobody is left. Once the run has failed, some sessions may have
broken off. -/
structure Followed (c : Moment (σ × List Call)) : Prop where
  going : c.phase.result? = none → ∀ number, Follows (c.status number) (transcript number c.log)
  finished : c.phase.result? = some (.ok ()) → ∀ number,
    Follows (c.status number) (transcript number c.log) ∧
      ∀ state, c.status number = some state → state = .terminated
  failed : ∀ cause, c.phase.result? = some (.error cause) → ∀ number,
    Orderly (transcript number c.log) ∨ Broken (transcript number c.log)

/-- An action that calls nobody keeps every session on the pattern. -/
theorem Quiet.followed {c c' : Moment (σ × List Call)} (h : Quiet c c') (hc : Followed c) :
    Followed c' := by
  rcases h.result with hresult | ⟨hresult, ⟨cause, hresult'⟩ | ⟨hresult', hended⟩⟩
  · refine ⟨?_, ?_, ?_⟩
    · rw [hresult, h.log, h.status]
      exact hc.going
    · rw [hresult, h.log, h.status]
      exact hc.finished
    · rw [hresult, h.log]
      exact hc.failed
  · refine ⟨fun h => ?_, fun h => ?_, fun _ _ number => .inl ?_⟩
    · exact absurd (h.symm.trans hresult') (by simp)
    · exact absurd (h.symm.trans hresult') (by simp)
    · rw [h.log]
      exact (hc.going hresult number).orderly
  · refine ⟨fun h => ?_, fun _ number => ?_, fun _ h => ?_⟩
    · exact absurd (h.symm.trans hresult') (by simp)
    · rw [h.log, h.status]
      exact ⟨hc.going hresult number, hended number⟩
    · exact absurd (h.symm.trans hresult') (by simp)

/-- So does an exchange with one worker. -/
theorem Exchanged.followed {c c' : Moment (σ × List Call)} {number : Nat}
    {before after : Option SessionState} {calls : List Call} {reports : List Report}
    (h : Exchanged c c' number before after calls reports) (hc : Followed c) : Followed c' := by
  have htranscript : ∀ m, transcript m c'.log = transcript m c.log ++ transcript m calls :=
    fun m => by rw [h.log, transcript_append]
  have hothers : ∀ m, m ≠ number → transcript m c'.log = transcript m c.log := fun m hm => by
    rw [htranscript, h.exchange.transcript_of_ne hm, List.append_nil]
  have hsame : ∀ m, m ≠ number → c'.status m = c.status m := fun m hm => by
    rw [h.after, Function.update_of_ne hm]
  have hexchange := h.exchange
  rcases h.exchange.result_cases with ⟨hgoing, hne⟩ | ⟨hresult, hsome, hnil, state, rfl, hlive⟩
  -- the run goes on: the one worker follows the pattern or breaks off, the others are as before
  · have hfollows := hc.going hgoing
    refine ⟨fun hresult m => ?_, fun hresult => absurd hresult hne, fun cause hresult m => ?_⟩
    · by_cases hm : m = number
      · subst hm
        rw [hresult] at hexchange
        rw [htranscript, h.after, Function.update_self]
        exact hexchange.follows (h.before ▸ hfollows m)
      · rw [hothers m hm, hsame m hm]
        exact hfollows m
    · by_cases hm : m = number
      · subst hm
        rw [hgoing, hresult] at hexchange
        rw [htranscript]
        rcases hexchange.broken (h.before ▸ hfollows m) with hnil | hbroken
        · rw [hnil, List.append_nil]
          exact .inl (hfollows m).orderly
        · exact .inr hbroken
      · rw [hothers m hm]
        exact .inl (hfollows m).orderly
  -- the run has failed: ending somebody says nothing
  · have hquiet : ∀ m, transcript m c'.log = transcript m c.log := fun m => by
      by_cases hm : m = number
      · rw [htranscript, hm, hnil, List.append_nil]
      · exact hothers m hm
    refine ⟨fun h => absurd (hresult.trans h) hsome, fun h' m => ?_, fun cause h' m => ?_⟩
    · exact absurd ((hc.finished (hresult.trans h') number).2 state h.before) hlive
    · rw [hquiet]
      exact hc.failed cause (hresult.trans h') m

/-- Every session is on the pattern when a run opens. -/
theorem followed_opened (o : Settings) (u : σ) (files : List String) :
    Followed ((RunState.ofFiles (u, []) files).opened o) := by
  rw [RunState.opened]
  split
  · refine ⟨fun h => absurd h (by simp), fun h => absurd h (by simp), fun _ _ number => .inl ?_⟩
    exact ⟨1, Nat.le_refl 1, List.nil_prefix⟩
  · exact ⟨fun _ _ => rfl, fun h => absurd h (by simp [Phase.result?]),
      fun _ h => absurd h (by simp [Phase.result?])⟩

/-- **Every session follows the pattern, always.** -/
theorem followed_of_reaches {u : σ} {files : List String} {c : Moment (σ × List Call)}
    (h : Moment.Reaches w.recorded o ((RunState.ofFiles (u, []) files).opened o) c) :
    Followed c := by
  refine h.of_action (followed_opened o u files) fun d d' hd haction hP => ?_
  rcases exchange_action haction (standing_of_reaches hd) with hquiet | ⟨_, _, _, _, _, hexchanged⟩
  · exact hquiet.followed hP
  · exact hexchanged.followed hP

/-! ## Everybody is ended once -/

/-- The workers that were spawned, in order. -/
def spawnedIn (log : List Call) : List Nat :=
  log.filterMap fun
    | .spawned number none => some number
    | _ => none

/-- The workers that were ended, in order. -/
def terminatedIn (log : List Call) : List Nat :=
  log.filterMap fun
    | .terminated number => some number
    | _ => none

/-- Who was spawned in a longer log was in either part. -/
@[simp] theorem spawnedIn_append (log log' : List Call) :
    spawnedIn (log ++ log') = spawnedIn log ++ spawnedIn log' :=
  List.filterMap_append ..

/-- So it is with who was ended. -/
@[simp] theorem terminatedIn_append (log log' : List Call) :
    terminatedIn (log ++ log') = terminatedIn log ++ terminatedIn log' :=
  List.filterMap_append ..

/-- The log says who was ended. -/
theorem mem_terminatedIn {log : List Call} {number : Nat} :
    .terminated number ∈ log ↔ number ∈ terminatedIn log := by
  rw [terminatedIn, List.mem_filterMap]
  refine ⟨fun h => ⟨_, h, rfl⟩, ?_⟩
  rintro ⟨call, hcall, hnumber⟩
  cases call <;> simp_all

/-- What may come after a call: nobody is talked to who was ended, and nobody
is sent a batch when the report of anybody was asked for. -/
def MayFollow (a b : Call) : Prop :=
  (∀ number, a = .terminated number → ∀ turn, b.turn? ≠ some (number, turn)) ∧
    ∀ number failure, a = .sent number .reportRequest failure →
      ∀ number' files failure', b ≠ .sent number' (.batch files) failure'

/-- **Everybody is accounted for**: who was spawned has a session, and who was
ended has one that has ended, once. -/
structure Accounted (c : Moment (σ × List Call)) : Prop where
  spawned : ∀ number, number ∈ spawnedIn c.log ↔ c.status number ≠ none
  nodup_spawned : (spawnedIn c.log).Nodup
  terminated : ∀ number, number ∈ terminatedIn c.log ↔ c.status number = some .terminated
  nodup_terminated : (terminatedIn c.log).Nodup
  requested : ∀ number failure, .sent number .reportRequest failure ∈ c.log → c.state.queue = []
  order : c.log.Pairwise MayFollow

section
variable {number : Nat} {queue : List String} {before after : Option SessionState}
variable {calls : List Call} {reports : List Report} {result result' : Outcome}

/-- Whom an exchange spawns. -/
theorem Exchange.spawns (h : Exchange number queue before after calls reports result result') :
    (spawnedIn calls = [] ∧ (before = none ↔ after = none)) ∨
      (spawnedIn calls = [number] ∧ before = none ∧ after ≠ none) := by
  cases h <;> simp [spawnedIn]

/-- Whom an exchange ends. -/
theorem Exchange.terminates
    (h : Exchange number queue before after calls reports result result') :
    (terminatedIn calls = [] ∧ before ≠ some .terminated ∧ after ≠ some .terminated) ∨
      (terminatedIn calls = [number] ∧ before ≠ some .terminated ∧ after = some .terminated) := by
  cases h <;> simp_all [terminatedIn]

/-- Nobody who has been ended has an exchange. -/
theorem Exchange.before_ne (h : Exchange number queue before after calls reports result result') :
    before ≠ some .terminated := by
  cases h <;> simp_all

/-- Whom an exchange talks to. -/
theorem Exchange.talks (h : Exchange number queue before after calls reports result result')
    {call : Call} (hcall : call ∈ calls) {m : Nat} {turn : Turn}
    (hturn : call.turn? = some (m, turn)) : m = number := by
  by_contra hne
  have hmem := mem_transcript hcall hturn
  rw [h.transcript_of_ne hne] at hmem
  exact List.not_mem_nil hmem

/-- The report is asked for when no files wait. -/
theorem Exchange.requests (h : Exchange number queue before after calls reports result result')
    {m : Nat} {failure : Option Worker.Gone} (hcall : .sent m .reportRequest failure ∈ calls) :
    queue = [] := by
  cases h <;> simp_all

/-- Batches are sent while files wait. -/
theorem Exchange.hands (h : Exchange number queue before after calls reports result result')
    {m : Nat} {files : List String} {failure : Option Worker.Gone}
    (hcall : .sent m (.batch files) failure ∈ calls) : queue ≠ [] := by
  cases h <;> simp_all

/-- The calls of an exchange are in order. -/
theorem Exchange.order (h : Exchange number queue before after calls reports result result') :
    calls.Pairwise MayFollow := by
  cases h <;> simp [MayFollow]

end

/-- An action that calls nobody keeps everybody accounted for. -/
theorem Quiet.accounted {c c' : Moment (σ × List Call)} (h : Quiet c c') (hc : Accounted c) :
    Accounted c' := by
  refine ⟨?_, ?_, ?_, ?_, ?_, ?_⟩
  · rw [h.log, h.status]
    exact hc.spawned
  · rw [h.log]
    exact hc.nodup_spawned
  · rw [h.log, h.status]
    exact hc.terminated
  · rw [h.log]
    exact hc.nodup_terminated
  · rw [h.log, h.queue]
    exact hc.requested
  · rw [h.log]
    exact hc.order

/-- So does an exchange with one worker. -/
theorem Exchanged.accounted {c c' : Moment (σ × List Call)} {number : Nat}
    {before after : Option SessionState} {calls : List Call} {reports : List Report}
    (h : Exchanged c c' number before after calls reports) (hc : Accounted c) : Accounted c' := by
  have hstatus : ∀ m, m ≠ number → c'.status m = c.status m := fun m hm => by
    rw [h.after, Function.update_of_ne hm]
  have hafter : c'.status number = after := by rw [h.after, Function.update_self]
  refine ⟨fun m => ?_, ?_, fun m => ?_, ?_, fun m failure hmem => ?_, ?_⟩
  · rw [h.log, spawnedIn_append, List.mem_append, hc.spawned]
    rcases h.exchange.spawns with ⟨hnil, hiff⟩ | ⟨hone, hnone, hsome⟩
    · by_cases hm : m = number
      · rw [hm, hafter, hnil, h.before, ne_eq, hiff]
        simp
      · simp [hnil, hstatus m hm]
    · by_cases hm : m = number
      · rw [hm, hafter, hone]
        simp [hsome]
      · simp [hone, hm, hstatus m hm]
  · rw [h.log, spawnedIn_append]
    rcases h.exchange.spawns with ⟨hnil, -⟩ | ⟨hone, hnone, -⟩
    · rw [hnil, List.append_nil]
      exact hc.nodup_spawned
    · rw [hone]
      refine List.nodup_append'.2 ⟨hc.nodup_spawned, List.nodup_singleton _, ?_⟩
      rw [List.disjoint_singleton, hc.spawned, h.before, hnone]
      simp
  · rw [h.log, terminatedIn_append, List.mem_append, hc.terminated]
    rcases h.exchange.terminates with ⟨hnil, hne, hne'⟩ | ⟨hone, hne, hended⟩
    · by_cases hm : m = number
      · simp [hm, hafter, hnil, h.before, hne, hne']
      · simp [hnil, hstatus m hm]
    · by_cases hm : m = number
      · simp [hm, hafter, hone, hended]
      · simp [hone, hm, hstatus m hm]
  · rw [h.log, terminatedIn_append]
    rcases h.exchange.terminates with ⟨hnil, -⟩ | ⟨hone, hne, -⟩
    · rw [hnil, List.append_nil]
      exact hc.nodup_terminated
    · rw [hone]
      refine List.nodup_append'.2 ⟨hc.nodup_terminated, List.nodup_singleton _, ?_⟩
      rw [List.disjoint_singleton, hc.terminated, h.before]
      exact hne
  · refine h.queue ?_
    rw [h.log, List.mem_append] at hmem
    rcases hmem with hmem | hmem
    · exact hc.requested m failure hmem
    · exact h.exchange.requests hmem
  · rw [h.log, List.pairwise_append]
    refine ⟨hc.order, h.exchange.order, fun a ha b hb => ⟨?_, ?_⟩⟩
    -- who was ended before stands where nobody has an exchange from
    · rintro m rfl turn hturn
      have hended := (hc.terminated m).1 (mem_terminatedIn.1 ha)
      rw [h.exchange.talks hb hturn, h.before] at hended
      exact h.exchange.before_ne hended
    -- a report was asked for, so no files wait and no batch is sent
    · rintro m failure rfl m' files failure' rfl
      exact h.exchange.hands hb (hc.requested m failure ha)

/-- Where nobody has been called everybody is accounted for. -/
theorem Accounted.of_nil {c : Moment (σ × List Call)} (hlog : c.log = [])
    (hsessions : c.state.sessions = []) : Accounted c := by
  have hstatus : ∀ number, c.status number = none := fun number => by
    rw [Moment.status, hsessions]
    rfl
  refine ⟨fun number => ?_, ?_, fun number => ?_, ?_, fun _ _ h => ?_, ?_⟩
  · simp [hlog, hstatus, spawnedIn]
  · rw [hlog]
    exact List.nodup_nil
  · simp [hlog, hstatus, terminatedIn]
  · rw [hlog]
    exact List.nodup_nil
  · rw [hlog] at h
    exact absurd h List.not_mem_nil
  · rw [hlog]
    exact .nil

/-- Everybody is accounted for when a run opens. -/
theorem accounted_opened (o : Settings) (u : σ) (files : List String) :
    Accounted ((RunState.ofFiles (u, []) files).opened o) := by
  rw [RunState.opened]
  split
  · exact .of_nil rfl rfl
  · exact .of_nil rfl rfl

/-- **Everybody is accounted for, always.** -/
theorem accounted_of_reaches {u : σ} {files : List String} {c : Moment (σ × List Call)}
    (h : Moment.Reaches w.recorded o ((RunState.ofFiles (u, []) files).opened o) c) :
    Accounted c := by
  refine h.of_action (accounted_opened o u files) fun d d' hd haction hP => ?_
  rcases exchange_action haction (standing_of_reaches hd) with hquiet | ⟨_, _, _, _, _, hexchanged⟩
  · exact hquiet.accounted hP
  · exact hexchanged.accounted hP

/-! ## The end of a run -/

/-- The reports that were received, and from whom. -/
def reportsIn (log : List Call) : List (Nat × Report) :=
  log.filterMap fun
    | .received number (.ok (some (.report data))) => some (number, data)
    | _ => none

/-- Whose turns have a beat, one entry for each such turn. -/
def speakers (beat : Beat) (log : List Call) : List Nat :=
  ((log.filterMap Call.turn?).filter (·.2.beat = beat)).map (·.1)

/-- The turns with a beat are those of all the sessions. -/
theorem count_speakers (beat : Beat) (number : Nat) (log : List Call) :
    (speakers beat log).count number = (beats (transcript number log)).count beat := by
  rw [speakers, transcript, beats]
  induction log.filterMap Call.turn? with
  | nil => rfl
  | cons p turns ih =>
    rcases p with ⟨m, turn⟩
    by_cases hm : m = number <;> by_cases hbeat : turn.beat = beat <;>
      simp_all

/-- Who sends a report. -/
theorem speakers_report (log : List Call) :
    speakers .report log = (reportsIn log).map (·.1) := by
  induction log with
  | nil => rfl
  | cons call log ih =>
    rw [speakers, reportsIn] at *
    rcases call with _ | ⟨_, _ | _ | _ | _, _ | _⟩ | ⟨_, _ | _ | _ | _ | _ | _⟩ | _ <;>
      simp_all [List.filterMap_cons, Call.turn?, Turn.beat]

/-- Some batches, each answered, are so many batches and so many requests for more. -/
theorem count_answered (k : Nat) :
    (answered k).count .batch = k ∧ (answered k).count .next = k ∧
      (answered k).count .report = 0 := by
  induction k with
  | zero => exact ⟨rfl, rfl, rfl⟩
  | succ k ih => simp [answered, ih]

/-- The reports that were received are the reports of the run, unless it has
failed. -/
def Reported (c : Moment (σ × List Call)) : Prop :=
  (∀ cause, c.phase.result? ≠ some (.error cause)) →
    (reportsIn c.log).map (·.2) = c.state.reports

/-- The reports an exchange receives are those it merges, unless it fails. -/
theorem Exchange.reports_eq {number : Nat} {queue : List String}
    {before after : Option SessionState} {calls : List Call} {reports : List Report}
    {result result' : Outcome}
    (h : Exchange number queue before after calls reports result result')
    (hresult : ∀ cause, result' ≠ some (.error cause)) :
    (reportsIn calls).map (·.2) = reports := by
  cases h with
  | notSpawned | firstGone | unreadable | exited | illegal | nextGone | requestGone =>
    exact absurd rfl (hresult _)
  | spawned | nextBatch | request | report | ended => rfl

/-- **The reports of a run are those that were received**, at every moment that is
reached. -/
theorem reported_of_reaches {u : σ} {files : List String} {c : Moment (σ × List Call)}
    (h : Moment.Reaches w.recorded o ((RunState.ofFiles (u, []) files).opened o) c) :
    Reported c := by
  refine h.of_action (P := Reported) ?_ fun d d' hd haction hP hresult => ?_
  · rw [RunState.opened]
    split
    · exact fun _ => rfl
    · exact fun _ => rfl
  · rcases exchange_action haction (standing_of_reaches hd) with
      hquiet | ⟨_, _, _, _, _, hexchanged⟩
    · rw [hquiet.log, hquiet.reports]
      refine hP fun cause hcause => ?_
      rcases hquiet.result with hsame | ⟨hnone, -⟩
      · exact hresult cause (hsame.trans hcause)
      · exact absurd (hnone.symm.trans hcause) (by simp)
    · rw [hexchanged.log, hexchanged.reports, reportsIn, List.filterMap_append, List.map_append,
        ← hexchanged.exchange.reports_eq hresult]
      refine congrArg (· ++ _) (hP fun cause hcause => ?_)
      rcases hexchanged.exchange.result_cases with ⟨hnone, -⟩ | ⟨hsame, -⟩
      · exact absurd (hnone.symm.trans hcause) (by simp)
      · exact hresult cause (hsame.symm.trans hcause)

/-- A part of a transcript is orderly, or it is the whole and broken. -/
theorem Broken.of_prefix {turns turns' : List Turn} (h : Broken turns') (hp : turns <+: turns') :
    Orderly turns ∨ Broken turns := by
  obtain ⟨before, turn, rfl, horderly, hfatal⟩ := h
  rcases List.prefix_concat_iff.1 hp with rfl | hp
  · exact .inr ⟨before, turn, rfl, horderly, hfatal⟩
  · exact .inl (horderly.of_prefix hp)

/-- Everybody who was spawned has been ended when a run is over. -/
theorem perm_terminatedIn {u : σ} {files : List String} {c : Moment (σ × List Call)}
    (h : Moment.Reaches w.recorded o ((RunState.ofFiles (u, []) files).opened o) c)
    {result : Except DispatchError Unit} (hconcluded : c.phase = .concluded result) :
    (terminatedIn c.log).Perm (spawnedIn c.log) := by
  have haccounted := accounted_of_reaches h
  have hstanding := standing_of_reaches h
  rcases c with ⟨phase, s⟩
  subst hconcluded
  rw [List.perm_ext_iff_of_nodup haccounted.nodup_terminated haccounted.nodup_spawned]
  intro number
  rw [haccounted.terminated, haccounted.spawned]
  refine ⟨fun h => by simp [h], fun h => ?_⟩
  obtain ⟨state, hstate⟩ := Option.ne_none_iff_exists'.1 h
  obtain ⟨x, hx, -, rfl⟩ := mem_of_statusIn hstate
  rw [hstate]
  have hended := hstanding.2 x hx
  simpa [Session.isLive] using hended

/-- Everybody who has a session when a run finishes has said the whole pattern. -/
theorem counts_of_finished {u : σ} {files : List String} {c : Moment (σ × List Call)}
    (h : Moment.Reaches w.recorded o ((RunState.ofFiles (u, []) files).opened o) c)
    (hresult : c.phase.result? = some (.ok ())) (number : Nat) :
    (speakers .next c.log).count number = (speakers .batch c.log).count number ∧
      (speakers .report c.log).count number = (numbersOf c.state.sessions).count number := by
  have hnodup := (standing_of_reaches h).nodup
  rw [count_speakers, count_speakers, count_speakers]
  obtain ⟨hfollows, hended⟩ := (followed_of_reaches h).finished hresult number
  rcases hstatus : c.status number with _ | state
  · rw [hstatus, Follows] at hfollows
    rw [List.count_eq_zero_of_not_mem (statusIn_eq_none.1 hstatus), hfollows]
    exact ⟨rfl, rfl⟩
  · obtain rfl := hended state hstatus
    rw [hstatus] at hfollows
    obtain ⟨k, hk⟩ := hfollows
    obtain ⟨x, hx, rfl, -⟩ := mem_of_statusIn hstatus
    rw [List.count_eq_one_of_mem hnodup (Session.mem_numbersOf hx), hk]
    simp [pattern, count_answered]

/-- **The protocol of the sessions.** Let the workers send what they like and
let any spawning, sending or receiving fail. At every moment the turns of a
session are the beginning of the pattern, or they have left it with their
last turn and the run has failed. The report is asked for when no files wait,
and no batch is sent after that. When a run is over, everybody who was
spawned has been ended once and was not talked to after that. A run that
finishes has one report from each session, and as many answers as batches.
These are the runs of the surroundings, with what is answered written down. -/
theorem sessions_follow_pattern (w : Surroundings σ) (o : Settings) (u : σ)
    (files : List String) :
    (∀ c, Moment.Reaches w.recorded o ((RunState.ofFiles (u, []) files).opened o) c →
      (∀ number log, log <+: c.log → Orderly (transcript number log) ∨
        (Broken (transcript number log) ∧ ∃ cause, c.phase.result? = some (.error cause))) ∧
      (∀ number failure,
        .sent number .reportRequest failure ∈ (c.next w.recorded o).log.drop c.log.length →
          c.state.queue = []) ∧
      c.log.Pairwise MayFollow ∧
      (∀ result, c.phase = .concluded result →
        (spawnedIn c.log).Nodup ∧ (terminatedIn c.log).Perm (spawnedIn c.log)) ∧
      (c.phase = .concluded (.ok ()) →
        c.state.reports.length = c.state.sessions.length ∧
        (reportsIn c.log).map (·.2) = c.state.reports ∧
        ((reportsIn c.log).map (·.1)).Perm (numbersOf c.state.sessions) ∧
        (speakers .next c.log).length = (speakers .batch c.log).length)) ∧
    ∀ n, ∃ c : Moment (σ × List Call),
      Moment.Reaches w.recorded o ((RunState.ofFiles (u, []) files).opened o) c ∧
      c.phase = ((RunState.ofFiles u files).run w o n).1.phase ∧
      c.state.plain = ((RunState.ofFiles u files).run w o n).2 := by
  refine ⟨fun c h => ⟨fun number log hlog => ?_, fun number failure hmem => ?_,
    (accounted_of_reaches h).order, fun result hconcluded =>
      ⟨(accounted_of_reaches h).nodup_spawned, perm_terminatedIn h hconcluded⟩,
    fun hconcluded => ?_⟩, fun n => ?_⟩
  · have hprefix : transcript number log <+: transcript number c.log := by
      obtain ⟨rest, hrest⟩ := hlog
      exact ⟨transcript number rest, by rw [← transcript_append, hrest]⟩
    rcases hresult : c.phase.result? with _ | _ | cause
    · exact .inl (((followed_of_reaches h).going hresult number).orderly.of_prefix hprefix)
    · rcases (followed_of_reaches h).failed _ hresult number with horderly | hbroken
      · exact .inl (horderly.of_prefix hprefix)
      · exact (hbroken.of_prefix hprefix).imp_right fun h => ⟨h, _, rfl⟩
    · exact .inl (((followed_of_reaches h).finished hresult number).1.orderly.of_prefix hprefix)
  · rcases exchange_action (action_next c) (standing_of_reaches h) with
      hquiet | ⟨_, _, _, _, _, hexchanged⟩
    · rw [hquiet.log, List.drop_length] at hmem
      exact absurd hmem List.not_mem_nil
    · rw [hexchanged.log, List.drop_left] at hmem
      exact hexchanged.exchange.requests hmem
  · have hresult : c.phase.result? = some (.ok ()) := by
      rw [hconcluded]
      rfl
    have hreports : (reportsIn c.log).map (·.2) = c.state.reports :=
      reported_of_reaches h fun cause hcause => absurd (hresult.symm.trans hcause) (by simp)
    have hnumbers : ((reportsIn c.log).map (·.1)).Perm (numbersOf c.state.sessions) := by
      rw [← speakers_report, List.perm_iff_count]
      exact fun number => (counts_of_finished h hresult number).2
    have hanswers : (speakers .next c.log).Perm (speakers .batch c.log) :=
      List.perm_iff_count.2 fun number => (counts_of_finished h hresult number).1
    refine ⟨?_, hreports, hnumbers, hanswers.length_eq⟩
    have hlength := hnumbers.length_eq
    rw [numbersOf, List.length_map, List.length_map] at hlength
    rw [← hreports, List.length_map, hlength]
  · have hrun := RunState.run_recorded w o n (RunState.ofFiles (u, []) files)
    have hreaches := reaches_run (w := w.recorded) (o := o) n (RunState.ofFiles (u, []) files)
    refine ⟨_, hreaches, ?_, ?_⟩
    · exact congrArg (fun p => RunEnd.phase p.1) hrun.symm
    · exact congrArg Prod.snd hrun.symm

end Retype.Dispatch
