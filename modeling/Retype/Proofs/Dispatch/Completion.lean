import Retype.Proofs.Dispatch.Protocol
/-!
# What a run has done when it finishes

A run that finishes has gone well with everybody: each session has said the
whole pattern, so each worker that was spawned has reported, and every batch
was answered. The batches in the log are those of the events, and so every
file of the run was in a batch that was answered (`completed_of_finished`).
-/

namespace Retype.Dispatch

variable {σ : Type} {w : Surroundings σ} {o : Settings}

/-! ## The batches of a log -/

/-- The batches that were handed out, in order, whether or not they could be
sent. -/
def batchesIn (log : List Call) : List (List String) :=
  log.filterMap fun
    | .sent _ (.batch files) _ => some files
    | _ => none

@[simp] theorem batchesIn_append (log log' : List Call) :
    batchesIn (log ++ log') = batchesIn log ++ batchesIn log' :=
  List.filterMap_append ..

theorem batchesIn_of_append {c c' : Moment (σ × List Call)} {calls : List Call}
    {events : List Event} (hc : batchesIn c.log = c.state.batches) (hlog : c'.log = c.log ++ calls)
    (hevents : c'.state.events = c.state.events ++ events)
    (hsame : batchesIn calls = events.filterMap Event.batch?) :
    batchesIn c'.log = c'.state.batches := by
  rw [hlog, batchesIn_append, hc, hsame, RunState.batches, RunState.batches, hevents,
    List.filterMap_append]

/-- The log and the events tell of the same batches. -/
theorem batchesIn_action {c c' : Moment (σ × List Call)} (h : Action w.recorded o c c')
    (hc : batchesIn c.log = c.state.batches) : batchesIn c'.log = c'.state.batches := by
  cases h with
  | allSpawned | noFiles | nobodyLeft | roundOver | closed | concluded => exact hc
  | cannotWait hlive hne ht hwait =>
    exact batchesIn_of_append hc ((log_wait hwait).trans (List.append_nil _).symm) rfl rfl
  | waited hlive hne ht hwait hstalled =>
    refine batchesIn_of_append hc ((log_wait hwait).trans (List.append_nil _).symm) rfl ?_
    exact (filterMap_batch?_printed _).symm
  | notSpawned hq hspawn => exact batchesIn_of_append hc (log_spawn hspawn) rfl rfl
  | firstGone hq hspawn hsend | spawned hq hspawn hsend =>
    exact batchesIn_of_append hc (log_append (log_spawn hspawn) (log_send hsend)) rfl rfl
  | unreadable hreceive | exited hreceive | illegal hreceive =>
    exact batchesIn_of_append hc (log_receive hreceive) rfl rfl
  | nextGone hstate hreceive hq hsend | nextBatch hstate hreceive hq hsend
    | requestGone hstate hreceive hq hsend | request hstate hreceive hq hsend =>
    exact batchesIn_of_append hc (log_append (log_receive hreceive) (log_send hsend)) rfl rfl
  | report hstate hreceive =>
    exact batchesIn_of_append hc (log_append (log_receive hreceive) rfl) rfl rfl
  | terminated => exact batchesIn_of_append hc rfl rfl rfl

theorem batchesIn_of_reaches {u : σ} {files : List String} {c : Moment (σ × List Call)}
    (h : Moment.Reaches w.recorded o ((RunState.ofFiles (u, []) files).opened o) c) :
    batchesIn c.log = c.state.batches := by
  refine h.of_action (P := fun c => batchesIn c.log = c.state.batches) ?_
    fun _ _ _ haction hc => batchesIn_action haction hc
  rw [RunState.opened]
  split <;> rfl

/-! ## Before a worker is spawned -/

/-- What may come before a call: nobody is talked to, or spawned, who is yet to be
spawned. -/
def MayPrecede (a b : Call) : Prop :=
  ∀ number failure, b = .spawned number failure →
    (∀ turn, a.turn? ≠ some (number, turn)) ∧ a ≠ .spawned number none

/-- Only the first call of an exchange spawns anybody. -/
theorem Exchange.precede {number : Nat} {queue : List String} {before after : Option SessionState}
    {calls : List Call} {reports : List Report} {result result' : Outcome}
    (h : Exchange number queue before after calls reports result result') :
    calls.Pairwise MayPrecede := by
  cases h <;> simp [MayPrecede]

/-- Who is spawned in an exchange was not there. -/
theorem Exchange.eq_of_spawned {number : Nat} {queue : List String}
    {before after : Option SessionState} {calls : List Call} {reports : List Report}
    {result result' : Outcome}
    (h : Exchange number queue before after calls reports result result') {m : Nat}
    {failure : Option String} (hcall : .spawned m failure ∈ calls) :
    m = number ∧ before = none ∧ result = none := by
  cases h <;> simp_all

/-- **Whoever is talked to was spawned before**, and spawned once. -/
theorem precede_of_reaches {u : σ} {files : List String} {c : Moment (σ × List Call)}
    (h : Moment.Reaches w.recorded o ((RunState.ofFiles (u, []) files).opened o) c) :
    c.log.Pairwise MayPrecede := by
  refine h.of_action (P := fun c => c.log.Pairwise MayPrecede) ?_ fun d d' hd haction hP => ?_
  · rw [RunState.opened]
    split <;> exact List.Pairwise.nil
  · rcases exchange_action haction (standing_of_reaches hd) with
      hquiet | ⟨number, _, _, _, _, hexchanged⟩
    · exact hquiet.log ▸ hP
    · rw [hexchanged.log, List.pairwise_append]
      refine ⟨hP, hexchanged.exchange.precede, fun a ha b hb m failure heq => ?_⟩
      obtain ⟨rfl, hbefore, hresult⟩ := hexchanged.exchange.eq_of_spawned (heq ▸ hb)
      have hstatus := hexchanged.before.trans hbefore
      have hnothing := (followed_of_reaches hd).going hresult m
      rw [hstatus, Follows] at hnothing
      refine ⟨fun turn hturn => ?_, ?_⟩
      · exact List.not_mem_nil (hnothing ▸ mem_transcript ha hturn)
      · rintro rfl
        have hspawned : m ∈ spawnedIn d.log := List.mem_filterMap.2 ⟨_, ha, rfl⟩
        exact ((accounted_of_reaches hd).spawned m).1 hspawned hstatus

/-! ## What was said to a worker -/

def Call.sentTo? (number : Nat) : Call → Option Message
  | .sent n m _ => if n = number then some m else none
  | _ => none

def Call.heardFrom? (number : Nat) : Call → Option Message
  | .received n answer => if n = number then answer.toOption.join else none
  | _ => none

/-- The messages that were sent to a worker. -/
def sentTo (number : Nat) (log : List Call) : List Message := log.filterMap (Call.sentTo? number)

/-- The messages that a worker has sent. -/
def heardFrom (number : Nat) (log : List Call) : List Message :=
  log.filterMap (Call.heardFrom? number)

/-- **Calls in order**: who is talked to was spawned, and no batch is sent when a
report has been asked for. -/
structure InOrder (log : List Call) : Prop where
  follow : log.Pairwise MayFollow
  precede : log.Pairwise MayPrecede

section
variable {log log' : List Call} {number : Nat}

theorem InOrder.of_append (h : InOrder (log ++ log')) : InOrder log :=
  ⟨(List.pairwise_append.1 h.follow).1, (List.pairwise_append.1 h.precede).1⟩

/-- Nothing was said to a worker that is spawned now, and it was not there. -/
theorem InOrder.of_spawned {failure : Option String}
    (h : InOrder (log ++ [.spawned number failure])) :
    sentTo number log = [] ∧ heardFrom number log = [] ∧ number ∉ spawnedIn log := by
  have hbefore : ∀ a ∈ log, (∀ turn, a.turn? ≠ some (number, turn)) ∧ a ≠ .spawned number none :=
    fun a ha => (List.pairwise_append.1 h.precede).2.2 a ha _ (List.mem_singleton_self _) _ _ rfl
  refine ⟨List.filterMap_eq_nil_iff.2 fun a ha => ?_, List.filterMap_eq_nil_iff.2 fun a ha => ?_,
    fun hspawned => ?_⟩
  · cases a with
    | sent n m failure' =>
      exact if_neg fun hn => (hbefore _ ha).1 (.sent m failure') (by rw [Call.turn?, hn])
    | spawned | received | terminated => rfl
  · cases a with
    | received n answer =>
      exact if_neg fun hn => (hbefore _ ha).1 (.received answer) (by rw [Call.turn?, hn])
    | spawned | sent | terminated => rfl
  · obtain ⟨a, ha, hcall⟩ := List.mem_filterMap.1 hspawned
    rcases a with ⟨n, _ | _⟩ | _ | _ | _
    · obtain rfl : n = number := Option.some.inj hcall
      exact (hbefore _ ha).2 rfl
    all_goals cases hcall

theorem eq_of_sentTo? {call : Call} {m : Message} (h : call.sentTo? number = some m) :
    ∃ failure, call = .sent number m failure := by
  cases call with
  | sent n m' failure =>
    rw [Call.sentTo?] at h
    split_ifs at h with hn
    obtain rfl := Option.some.inj h
    exact ⟨failure, hn ▸ rfl⟩
  | spawned | received | terminated => cases h

theorem mem_sentTo {m : Message} :
    m ∈ sentTo number log ↔ ∃ failure, .sent number m failure ∈ log := by
  refine ⟨fun h => ?_, fun ⟨failure, h⟩ => List.mem_filterMap.2 ⟨_, h, if_pos rfl⟩⟩
  obtain ⟨call, hcall, hm⟩ := List.mem_filterMap.1 h
  obtain ⟨failure, rfl⟩ := eq_of_sentTo? hm
  exact ⟨failure, hcall⟩

/-- A report was heard from its worker. -/
theorem mem_heardFrom_of_report {data : Report} (h : (number, data) ∈ reportsIn log) :
    .report data ∈ heardFrom number log := by
  obtain ⟨call, hcall, hsome⟩ := List.mem_filterMap.1 h
  refine List.mem_filterMap.2 ⟨call, hcall, ?_⟩
  rcases call with _ | _ | ⟨n, _ | _ | _ | _ | _ | data'⟩ | _
  case received.ok.some.report =>
    obtain ⟨rfl, rfl⟩ := Prod.mk.inj (Option.some.inj hsome)
    exact if_pos rfl
  all_goals cases hsome

/-- What was sent in a session was sent to its worker. -/
theorem mem_sentTo_of_turn {m : Message} {failure : Option Worker.Gone}
    (h : .sent m failure ∈ transcript number log) : m ∈ sentTo number log := by
  obtain ⟨⟨n, turn⟩, hmem, hturn⟩ := List.mem_map.1 h
  obtain ⟨hmem, hn⟩ := List.mem_filter.1 hmem
  obtain ⟨call, hcall, hsome⟩ := List.mem_filterMap.1 hmem
  obtain rfl : n = number := of_decide_eq_true hn
  obtain rfl : turn = .sent m failure := hturn
  cases call with
  | sent n' m' failure' =>
    obtain ⟨rfl, hturn⟩ := Prod.mk.inj (Option.some.inj hsome)
    obtain ⟨rfl, rfl⟩ := Turn.sent.inj hturn
    exact mem_sentTo.2 ⟨_, hcall⟩
  | received => cases (Prod.mk.inj (Option.some.inj hsome)).2
  | spawned | terminated => cases hsome

/-- No batch is sent to a worker after the request for its report. -/
theorem InOrder.request (h : InOrder log) (number : Nat) :
    (sentTo number log).Pairwise fun a b => a = .reportRequest → ∀ paths, b ≠ .batch paths := by
  refine h.follow.filterMap _ fun a b hab m hm m' hm' hrequest paths hbatch => ?_
  obtain ⟨failure, rfl⟩ := eq_of_sentTo? (hrequest ▸ hm)
  obtain ⟨failure', rfl⟩ := eq_of_sentTo? (hbatch ▸ hm')
  exact hab.2 number failure rfl number paths failure' rfl

end

/-! ## Batches that were answered -/

/-- A batch that its worker has answered by asking for the next one. -/
def Acknowledged (log : List Call) (batch : List String) : Prop :=
  ∃ number before after, transcript number log =
    before ++ .sent (.batch batch) none :: .received (.ok (some .next)) :: after

/-- In a pattern every batch is answered. -/
theorem next_of_answered {k : Nat} {before after said : List Beat}
    (h : answered k ++ said = before ++ .batch :: after) (hsaid : .batch ∉ said) :
    ∃ rest, after = .next :: rest := by
  induction k generalizing before with
  | zero =>
    refine absurd ?_ hsaid
    rw [answered, List.nil_append] at h
    rw [h]
    exact List.mem_append_right _ List.mem_cons_self
  | succ k ih =>
    rw [answered, List.cons_append, List.cons_append] at h
    rcases before with _ | ⟨b, _ | ⟨b', before⟩⟩
    · exact ⟨_, (List.cons.inj h).2.symm⟩
    · exact absurd (List.cons.inj (List.cons.inj h).2).1 (by decide)
    · exact ih (List.cons.inj (List.cons.inj h).2).2

theorem stray_not_mem_answered (k : Nat) : Beat.stray ∉ answered k := by
  induction k with
  | zero => exact List.not_mem_nil
  | succ k ih => simp [answered, ih]

theorem beat_eq_next {turn : Turn} (h : turn.beat = .next) :
    turn = .received (.ok (some .next)) := by
  unfold Turn.beat at h
  split at h <;> first | rfl | cases h

/-- A batch in a session that has said the whole pattern was answered. -/
theorem acknowledged_of_pattern {log : List Call} {number k : Nat} {batch : List String}
    {failure : Option Worker.Gone} (hpattern : beats (transcript number log) = pattern k)
    (hsent : .sent number (.batch batch) failure ∈ log) : Acknowledged log batch := by
  have hmem : Turn.sent (.batch batch) failure ∈ transcript number log := mem_transcript hsent rfl
  obtain ⟨before, after, hsplit⟩ := List.append_of_mem hmem
  rw [hsplit, beats_append, pattern] at hpattern
  cases failure with
  | some cause =>
    have hstray : Beat.stray ∈ answered k ++ [.request, .report] := by
      rw [← hpattern]
      exact List.mem_append_right _ List.mem_cons_self
    rcases List.mem_append.1 hstray with h | h
    · exact absurd h (stray_not_mem_answered k)
    · exact absurd h (by decide)
  | none =>
    obtain ⟨rest, hrest⟩ := next_of_answered hpattern.symm (by decide)
    obtain ⟨turn, after, rfl, hturn, -⟩ := List.map_eq_cons_iff.1 hrest
    rw [beat_eq_next hturn] at hsplit
    exact ⟨number, before, after, hsplit⟩

/-! ## What has been done -/

/-- **What a run has done when it finishes**: every session has said the whole
pattern, every worker that was spawned has sent a report, and these are the
reports of the run; the files were handed out, and every one was in a batch that was
answered. -/
structure Completed (files : List String) (reports : List Report) (log : List Call) : Prop where
  sessions : ∀ number ∈ spawnedIn log, ∃ k, beats (transcript number log) = pattern (k + 1)
  others : ∀ number, number ∉ spawnedIn log → transcript number log = []
  reported : ∀ number ∈ spawnedIn log, ∃ data, (number, data) ∈ reportsIn log
  reports : (reportsIn log).map (·.2) = reports
  acknowledged : ∀ path ∈ files, ∃ batch, path ∈ batch ∧ Acknowledged log batch
  handed : (batchesIn log).flatten.Perm files
  inOrder : InOrder log

theorem completed_of_reaches {u : σ} {files shuffled : List String} {c : Moment (σ × List Call)}
    (hshuffled : shuffled.Perm files) (hworkers : 1 ≤ o.workers) (hb : 1 ≤ o.batchSize)
    (h : Moment.Reaches w.recorded o ((RunState.ofFiles (u, []) shuffled).opened o) c)
    (hresult : c.phase.result? = some (.ok ())) : Completed files c.state.reports c.log := by
  have hfinished := (followed_of_reaches h).finished hresult
  have hspawned := (accounted_of_reaches h).spawned
  have hsessions : ∀ number ∈ spawnedIn c.log,
      ∃ k, beats (transcript number c.log) = pattern (k + 1) := fun number hnumber => by
    obtain ⟨state, hstate⟩ := Option.ne_none_iff_exists'.1 ((hspawned number).1 hnumber)
    obtain ⟨hfollows, hended⟩ := hfinished number
    obtain rfl := hended state hstate
    rwa [hstate] at hfollows
  have hothers : ∀ number, number ∉ spawnedIn c.log → transcript number c.log = [] :=
    fun number hnumber => by
      have hstatus : c.status number = none := by
        by_contra hne
        exact hnumber ((hspawned number).2 hne)
      have hfollows := (hfinished number).1
      rwa [hstatus] at hfollows
  have hhanded := handed_of_finished hshuffled hworkers hb h hresult
  rw [← batchesIn_of_reaches h] at hhanded
  refine ⟨hsessions, hothers, fun number hnumber => ?_, ?_, fun path hpath => ?_, hhanded,
    (accounted_of_reaches h).order, precede_of_reaches h⟩
  · obtain ⟨k, hk⟩ := hsessions number hnumber
    have hcount := count_speakers .report number c.log
    rw [hk, speakers_report] at hcount
    have hmem : number ∈ (reportsIn c.log).map (·.1) := by
      rw [← List.count_pos_iff, hcount]
      simp [pattern]
    obtain ⟨⟨_, data⟩, hdata, rfl⟩ := List.mem_map.1 hmem
    exact ⟨data, hdata⟩
  · exact reported_of_reaches h fun cause hcause => absurd (hresult.symm.trans hcause) (by simp)
  · obtain ⟨batch, hbatch, hpath⟩ := List.mem_flatten.1 (hhanded.mem_iff.2 hpath)
    obtain ⟨call, hcall, hbatch⟩ := List.mem_filterMap.1 hbatch
    rcases call with _ | ⟨number, m, failure⟩ | _ | _
    · cases hbatch
    · cases m with
      | batch files =>
        obtain rfl : files = batch := by simpa using hbatch
        refine ⟨files, hpath, ?_⟩
        have hnumber : number ∈ spawnedIn c.log := by
          by_contra hne
          have hturn : Turn.sent (.batch files) failure ∈ transcript number c.log :=
            mem_transcript hcall rfl
          rw [hothers number hne] at hturn
          exact absurd hturn List.not_mem_nil
        obtain ⟨k, hk⟩ := hsessions number hnumber
        exact acknowledged_of_pattern hk hcall
      | next | reportRequest | report => cases hbatch
    · cases hbatch
    · cases hbatch

/-- **A run that finishes has done all of it.** -/
theorem completed_of_finished (w : Surroundings σ) {u : σ} {files shuffled : List String} {n : Nat}
    (hshuffled : shuffled.Perm files) (hworkers : 1 ≤ o.workers) (hb : 1 ≤ o.batchSize)
    (hfinished : ((RunState.ofFiles (u, []) shuffled).run w.recorded o n).1 = .finished) :
    Completed files ((RunState.ofFiles (u, []) shuffled).run w.recorded o n).2.reports
      ((RunState.ofFiles (u, []) shuffled).run w.recorded o n).2.surroundings.2 := by
  refine completed_of_reaches hshuffled hworkers hb (reaches_run n _) ?_
  rw [hfinished]
  rfl

end Retype.Dispatch
