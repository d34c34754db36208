import Mathlib.Data.List.Forall2
import Retype.Proofs.Batch.Step
import Retype.Proofs.Batch.Turns
/-!
# A tree by itself

The parameters of a tree put their questions in order, and one call is made at
a time. While one answer is read the next call is under way already
(`Answering`), so the questions are asked, and what is found is recorded, in the
order of the parameters. If the tree comes to something, then all of them have
had their answers (`alone_over`). Where a parameter is refused the tree comes to
nothing, though the other questions are still asked (`Lost`).
-/

namespace Retype.Batch

open Inference (Query Queue Entry)
open Migration (FileOptions)

/-- The question that a line of the log is about. -/
def LogEntry.asked? : LogEntry → Option Query
  | .asked q => some q
  | _ => none

namespace Job

/-- A job that brings nothing if no file waits. -/
def IsIdle : Job → Prop
  | openBatch _ => False
  | start _ => False
  | parse .. => False
  | walk .. => False
  | print .. => False
  | settle _ (.ok _) => False
  | resume _ none => False
  | fileOver => False
  | _ => True

/-- The last stages are idle, and tell nobody of an answer. -/
theorem isIdle_of_depth {job : Job} (h : job.depth = 1) :
    job.IsIdle ∧ ∀ file failure, job ≠ answered file failure := by
  cases job with
  | settle path r =>
    cases r with
    | error cause => exact ⟨trivial, fun _ _ => nofun⟩
    | ok done => cases h
  | parseType => exact ⟨trivial, fun _ _ => nofun⟩
  | _ => cases h

end Job

namespace Loop

/-- The questions that have been asked. -/
def asked (s : Loop) : List Query := s.log.filterMap LogEntry.asked?

variable {t : Toolchain} {s : Loop} {w : Walked}
  {P : Done → List Finding → List Query → Talk → Prop}

/-! ## Turns -/

theorem turns_turns (m n : Nat) (s : Loop) : turns t m (turns t n s) = turns t (n + m) s := by
  induction n generalizing s with
  | zero => rw [Nat.zero_add]; rfl
  | succ n ih =>
    rw [Nat.add_right_comm, turns, turns]
    split
    next h => exact turns_of_stopped t h m
    next => exact ih _

/-- A job after which no stage comes. -/
theorem act_of_run {s' : Loop} {job : Job} (hrun : s.run t job = s') (hstages : s'.stages = []) :
    s.act t job = s' := by
  rw [act, hrun, hstages]
  rfl

theorem join_of_stages (hstages : s.stages = []) (n : Nat) : s.join t n = s := by
  cases n with
  | zero => rfl
  | succ n => rw [join, hstages]

/-- A job after which one stage comes, and no other one after that. -/
theorem act_of_enter {s' s'' : Loop} {job next : Job} (hrun : s.run t job = s'.enter next)
    (hnext : s'.run t next = s'') (hstages : s'.stages = []) (hstages' : s''.stages = []) :
    s.act t job = s'' := by
  obtain ⟨n, hn⟩ := Nat.exists_eq_succ_of_ne_zero next.depth_pos.ne'
  have hentered : (s'.enter next).stages = [next] := by rw [enter, hstages]; rfl
  have hleft : { s'.enter next with stages := [] } = s' := by rw [enter, ← hstages]
  rw [act, hrun, hentered, Job.total_eq_sum, List.map_singleton, List.sum_singleton, hn, join,
    hentered]
  dsimp only
  rw [hleft, hnext, join_of_stages hstages']

/-- What a loop brings as it takes turns, with what it has found, asked and said
by then, whenever it has brought something. -/
def Brings (t : Toolchain) (P : Done → List Finding → List Query → Talk → Prop) (s : Loop) : Prop :=
  ∀ n done, (turns t n s).result = some (.ok done) →
    P done (turns t n s).findings (turns t n s).asked (turns t n s).talk

namespace Brings

/-- A loop brings what it has brought, or brings from the next turn on. -/
theorem of_turn (hnow : ∀ done, s.result = some (.ok done) → P done s.findings s.asked s.talk)
    (h : Brings t P (s.turn t)) : Brings t P s := by
  intro n done hdone
  cases n with
  | zero => exact hnow done hdone
  | succ n =>
    rw [turns] at hdone ⊢
    split at hdone
    next hstopped =>
      rw [if_pos hstopped]
      exact hnow done hdone
    next hstopped =>
      rw [if_neg hstopped]
      exact h n done hdone

/-- A loop that has brought nothing so far. -/
theorem of_next (hnone : s.result = none) (h : Brings t P (s.turn t)) : Brings t P s := by
  refine of_turn (fun done hdone => ?_) h
  rw [hnone] at hdone
  cases hdone

theorem of_stopped (hstopped : s.stopped = true)
    (h : ∀ done, s.result = some (.ok done) → P done s.findings s.asked s.talk) : Brings t P s := by
  intro n done hdone
  rw [turns_of_stopped t hstopped] at hdone ⊢
  exact h done hdone

/-- A loop that is about to stop. -/
theorem of_stop (hready : s.ready = [.stop]) (hstages : s.stages = [])
    (h : ∀ done, s.result = some (.ok done) → P done s.findings s.asked s.talk) : Brings t P s := by
  have hturn : s.turn t = { s with ready := [], stopped := true } := by
    rw [turn, hready]
    exact act_of_run rfl hstages
  refine of_turn h ?_
  rw [hturn]
  exact of_stopped rfl h

end Brings

/-! ## Trees that come to nothing -/

/-- A loop with one file that has brought nothing, and in which nothing that is
to be done brings anything while the file does not wait. -/
structure Fruitless (s : Loop) (w : Walked) : Prop where
  result : ∀ done, s.result ≠ some (.ok done)
  alone : s.outstanding = none
  walked : s.walked = [w]
  idle : ∀ job ∈ s.ready, job.IsIdle
  stages : ∀ job ∈ s.stages, job.depth = 1

/-- The file of a loop with one file. -/
theorem eq_of_single {file : Nat} {w' : Walked} (hwalked : s.walked = [w])
    (h : s.walked[file]? = some w') : file = 0 ∧ w' = w := by
  rw [hwalked] at h
  cases file with
  | zero => exact ⟨rfl, (Option.some.inj h).symm⟩
  | succ file => cases h

/-- A call that starts tells of no answer. -/
theorem started_told (next : Option (Entry Caller)) :
    ∀ job ∈ started next, job.IsIdle ∧ ∀ file, job ≠ .answered file none := by
  cases next with
  | none => exact List.forall_mem_nil _
  | some e => exact List.forall_mem_singleton.2 ⟨trivial, fun _ => nofun⟩

namespace Fruitless

variable (h : Fruitless s w)
include h

theorem schedule {jobs : List Job} (hjobs : ∀ job ∈ jobs, job.IsIdle) :
    Fruitless (s.schedule jobs) w :=
  ⟨h.result, h.alone, h.walked, List.forall_mem_append.2 ⟨h.idle, hjobs⟩, h.stages⟩

theorem schedule_one {job : Job} (hjob : job.IsIdle) : Fruitless (s.schedule [job]) w :=
  h.schedule (List.forall_mem_singleton.2 hjob)

theorem schedule_started (next : Option (Entry Caller)) : Fruitless (s.schedule (started next)) w :=
  h.schedule fun job hjob => (started_told next job hjob).1

theorem enter {job : Job} (hjob : job.depth = 1) : Fruitless (s.enter job) w :=
  ⟨h.result, h.alone, h.walked, h.idle,
    List.forall_mem_append.2 ⟨h.stages, List.forall_mem_singleton.2 hjob⟩⟩

/-- The queue and who waits for it do not matter. -/
theorem queueing (queue : Queue Caller) (waiting : List Caller) :
    Fruitless { s with queue := queue, waiting := waiting } w :=
  ⟨h.result, h.alone, h.walked, h.idle, h.stages⟩

/-- Nor does what is said and found. -/
theorem saying (talk : Talk) (log : List LogEntry) (findings : List Finding) :
    Fruitless { s with talk := talk, log := log, findings := findings } w :=
  ⟨h.result, h.alone, h.walked, h.idle, h.stages⟩

/-- A turn begins with nothing that is ready. -/
theorem emptied : Fruitless { s with ready := [] } w :=
  ⟨h.result, h.alone, h.walked, List.forall_mem_nil _, h.stages⟩

/-- A failure brings nothing. -/
theorem settle (path : String) (cause : Failure) : Fruitless (s.settle path (.error cause)) w := by
  have hfailed : Fruitless { s with result := some (.error cause) } w :=
    ⟨fun _ hdone => (by cases hdone), h.alone, h.walked, h.idle, h.stages⟩
  have hsettled : s.settle path (.error cause)
      = { s with result := some (.error cause) }.schedule [.stop] := by
    simp [Loop.settle, h.alone, record, skips]
  rw [hsettled]
  exact hfailed.schedule_one trivial

/-- What is inferred brings nothing yet. -/
theorem infer (c : Caller) (type : Option Json) :
    ∃ w', Fruitless (s.infer c type) w' ∧ w'.waits = w.waits := by
  cases hplace : s.place? c with
  | none => exact ⟨w, by rwa [Loop.infer, hplace], rfl⟩
  | some place =>
    obtain ⟨o, e | location⟩ := place
    · exact ⟨w, by rwa [Loop.infer, hplace], rfl⟩
    · obtain ⟨w', hw, hl, rfl⟩ := place?_eq_some_iff.1 hplace
      obtain ⟨hfile, rfl⟩ := eq_of_single h.walked hw
      let r := Migration.annotationInferred w'.options location type
      have hwalked : (s.conclude c w' r s.talk []).walked = [w'.given c.param r.result] := by
        rw [conclude, h.walked, hfile]
        rfl
      have hconcluded : Fruitless (s.conclude c w' r s.talk []) (w'.given c.param r.result) :=
        ⟨h.result, h.alone, hwalked, h.idle, h.stages⟩
      rw [infer_eq ⟨hw, hl⟩]
      exact ⟨_, hconcluded.schedule_one trivial, w'.waits_given c.param r.result⟩

/-- A file that is told of a failure does not wait any more. -/
theorem answered (file : Nat) (e : Refusal) : ∃ w', Fruitless (s.answered file (some e)) w' ∧
    (w.waits = false ∨ file = 0 → w'.waits = false) := by
  rw [Loop.answered]
  split
  next hnone =>
    refine ⟨w, h, fun hor => hor.elim id ?_⟩
    rintro rfl
    rw [h.walked] at hnone
    cases hnone
  next w' hw =>
    obtain ⟨rfl, rfl⟩ := eq_of_single h.walked hw
    cases hwaits : w'.waits with
    | false => exact ⟨w', h, fun _ => hwaits⟩
    | true =>
      let ended : Walked := { w' with missing := w'.missing - 1, waits := false }
      refine ⟨ended, schedule_one (s := { s with walked := s.walked.set 0 ended })
        ⟨h.result, h.alone, ?_, h.idle, h.stages⟩ trivial, fun _ => rfl⟩
      rw [h.walked]
      rfl

/-- **Whatever such a job does brings nothing**, unless it tells of an answer. -/
theorem run {job : Job} (hidle : job.IsIdle) (htold : ∀ file, job ≠ .answered file none) :
    ∃ w', Fruitless (s.run t job) w' ∧ (w.waits = false → w'.waits = false) := by
  cases job with
  | openBatch | start | parse | walk | print | fileOver => exact hidle.elim
  | settle path r =>
    cases r with
    | error cause => exact ⟨w, h.settle path cause, id⟩
    | ok done => exact hidle.elim
  | put c =>
    rw [Loop.run, put]
    split
    · exact ⟨w, h, id⟩
    · exact ⟨w, h.schedule_one trivial, id⟩
    · exact ⟨w, (h.queueing _ _).schedule_started _, id⟩
  | call e => exact ⟨w, (h.saying _ _ s.findings).schedule_one trivial, id⟩
  | giveUp e => exact ⟨w, h.schedule_one trivial, id⟩
  | callEnded e output =>
    have hnext := (h.queueing s.queue.finish.1 s.waiting).schedule_started s.queue.finish.2
    rw [Loop.run, callEnded]
    dsimp only
    split
    · exact ⟨w, (hnext.queueing _ _).schedule_one trivial, id⟩
    · exact ⟨w, hnext, id⟩
  | answer c output =>
    rw [Loop.run, answer]
    split
    · exact ⟨w, h.enter rfl, id⟩
    · obtain ⟨w', h', hwaits⟩ := h.infer c none
      exact ⟨w', h', hwaits.trans⟩
  | parseType c text =>
    obtain ⟨w', h', hwaits⟩ := (h.saying _ _ s.findings).infer c _
    exact ⟨w', h', hwaits.trans⟩
  | answered file failure =>
    cases failure with
    | none => exact absurd rfl (htold file)
    | some e =>
      obtain ⟨w', h', hwaits⟩ := h.answered file e
      exact ⟨w', h', fun hw => hwaits (.inl hw)⟩
  | resume file failure =>
    cases failure with
    | none => exact hidle.elim
    | some e =>
      rw [Loop.run, resume]
      split
      · exact ⟨w, h, id⟩
      · exact ⟨w, h.enter rfl, id⟩
  | batchOver => exact ⟨w, h.schedule_one trivial, id⟩
  | stop => exact ⟨w, ⟨h.result, h.alone, h.walked, h.idle, h.stages⟩, id⟩

theorem join (n : Nat) :
    ∃ w', Fruitless (s.join t n) w' ∧ (w.waits = false → w'.waits = false) := by
  induction n generalizing s w with
  | zero => exact ⟨w, h, id⟩
  | succ n ih =>
    rw [Loop.join]
    split
    next => exact ⟨w, h, id⟩
    next job rest hstages =>
      have hdepth := h.stages
      rw [hstages, List.forall_mem_cons] at hdepth
      obtain ⟨hidle, htold⟩ := Job.isIdle_of_depth hdepth.1
      have hrest : Fruitless { s with stages := rest } w :=
        ⟨h.result, h.alone, h.walked, h.idle, hdepth.2⟩
      obtain ⟨w', h', hwaits⟩ := hrest.run (t := t) hidle fun file => htold file none
      obtain ⟨w'', h'', hwaits'⟩ := ih h'
      exact ⟨w'', h'', fun hw => hwaits' (hwaits hw)⟩

theorem act {job : Job} (hidle : job.IsIdle) (htold : ∀ file, job ≠ .answered file none) :
    ∃ w', Fruitless (s.act t job) w' ∧ (w.waits = false → w'.waits = false) := by
  obtain ⟨w', h', hwaits⟩ := h.run (t := t) hidle htold
  obtain ⟨w'', h'', hwaits'⟩ := h'.join (t := t) _
  exact ⟨w'', h'', fun hw => hwaits' (hwaits hw)⟩

end Fruitless

/-- A loop that brings nothing any more: its file does not wait. -/
def Lost (s : Loop) : Prop := ∃ w, Fruitless s w ∧ w.waits = false

theorem Lost.act (h : Lost s) {job : Job} (hidle : job.IsIdle) : Lost (s.act t job) := by
  obtain ⟨w, h, hwaits⟩ := h
  by_cases htold : ∃ file, job = .answered file none
  · obtain ⟨file, rfl⟩ := htold
    have hrun : s.run t (.answered file none) = s := by
      rw [Loop.run, answered]
      split
      · rfl
      next w' hw =>
        obtain ⟨-, rfl⟩ := eq_of_single h.walked hw
        rw [hwaits]
        rfl
    obtain ⟨w', h', hwaits'⟩ := h.join (t := t) (Job.total Job.depth s.stages)
    rw [Loop.act, hrun]
    exact ⟨w', h', hwaits' hwaits⟩
  · obtain ⟨w', h', hwaits'⟩ := h.act (t := t) hidle fun file hjob => htold ⟨file, hjob⟩
    exact ⟨w', h', hwaits' hwaits⟩

theorem Lost.foldl (h : Lost s) {jobs : List Job} (hidle : ∀ job ∈ jobs, job.IsIdle) :
    Lost (jobs.foldl (Loop.act t) s) := by
  induction jobs generalizing s with
  | nil => exact h
  | cons job rest ih =>
    rw [List.forall_mem_cons] at hidle
    exact ih (h.act hidle.1) hidle.2

theorem Lost.turn (h : Lost s) : Lost (s.turn t) := by
  obtain ⟨w, h, hwaits⟩ := h
  exact Lost.foldl ⟨w, h.emptied, hwaits⟩ h.idle

theorem Lost.brings (h : Lost s) : Brings t P s := by
  intro n done hdone
  have hlost (n : Nat) (s : Loop) (h : Lost s) : Lost (turns t n s) := by
    induction n generalizing s with
    | zero => exact h
    | succ n ih =>
      rw [turns]
      split
      · exact h
      · exact ih _ h.turn
  obtain ⟨w, h, -⟩ := hlost n s h
  exact absurd hdone (h.result done)

/-- A loop whose file is about to be told of a failure, and of nothing else. -/
structure Doomed (s : Loop) : Prop where
  fruitless : ∃ w, Fruitless s w
  failing : ∃ e, Job.answered 0 (some e) ∈ s.ready
  first : ∀ job ∈ s.ready, ∀ file, job ≠ .answered file none

/-- When the jobs of such a loop are done, its file does not wait. -/
theorem Doomed.brings (h : Doomed s) : Brings t P s := by
  obtain ⟨⟨w, h⟩, ⟨e, htold⟩, hfirst⟩ := h
  have hlost (jobs : List Job) (s : Loop) (w : Walked) (h : Fruitless s w)
      (hidle : ∀ job ∈ jobs, job.IsIdle) (hfirst : ∀ job ∈ jobs, ∀ file, job ≠ .answered file none)
      (htold : Job.answered 0 (some e) ∈ jobs) : Lost (jobs.foldl (Loop.act t) s) := by
    induction jobs generalizing s w with
    | nil => cases htold
    | cons job rest ih =>
      rw [List.forall_mem_cons] at hidle hfirst
      rcases List.mem_cons.1 htold with rfl | htold
      · obtain ⟨w', h', hwaits⟩ := h.answered 0 e
        obtain ⟨w'', h'', hwaits'⟩ := h'.join (t := t) _
        exact Lost.foldl ⟨w'', h'', hwaits' (hwaits (.inr rfl))⟩ hidle.2
      · obtain ⟨w', h', -⟩ := h.act (t := t) hidle.1 hfirst.1
        exact ih _ w' h' hidle.2 hfirst.2 htold
  refine .of_turn (fun done hdone => absurd hdone (h.result done)) (Lost.brings ?_)
  exact hlost s.ready _ w h.emptied h.idle hfirst htold

/-! ## Questions -/

/-- What putting a question makes ready: a call, or the end of a parameter that
stands nowhere. -/
theorem run_put (hwalked : s.walked = [w]) (i : Nat) : ∃ queue waiting jobs,
    s.run t (.put ⟨0, i⟩) = { s with queue := queue, waiting := waiting }.schedule jobs ∧
      (∀ job ∈ jobs, job.IsIdle ∧ ∀ file, job ≠ .answered file none) ∧
      ∀ e, w.locations[i]? = some (.error e) → Job.answered 0 (some e) ∈ jobs := by
  rw [Loop.run, put]
  split
  next hnone =>
    refine ⟨s.queue, s.waiting, [], by simp [Loop.schedule], List.forall_mem_nil _, fun e he => ?_⟩
    rw [place?_eq_some_iff.2 ⟨w, by rw [hwalked]; rfl, he, rfl⟩] at hnone
    cases hnone
  next e he =>
    refine ⟨s.queue, s.waiting, _, rfl, List.forall_mem_singleton.2 ⟨trivial, fun _ hjob => ?_⟩,
      fun e' he' => ?_⟩
    · cases hjob
    rw [place?_eq_some_iff.2 ⟨w, by rw [hwalked]; rfl, he', rfl⟩] at he
    cases he
    exact List.mem_cons_self
  next location hplace =>
    refine ⟨_, _, _, rfl, started_told _, fun e he => ?_⟩
    · rw [place?_eq_some_iff.2 ⟨w, by rw [hwalked]; rfl, he, rfl⟩] at hplace
      cases hplace

/-- If a parameter stands nowhere, its file is told of that first. -/
theorem doomed_of_puts {params : List Nat} (h : Fruitless s w) (hstages : s.stages = [])
    (hfirst : ∀ job ∈ s.ready, ∀ file, job ≠ .answered file none)
    (hmisplaced : (∃ e, Job.answered 0 (some e) ∈ s.ready) ∨
      ∃ i ∈ params, ∃ e, w.locations[i]? = some (.error e)) :
    Doomed ((params.map fun i => .put ⟨0, i⟩).foldl (Loop.act t) s) := by
  induction params generalizing s with
  | nil => exact ⟨⟨w, h⟩, hmisplaced.resolve_right (by simp), hfirst⟩
  | cons i rest ih =>
    obtain ⟨queue, waiting, jobs, hrun, hjobs, hanswered⟩ := run_put (t := t) h.walked i
    rw [List.map_cons, List.foldl_cons, act_of_run hrun hstages]
    refine ih ((h.queueing queue waiting).schedule fun job hjob => (hjobs job hjob).1) hstages
      (List.forall_mem_append.2 ⟨hfirst, fun job hjob => (hjobs job hjob).2⟩) ?_
    rcases hmisplaced with ⟨e, he⟩ | ⟨j, hj, e, he⟩
    · exact .inl ⟨e, List.mem_append_left _ he⟩
    · rcases List.mem_cons.1 hj with rfl | hj
      · exact .inl ⟨e, List.mem_append_right _ (hanswered e he)⟩
      · exact .inr ⟨j, hj, e, he⟩

/-! ## Answers -/

/-- A call has ended for which somebody waits: the next one starts. -/
theorem act_callEnded {e : Entry Caller} {es : List (Entry Caller)} (output : Option String)
    (hstages : s.stages = []) (hqueue : s.queue = ⟨es, some e⟩) (hcaller : e.caller ∈ s.waiting) :
    s.act t (.callEnded e output) = { s with
      ready := s.ready ++ (started es.head? ++ [.answer e.caller output])
      queue := ⟨es.tail, es.head?⟩
      waiting := s.waiting.filter (· ≠ e.caller) } := by
  have hnext : s.queue.finish = (⟨es.tail, es.head?⟩, es.head?) := by
    rw [hqueue]
    cases es <;> rfl
  refine act_of_run ?_ hstages
  simp [Loop.run, callEnded, hnext, Loop.schedule, hcaller]

/-- An answer reaches a parameter, and the type in it is parsed at once. -/
theorem act_answer {c : Caller} {location : Location} (hstages : s.stages = [])
    (hstands : s.Stands c w (.ok location)) (output : Option String) : ∃ r talk entries,
    (∃ type, Types t (talk.since .none) output type ∧
      r = Migration.annotationInferred w.options location type) ∧
    talk.Continues s.talk ∧ entries.filterMap LogEntry.asked? = [] ∧
    s.act t (.answer c output)
      = (s.conclude c w r talk entries).schedule [.answered c.file r.refusal?] := by
  cases htext : t.typeText output with
  | none =>
    refine ⟨_, s.talk, [], ⟨none, .unusable htext, rfl⟩, .refl _, rfl, act_of_run ?_ hstages⟩
    rw [Loop.run, answer, htext]
    exact infer_eq hstands none
  | some text =>
    have hreply := Toolchain.exchange_request (t := t) s.talk.continues_none
      (Bridge.parseRequest (Bridge.aliasSource text))
    have hentered : s.run t (.answer c output) = s.enter (.parseType c text) := by
      rw [Loop.run, answer, htext]
    exact ⟨_, _, [.parsed text], ⟨_, .parsed htext hreply, rfl⟩, t.continues_request .., rfl,
      act_of_enter hentered (run_parseType hstands text) hstages hstages⟩

/-- A file is told of an answer that is not the last one. -/
theorem act_answered (hstages : s.stages = []) (hwalked : s.walked = [w]) (hwaits : w.waits = true)
    (hmissing : 1 < w.missing) : s.act t (.answered 0 none) =
      { s with walked := [{ w with missing := w.missing - 1 }] } := by
  refine act_of_run ?_ hstages
  simp [Loop.run, answered, hwalked, hwaits, Nat.not_le.2 hmissing]

/-- When the last parameter of a tree is done, the tree is over. -/
theorem Brings.of_answered (hresult : s.result = none) (halone : s.outstanding = none)
    (hstages : s.stages = []) (hready : s.ready = [.answered 0 none]) (hwalked : s.walked = [w])
    (hwaits : w.waits = true) (hmissing : w.missing ≤ 1) (hsource : w.source = none)
    (h : P (.tree (Migration.annotateWaiting w.options w.annotations w.tree)) s.findings s.asked
      s.talk) : Brings t P s := by
  let finished : Walked := { w with missing := w.missing - 1, waits := false }
  let result := Done.tree (Migration.annotateWaiting w.options w.annotations w.tree)
  have hanswered : s.turn t = { s with ready := [.resume 0 none], walked := [finished] } := by
    rw [turn, hready]
    refine act_of_run ?_ hstages
    simp [Loop.run, answered, hwalked, hwaits, hmissing, Loop.schedule, finished]
  have hresumed : (s.turn t).turn t = { s with
      ready := [.stop]
      walked := [finished]
      result := some (.ok result) } := by
    have hentered : Loop.run t { s with ready := [], walked := [finished] } (.resume 0 none)
        = { s with ready := [], walked := [finished] }.enter
          (.settle w.options.path (.ok result)) := by
      simp [Loop.run, resume, Walked.conclusion, Walked.onward, finished, hsource, result]
    rw [hanswered, turn]
    refine act_of_enter hentered ?_ hstages hstages
    simp [Loop.run, settle, halone, Loop.schedule, record, skips]
  refine .of_next hresult (.of_next (by rw [hanswered]; exact hresult) ?_)
  rw [hresumed]
  refine .of_stop rfl hstages fun done hdone => ?_
  obtain rfl := Except.ok.inj (Option.some.inj hdone)
  exact h

end Loop

/-! ## Trees whose parameters are answered -/

/-- The questions of the parameters of a tree, from some one on. -/
def questions (path : String) : Nat → List Location → List (Entry Caller)
  | _, [] => []
  | i, l :: rest => ⟨⟨0, i⟩, ⟨path, l⟩⟩ :: questions path (i + 1) rest

theorem param_of_mem_questions {path : String} {i : Nat} {locations : List Location}
    {e : Entry Caller} (h : e ∈ questions path i locations) : i ≤ e.caller.param := by
  induction locations generalizing i with
  | nil => cases h
  | cons l rest ih =>
    rcases List.mem_cons.1 h with rfl | h
    · exact Nat.le_refl i
    · exact Nat.le_of_succ_le (ih h)

/-- A later question is that of another parameter. -/
theorem caller_ne_of_mem_questions {path : String} {i : Nat} {locations : List Location}
    {e : Entry Caller} (h : e ∈ questions path (i + 1) locations) : e.caller ≠ ⟨0, i⟩ := by
  intro heq
  have hparam := param_of_mem_questions h
  rw [heq] at hparam
  exact absurd hparam (Nat.not_succ_le_self i)

theorem questions_append (path : String) (i : Nat) (front back : List Location) :
    questions path i (front ++ back) = questions path i front ++
      questions path (i + front.length) back := by
  induction front generalizing i with
  | nil => rfl
  | cons l front ih =>
    rw [List.cons_append, questions, questions, ih, List.length_cons,
      Nat.add_right_comm, Nat.add_assoc]
    rfl

/-- The questions are put one after the other; the first one is asked at once. -/
theorem Loop.foldl_puts {t : Toolchain} {s : Loop} {w : Walked} {front back : List Location}
    (hstages : s.stages = []) (hready : s.ready = started (questions w.options.path 0 front).head?)
    (hqueue : s.queue = ⟨(questions w.options.path 0 front).tail,
      (questions w.options.path 0 front).head?⟩)
    (hwalked : s.walked = [w]) (hlocations : w.locations = (front ++ back).map .ok) :
    ((List.range' front.length back.length).map fun i => .put ⟨0, i⟩).foldl (Loop.act t) s =
      let es := questions w.options.path 0 (front ++ back)
      { s with
        ready := started es.head?
        queue := ⟨es.tail, es.head?⟩
        waiting := s.waiting ++ (questions w.options.path front.length back).map (·.caller) } := by
  induction back generalizing front s with
  | nil =>
    simp [questions, ← hready, ← hqueue]
  | cons l back ih =>
    let e : Entry Caller := ⟨⟨0, front.length⟩, ⟨w.options.path, l⟩⟩
    have hlast : questions w.options.path 0 (front ++ [l]) =
        questions w.options.path 0 front ++ [e] := by
      rw [questions_append, Nat.zero_add]
      rfl
    have hplace : s.place? ⟨0, front.length⟩ = some (w.options, .ok l) :=
      place?_eq_some_iff.2 ⟨w, by rw [hwalked]; rfl, by simp [hlocations], rfl⟩
    let next : Loop := { s with
      ready := started (questions w.options.path 0 (front ++ [l])).head?
      queue := ⟨(questions w.options.path 0 (front ++ [l])).tail,
        (questions w.options.path 0 (front ++ [l])).head?⟩
      waiting := s.waiting ++ [⟨0, front.length⟩] }
    have hrun : s.run t (.put ⟨0, front.length⟩) = next := by
      rw [Loop.run, put, hplace]
      simp only [Loop.schedule, hready, hqueue, hlast, next]
      cases questions w.options.path 0 front <;> rfl
    rw [List.length_cons, List.range'_succ, List.map_cons, List.foldl_cons, act_of_run hrun hstages]
    have hlength : front.length + 1 = (front ++ [l]).length := by simp
    rw [hlength]
    refine (ih (s := next) hstages rfl rfl hwalked (by rw [hlocations, List.append_cons])).trans ?_
    simp [questions, next]

/-- A tree that waits, when the parameters before some of them have had their
answers. -/
def Walked.answering (o : FileOptions) (tree : Json) (hasJsx : Bool) (front : List Location)
    (given : List (Option Json)) (rest : List Location) : Walked :=
  { options := o, source := none, tree := tree, hasJsx := hasJsx,
    locations := (front ++ rest).map .ok, annotations := given ++ rest.map fun _ => none,
    missing := rest.length, waits := true }

/-- **What a parameter gets, and what is found with it**, given what was replied. -/
def Gets (t : Toolchain) (R : Replies) (o : FileOptions) (l : Location)
    (a : Option Json × List Finding) : Prop :=
  Inferred t R o (.ok l) ⟨a.2, .ok a.1⟩

/-- **How a tree is over**: each of its parameters has had its answer, in order. -/
def TreeOver (t : Toolchain) (o : FileOptions) (tree : Json) (found : List Finding)
    (locations : List Location) (done : Done) (findings : List Finding) (asked : List Query)
    (talk : Talk) : Prop :=
  ∃ given, List.Forall₂ (Gets t (talk.since .none) o) locations given ∧
    done = .tree (Migration.annotateWaiting o (given.map (·.1)) tree) ∧
    findings = found ++ given.flatMap (·.2) ∧
    asked = locations.map fun l => ⟨o.path, l⟩

section
variable {o : FileOptions} {tree : Json} {hasJsx : Bool} {front back : List Location}
  {given : List (Option Json × List Finding)} {l : Location}

/-- An answer is read while the next call is under way: the parameters in
`front` have had their answers, and `l` is the one whose answer is there. -/
structure Answering (t : Toolchain) (o : FileOptions) (tree : Json) (hasJsx : Bool)
    (found : List Finding) (front : List Location) (given : List (Option Json × List Finding))
    (l : Location) (back : List Location) (output : Option String) (s : Loop) : Prop where
  result : s.result = none
  alone : s.outstanding = none
  stages : s.stages = []
  ready : s.ready = Loop.started (questions o.path (front.length + 1) back).head? ++
    [.answer ⟨0, front.length⟩ output]
  answer : (s.talk.since .none).answer ⟨o.path, l⟩ output
  queue : s.queue = ⟨(questions o.path (front.length + 1) back).tail,
    (questions o.path (front.length + 1) back).head?⟩
  waiting : ∀ e ∈ questions o.path (front.length + 1) back, e.caller ∈ s.waiting
  walked : s.walked = [.answering o tree hasJsx front (given.map (·.1)) (l :: back)]
  gets : List.Forall₂ (Gets t (s.talk.since .none) o) front given
  findings : s.findings = found ++ given.flatMap (·.2)
  asked : s.asked = (front ++ [l]).map fun l => ⟨o.path, l⟩

/-- **What reading an answer leads to**: the parameter has what was inferred for
it, and the next call, if there is one, has been made meanwhile. -/
structure Reads (t : Toolchain) (o : FileOptions) (tree : Json) (hasJsx : Bool)
    (front : List Location) (given : List (Option Json × List Finding)) (l : Location)
    (back : List Location) (s : Loop) (r : Recorded (Option Json)) (output : Option String)
    (s' : Loop) : Prop where
  inferred : Inferred t (s'.talk.since .none) o (.ok l) r
  continues : s'.talk.Continues s.talk
  answer : ∀ e ∈ (questions o.path (front.length + 1) back).head?,
    (s'.talk.since .none).answer e.query output
  asked : s'.asked = s.asked ++
    (questions o.path (front.length + 1) back).head?.toList.map (·.query)
  same : s' = { s with
    ready := (questions o.path (front.length + 1) back).head?.toList.map (.callEnded · output) ++
      [.answered 0 r.refusal?]
    log := s'.log
    talk := s'.talk
    findings := s.findings ++ r.findings
    walked := [(Walked.answering o tree hasJsx front (given.map (·.1)) (l :: back)).given
      front.length r.result] }

namespace Answering

variable {t : Toolchain} {s : Loop} {found : List Finding} {output : Option String}
  (h : Answering t o tree hasJsx found front given l back output s)
include h

/-- The turn in which the answer is read. -/
theorem turn_reads :
    ∃ r output', Reads t o tree hasJsx front given l back s r output' (s.turn t) := by
  have hset (new : Walked) : s.walked.set 0 new = [new] := by rw [h.walked]; rfl
  have hstands : s.Stands ⟨0, front.length⟩
      (.answering o tree hasJsx front (given.map (·.1)) (l :: back)) (.ok l) :=
    ⟨by rw [h.walked]; rfl, by simp [Walked.answering]⟩
  cases hnext : (questions o.path (front.length + 1) back).head? with
  | none =>
    obtain ⟨r, talk, entries, ⟨type, htype, hr⟩, htalk, hnone, hact⟩ :=
      Loop.act_answer (t := t) (s := { s with ready := [] }) h.stages hstands output
    have hturn : s.turn t =
        Loop.act t { s with ready := [] } (.answer ⟨0, front.length⟩ output) := by
      rw [Loop.turn, h.ready, hnext]
      rfl
    rw [hturn, hact]
    exact ⟨r, none, {
      inferred := hr ▸ .answered (htalk.since_le.2 _ _ h.answer) htype
      continues := htalk
      answer := by simp [hnext]
      asked := by simp [Loop.asked, Loop.schedule, Loop.conclude, hnone, hnext]
      same := by simp [Loop.schedule, Loop.conclude, hset, hnext] }⟩
  | some e =>
    -- the next call is made first
    generalize hreply : t.ask s.talk e.query = reply
    have hasked : reply.2.Continues s.talk := hreply ▸ t.continues_ask ..
    have hreplied : (reply.2.since .none).answer e.query reply.1 :=
      hreply ▸ Toolchain.answer_ask s.talk.continues_none e.query
    let called : Loop := { s with
      ready := [.callEnded e reply.1], talk := reply.2, log := s.log ++ [.asked e.query] }
    have hcall : Loop.act t { s with ready := [] } (.call e) = called := by
      refine Loop.act_of_run ?_ h.stages
      rw [Loop.run, Loop.call, hreply]
      rfl
    obtain ⟨r, talk, entries, ⟨type, htype, hr⟩, htalk, hnone, hact⟩ :=
      Loop.act_answer (t := t) (s := called) h.stages hstands output
    have hturn : s.turn t = called.act t (.answer ⟨0, front.length⟩ output) := by
      rw [Loop.turn, h.ready, hnext, ← hcall]
      rfl
    rw [hturn, hact]
    exact ⟨r, reply.1, {
      inferred := hr ▸ .answered (htalk.since_le.2 _ _ (hasked.since_le.2 _ _ h.answer)) htype
      continues := htalk.trans hasked
      answer := by
        rw [hnext]
        rintro _ ⟨⟩
        exact htalk.since_le.2 _ _ hreplied
      asked := by
        simp [Loop.asked, Loop.schedule, Loop.conclude, called, hnone, hnext, LogEntry.asked?]
      same := by simp [Loop.schedule, Loop.conclude, called, hset, hnext] }⟩

variable {s' : Loop} {r : Recorded (Option Json)} {output' : Option String}

/-- If the parameter is refused, the tree comes to nothing. -/
theorem doomed {e : Refusal} (hreads : Reads t o tree hasJsx front given l back s r output' s')
    (hrefused : r.result = .error e) : Loop.Doomed s' := by
  have htold : r.refusal? = some e := Recorded.refusal?_of_result hrefused
  have hjobs : ∀ job ∈ s'.ready,
      (∃ e output, job = .callEnded e output) ∨ job = .answered 0 (some e) := by
    rw [hreads.same, htold]
    refine List.forall_mem_append.2 ⟨fun job hjob => ?_, List.forall_mem_singleton.2 (.inr rfl)⟩
    obtain ⟨e', -, rfl⟩ := List.mem_map.1 hjob
    exact .inl ⟨e', _, rfl⟩
  have hresult : s'.result = none := by rw [hreads.same]; exact h.result
  have halone : s'.outstanding = none := by rw [hreads.same]; exact h.alone
  have hstages : s'.stages = [] := by rw [hreads.same]; exact h.stages
  refine ⟨⟨_, fun done hdone => ?_, halone, by rw [hreads.same], fun job hjob => ?_, ?_⟩, ⟨e, ?_⟩,
    fun job hjob => ?_⟩
  · cases hresult.symm.trans hdone
  · rcases hjobs job hjob with ⟨e', output, rfl⟩ | rfl <;> trivial
  · rw [hstages]
    exact List.forall_mem_nil _
  · rw [hreads.same, htold]
    exact List.mem_append_right _ List.mem_cons_self
  · intro file hsame
    rcases hjobs job hjob with ⟨e', output, rfl⟩ | rfl <;> cases hsame

/-- The last answer. -/
theorem ends {a : Option Json} (hreads : Reads t o tree hasJsx front given l back s r output' s')
    (hback : back = []) (hgiven : r.result = .ok a) :
    Loop.Brings t (TreeOver t o tree found (front ++ [l])) s' := by
  subst hback
  have hlength := h.gets.length_eq
  have htold : r.refusal? = none := by rw [Recorded.refusal?, hgiven]
  have hfindings : s'.findings = s.findings ++ r.findings := by rw [hreads.same]
  refine .of_answered (by rw [hreads.same]; exact h.result) (by rw [hreads.same]; exact h.alone)
    (by rw [hreads.same]; exact h.stages) (by rw [hreads.same, htold]; rfl) (by rw [hreads.same])
    ?_ ?_ ?_ ?_
  · simp [Walked.answering]
  · simp [Walked.answering]
  · rw [hgiven]; rfl
  · have hlast : Gets t (s'.talk.since .none) o l (a, r.findings) := by
      rw [Gets, ← hgiven]
      exact hreads.inferred
    refine ⟨given ++ [(a, r.findings)], ?_, ?_, ?_, ?_⟩
    · exact List.rel_append (h.gets.imp fun _ _ h => h.mono hreads.continues.since_le)
        (.cons hlast .nil)
    · rw [hgiven]
      simp [Walked.answering, Walked.given, hlength]
    · rw [hfindings, h.findings]
      simp
    · rw [hreads.asked, h.asked]
      exact List.append_nil _

/-- **The next answer is there** two turns later. -/
theorem next {a : Option Json} {l' : Location} {back' : List Location}
    (hreads : Reads t o tree hasJsx front given l back s r output' s') (hback : back = l' :: back')
    (hgiven : r.result = .ok a) :
    Answering t o tree hasJsx found (front ++ [l]) (given ++ [(a, r.findings)]) l' back' output'
      (s'.turn t) := by
  subst hback
  have hlength := h.gets.length_eq
  have htold : r.refusal? = none := by rw [Recorded.refusal?, hgiven]
  let e : Entry Caller := ⟨⟨0, front.length + 1⟩, ⟨o.path, l'⟩⟩
  let es := questions o.path (front.length + 1 + 1) back'
  have hqueue : s'.queue = ⟨es, some e⟩ := by rw [hreads.same]; exact h.queue
  have hwaits : ∀ e' ∈ e :: es, e'.caller ∈ s'.waiting := by rw [hreads.same]; exact h.waiting
  have hready : s'.ready = [.callEnded e output', .answered 0 none] := by
    rw [hreads.same, htold]
    rfl
  have hstages : s'.stages = [] := by rw [hreads.same]; exact h.stages
  have hwalked : s'.walked = [(Walked.answering o tree hasJsx front (given.map (·.1))
      (l :: l' :: back')).given front.length (.ok a)] := by rw [hreads.same, hgiven]
  have hfindings : s'.findings = s.findings ++ r.findings := by rw [hreads.same]
  let heard : Loop := { s' with
    ready := Loop.started es.head? ++ [.answer e.caller output']
    queue := ⟨es.tail, es.head?⟩
    waiting := s'.waiting.filter (· ≠ e.caller) }
  have hheard : Loop.act t { s' with ready := [] } (.callEnded e output') = heard :=
    Loop.act_callEnded _ hstages hqueue (hwaits e List.mem_cons_self)
  have hturn : s'.turn t = { heard with walked := [.answering o tree hasJsx (front ++ [l])
      ((given ++ [(a, r.findings)]).map (·.1)) (l' :: back')] } := by
    rw [Loop.turn, hready, List.foldl_cons, List.foldl_cons, List.foldl_nil, hheard]
    refine (Loop.act_answered (s := heard) hstages hwalked (Walked.waits_given ..) ?_).trans ?_
    · simp [Walked.answering]
    · simp [Walked.answering, Walked.given, hlength]
  have hk : (front ++ [l]).length = front.length + 1 := by simp
  have hlast : Gets t (s'.talk.since .none) o l (a, r.findings) := by
    rw [Gets, ← hgiven]
    exact hreads.inferred
  rw [hturn]
  exact {
    result := by show s'.result = none; rw [hreads.same]; exact h.result
    alone := by show s'.outstanding = none; rw [hreads.same]; exact h.alone
    stages := hstages
    ready := by rw [hk]
    answer := hreads.answer e rfl
    queue := by rw [hk]
    waiting := fun e' he' => by
      rw [hk] at he'
      exact List.mem_filter.2 ⟨hwaits e' (List.mem_cons_of_mem _ he'),
        decide_eq_true (caller_ne_of_mem_questions he')⟩
    walked := rfl
    gets := List.rel_append (h.gets.imp fun _ _ h => h.mono hreads.continues.since_le)
      (.cons hlast .nil)
    findings := by
      show s'.findings = _
      rw [hfindings, h.findings]
      simp
    asked := by
      show s'.asked = _
      rw [hreads.asked, h.asked]
      simp [questions] }

end Answering

/-- **A tree that is being answered is over as said**, if it comes to something. -/
theorem Answering.brings {t : Toolchain} {s : Loop} {found : List Finding} {output : Option String}
    (h : Answering t o tree hasJsx found front given l back output s) :
    s.Brings t (TreeOver t o tree found (front ++ l :: back)) := by
  induction back generalizing front given l output s with
  | nil =>
    obtain ⟨r, output', hreads⟩ := h.turn_reads
    refine .of_next h.result ?_
    cases hr : r.result with
    | error e => exact (h.doomed hreads hr).brings
    | ok a => exact h.ends hreads rfl hr
  | cons l' back ih =>
    obtain ⟨r, output', hreads⟩ := h.turn_reads
    refine .of_next h.result ?_
    cases hr : r.result with
    | error e => exact (h.doomed hreads hr).brings
    | ok a =>
      refine .of_next (by rw [hreads.same]; exact h.result) ?_
      rw [List.append_cons]
      exact ih (h.next hreads rfl hr)

end

/-! ## The whole of it -/

/-- The loop in which a tree has just been walked: its parameters are to put
their questions. -/
def putting (files : Files) (o : FileOptions) (p : Migration.Progress)
    (tree : Json) (waits : Bool) :
    Loop :=
  { Loop.ofFiles files with
    ready := (List.range p.waiting.length).map fun i => .put ⟨0, i⟩
    walked := [.ofProgress o none p tree waits]
    findings := p.findings
    hasJsx := p.hasJsx }

section
variable {t : Toolchain} {s : Loop} {o : FileOptions} {tree : Json} {hasJsx : Bool}
  {found : List Finding} {locations : List (Result Location)}

theorem exists_map_ok {α : Type} (rs : List (Result α)) :
    (∃ as : List α, rs = as.map .ok) ∨ ∃ i < rs.length, ∃ e, rs[i]? = some (.error e) := by
  induction rs with
  | nil => exact .inl ⟨[], rfl⟩
  | cons r rs ih =>
    cases r with
    | error e => exact .inr ⟨0, Nat.zero_lt_succ _, e, rfl⟩
    | ok a =>
      rcases ih with ⟨as, rfl⟩ | ⟨i, hi, he⟩
      · exact .inl ⟨a :: as, rfl⟩
      · exact .inr ⟨i + 1, Nat.succ_lt_succ hi, he⟩

/-- In such a loop nothing brings anything while the tree does not wait. -/
theorem fruitless_putting (files : Files) (o : FileOptions) (p : Migration.Progress) (tree : Json)
    (waits : Bool) : (putting files o p tree waits).Fruitless
      (.ofProgress o none p tree waits) := by
  refine ⟨fun done hdone => (by cases hdone), rfl, rfl, fun job hjob => ?_, List.forall_mem_nil _⟩
  obtain ⟨i, -, rfl⟩ := List.mem_map.1 hjob
  trivial

/-- The first answer is there three turns after the questions are to be put. -/
theorem putting_answering {files : Files} {p : Migration.Progress} {l : Location}
    {back : List Location} (hplaces : p.waiting = (l :: back).map .ok) :
    let s := putting files o p tree true
    (s.turn t).result = none ∧ ((s.turn t).turn t).result = none ∧
      ∃ output, Answering t o tree p.hasJsx p.findings [] [] l back output
        (((s.turn t).turn t).turn t) := by
  intro s
  let e : Entry Caller := ⟨⟨0, 0⟩, ⟨o.path, l⟩⟩
  let es := questions o.path 1 back
  let put : Loop := { s with
    ready := [.call e]
    queue := ⟨es, some e⟩
    waiting := (questions o.path 0 (l :: back)).map (·.caller) }
  have hput : s.turn t = put := by
    have hnone : ({ s with ready := [] } : Loop).ready =
      Loop.started (questions o.path 0 []).head? := rfl
    have hqueue : s.queue =
      ⟨(questions o.path 0 []).tail, (questions o.path 0 []).head?⟩ := rfl
    have hlocations : (Walked.ofProgress o none p tree true).locations =
        ([] ++ l :: back).map .ok :=
      hplaces
    have hready : s.ready = (List.range' 0 (l :: back).length).map fun i => .put ⟨0, i⟩ := by
      show (List.range p.waiting.length).map _ = _
      rw [hplaces, List.length_map, List.range_eq_range']
    rw [Loop.turn, hready]
    exact Loop.foldl_puts (s := { s with ready := [] }) rfl hnone hqueue rfl hlocations
  generalize hreply : t.ask s.talk e.query = reply
  have hreplied : (reply.2.since .none).answer e.query reply.1 :=
    hreply ▸ Toolchain.answer_ask s.talk.continues_none e.query
  let called : Loop := { put with
    ready := [.callEnded e reply.1]
    talk := reply.2
    log := [.asked e.query] }
  have hcalled : put.turn t = called := by
    have hcall : Loop.act t { put with ready := [] } (.call e) = called := by
      refine Loop.act_of_run ?_ rfl
      rw [Loop.run, Loop.call, hreply]
      rfl
    exact hcall
  have hcaller : e.caller ∈ called.waiting := List.mem_cons_self
  have hended : called.turn t = { called with
      ready := Loop.started es.head? ++ [.answer e.caller reply.1]
      queue := ⟨es.tail, es.head?⟩
      waiting := called.waiting.filter (· ≠ e.caller) } :=
    Loop.act_callEnded (t := t) (s := { called with ready := [] }) _ rfl rfl hcaller
  rw [hput, hcalled, hended]
  exact ⟨rfl, rfl, reply.1, {
    result := rfl
    alone := rfl
    stages := rfl
    ready := rfl
    answer := hreplied
    queue := rfl
    waiting := fun e' he' => List.mem_filter.2 ⟨List.mem_map_of_mem (List.mem_cons_of_mem _ he'),
      decide_eq_true (caller_ne_of_mem_questions he')⟩
    walked := by
      show [Walked.ofProgress o none p tree true] = _
      rw [Walked.ofProgress, hplaces, List.map_map, List.length_map]
      rfl
    gets := .nil
    findings := (List.append_nil _).symm
    asked := rfl }⟩

/-- **What comes of a tree whose parameters put their questions.** -/
theorem putting_brings {files : Files} {p : Migration.Progress} (hsome : p.waiting ≠ []) :
    (putting files o p tree true).Brings t fun done findings asked talk =>
      ∃ places, p.waiting = places.map .ok ∧
        TreeOver t o tree p.findings places done findings asked talk := by
  refine .of_next rfl ?_
  rcases exists_map_ok p.waiting with ⟨places, hplaces⟩ | ⟨i, hi, he⟩
  · cases places with
    | nil => exact absurd hplaces hsome
    | cons l back =>
      obtain ⟨hasked, hended, output, hanswering⟩ := putting_answering (t := t) (o := o) hplaces
      refine .of_next hasked (.of_next hended ?_)
      exact fun n done hdone => ⟨l :: back, hplaces, hanswering.brings n done hdone⟩
  · exact (Loop.doomed_of_puts (fruitless_putting files o p tree true).emptied rfl
      (List.forall_mem_nil _) (.inr ⟨i, List.mem_range.2 hi, he⟩)).brings

/-- A loop in which a tree begins. -/
def treeLoop (files : Files) (o : FileOptions) (tree : Json) : Loop :=
  (Loop.ofFiles files).schedule [.start (.tree o tree)]

theorem exists_alone_eq_turns (files : Files) (o : FileOptions) (tree : Json) : ∃ n,
    (Loop.ofFiles files).alone t (.tree o tree) = Loop.turns t n (treeLoop files o tree) :=
  ⟨_, Loop.turns_turns _ 2 (treeLoop files o tree)⟩

/-- The first turn walks the tree. -/
theorem turn_treeLoop (files : Files) (o : FileOptions) (tree : Json) :
    (treeLoop files o tree).turn t =
      match Migration.rewriteTree o tree with
      | (.error e, p) => (putting files o p tree false).settle o.path (.error (.refused e))
      | (.ok rewritten, p) =>
        if p.waiting.isEmpty then (putting files o p rewritten false).settle o.path
          (.ok (.tree (Migration.annotateWaiting o [] rewritten)))
        else putting files o p rewritten true := by
  have hturn : (treeLoop files o tree).turn t
      = Loop.act t (Loop.ofFiles files) (.start (.tree o tree)) := rfl
  have hbegin (p : Migration.Progress) (tree : Json) (waits : Bool) (next : Option Job) :
      (Loop.ofFiles files).begin ⟨p.findings, .ofProgress o none p tree waits, next⟩
        = { putting files o p tree waits with stages := next.toList } := by
    simp [Loop.begin, putting, Loop.ofFiles, Loop.callers, Walked.ofProgress, Function.comp_def]
  have hrun : (Loop.ofFiles files).run t (.start (.tree o tree))
      = (Loop.ofFiles files).begin (.ofTree o none tree) := rfl
  rw [hturn]
  rw [Beginning.ofTree] at hrun
  rcases hrewritten : Migration.rewriteTree o tree with ⟨e | rewritten, p⟩
  · rw [hrewritten] at hrun
    have hentered : (Loop.ofFiles files).run t (.start (.tree o tree))
        = (putting files o p tree false).enter (.settle o.path (.error (.refused e))) :=
      hrun.trans (hbegin p tree false _)
    exact Loop.act_of_enter hentered rfl rfl rfl
  · rw [hrewritten] at hrun
    dsimp only at hrun ⊢
    split
    next hempty =>
      rw [hempty] at hrun
      have hannotated : (Walked.ofProgress o none p rewritten false).onward
          = .settle o.path (.ok (.tree (Migration.annotateWaiting o [] rewritten))) := by
        rw [Walked.onward, Walked.ofProgress, List.isEmpty_iff.1 hempty]
        rfl
      have hentered : (Loop.ofFiles files).run t (.start (.tree o tree))
          = (putting files o p rewritten false).enter
            (.settle o.path (.ok (.tree (Migration.annotateWaiting o [] rewritten)))) := by
        rw [← hannotated]
        exact hrun.trans (hbegin p rewritten false _)
      exact Loop.act_of_enter hentered rfl rfl rfl
    next hsome =>
      rw [Bool.not_eq_true] at hsome
      rw [hsome] at hrun
      exact Loop.act_of_run (hrun.trans (hbegin ..)) rfl

/-- **What comes of a tree by itself**: if it comes to something, then it was
walked, and each parameter that waits then has its answer, in order. -/
theorem alone_over {files : Files} {tree : Json} {done : Done}
    (h : ((Loop.ofFiles files).alone t (.tree o tree)).result = some (.ok done)) :
    ∃ rewritten p places, Migration.rewriteTree o tree = (.ok rewritten, p) ∧
      p.waiting = places.map .ok ∧
      TreeOver t o rewritten p.findings places done
        ((Loop.ofFiles files).alone t (.tree o tree)).findings
        ((Loop.ofFiles files).alone t (.tree o tree)).asked
        ((Loop.ofFiles files).alone t (.tree o tree)).talk := by
  obtain ⟨n, hn⟩ := exists_alone_eq_turns (t := t) files o tree
  rw [hn] at h ⊢
  refine (?_ : (treeLoop files o tree).Brings t fun done findings asked talk =>
    ∃ rewritten p places, Migration.rewriteTree o tree = (.ok rewritten, p) ∧
      p.waiting = places.map .ok ∧
      TreeOver t o rewritten p.findings places done findings asked talk) n done h
  refine .of_next rfl ?_
  rw [turn_treeLoop]
  rcases hrun : Migration.rewriteTree o tree with ⟨e | rewritten, p⟩
  · exact Loop.Lost.brings ⟨_, (fruitless_putting files o p tree false).settle _ _, rfl⟩
  · dsimp only
    split
    next hempty =>
      have hnone := List.isEmpty_iff.1 hempty
      have hsettled : (putting files o p rewritten false).settle o.path
          (.ok (.tree (Migration.annotateWaiting o [] rewritten))) =
        { putting files o p rewritten false with
          ready := [.stop]
          result := some (.ok (.tree (Migration.annotateWaiting o [] rewritten))) } := by
        simp [Loop.settle, putting, Loop.schedule, hnone, Loop.ofFiles, Loop.record, Loop.skips]
      rw [hsettled]
      refine .of_stop rfl rfl fun done hdone =>
        ⟨rewritten, p, [], rfl, hnone, [], .nil, ?_, ?_, rfl⟩
      · exact (Except.ok.inj (Option.some.inj hdone)).symm
      · exact (List.append_nil _).symm
    next hsome =>
      refine fun n done hdone => ?_
      obtain ⟨places, hplaces, hover⟩ := putting_brings (by simpa using hsome) n done hdone
      exact ⟨rewritten, p, places, rfl, hplaces, hover⟩

end

end Retype.Batch
