import Mathlib.Algebra.GroupWithZero.Nat
import Mathlib.Algebra.Order.BigOperators.Group.List
import Mathlib.Algebra.Order.Group.Nat
import Retype.Proofs.Batch.Interleaving
/-!
# The turns of the loop suffice

The loop takes no more turns than a bound says that is computed beforehand. What
a job makes to do is less than what there was to do for it (`run_makes`): the
stages that it enters have fewer stages before them, so that a turn leaves no
stage; a batch and its files begin in turns of their own, so that two turns walk
every file; and from then on there is less to do with each job. So the loop stops
in time, or has nothing left to do (`untilStopped_rests`).
-/

namespace Retype.Batch

open Inference (Queue Entry)
open Migration (FileOptions)

namespace Job

/-- How many stages a file has before it until it is walked. -/
def unwalked : Job → Nat
  | openBatch paths => 3 * paths.length + 1
  | start _ => 3
  | parse .. => 2
  | walk .. => 1
  | _ => 0

/-- How many turns there are until the files are walked that a job begins. -/
def lead : Job → Nat
  | openBatch _ => 2
  | start _ => 1
  | _ => 0

/-- A file goes through one stage at least from a job on. -/
theorem depth_pos (job : Job) : 0 < job.depth := by
  unfold depth
  split <;> decide

/-- There is something to do for every job. -/
theorem effort_pos (job : Job) : 0 < job.effort := by
  unfold effort
  split <;> decide

/-- The total over some jobs is a sum. -/
@[simp]
theorem total_eq_sum (f : Job → Nat) (jobs : List Job) : total f jobs = (jobs.map f).sum :=
  List.foldr_map.symm

end Job

/-! ## What a job makes to do -/

section
variable {q q' : Queue Caller} {e : Entry Caller} {next : Option (Entry Caller)}

/-- A question that is put is called or waits for its turn. -/
theorem length_pending_submit (h : q.submit e = (q', next)) :
    q'.pending.length + next.toList.length = q.pending.length + 1 := by
  obtain ⟨pending, active⟩ := q
  cases active with
  | some a =>
    obtain ⟨rfl, rfl⟩ := Prod.mk.inj h
    simp
  | none => cases pending <;> (obtain ⟨rfl, rfl⟩ := Prod.mk.inj h; simp)

/-- When a call ends, the call that starts was waiting. -/
theorem length_pending_finish (h : q.finish = (q', next)) :
    q'.pending.length + next.toList.length = q.pending.length := by
  obtain ⟨pending, active⟩ := q
  cases pending <;> (obtain ⟨rfl, rfl⟩ := Prod.mk.inj h; simp)

end

namespace Loop

/-- How many stages files have before them until they are walked. -/
def unwalked (s : Loop) : Nat := ((s.ready ++ s.stages).map Job.unwalked).sum

/-- **What a job makes to do**: the loop that it leaves, if nothing else was to
be done, has fewer stages to go through than the job, begins what the job begins
in a turn of its own, and has less to do. -/
structure Makes (s : Loop) (job : Job) (s' : Loop) : Prop where
  depth : (s'.stages.map Job.depth).sum < job.depth
  lead : ∀ next ∈ s'.ready, next.lead ≤ job.lead - 1 ∧ (next.lead = 0 → next.unwalked = 0)
  potential : s'.unwalked < job.unwalked ∨ s'.unwalked = job.unwalked ∧
    s'.effort < job.effort + Job.queued * s.queue.pending.length

variable {s s' : Loop} {job next : Job}

/-- A job that enters a stage. -/
theorem Makes.of_enter (hready : s'.ready = []) (hstages : s'.stages = [next])
    (hqueue : s'.queue = s.queue) (hdepth : next.depth < job.depth)
    (h : next.unwalked < job.unwalked ∨
      next.unwalked = job.unwalked ∧ next.effort < job.effort) : Makes s job s' where
  depth := by simpa [hstages] using hdepth
  lead := by simp [hready]
  potential := by simpa [unwalked, effort, hready, hstages, hqueue] using h

/-- A job that makes another one ready, which begins nothing. -/
theorem Makes.of_schedule (hready : s'.ready = [next]) (hstages : s'.stages = [])
    (hqueue : s'.queue = s.queue) (hlead : next.lead = 0) (hnext : next.unwalked = 0)
    (h : job.unwalked = 0 → next.effort < job.effort) : Makes s job s' where
  depth := by simpa [hstages] using job.depth_pos
  lead := by simp [hready, hlead, hnext]
  potential := by
    rcases Nat.eq_zero_or_pos job.unwalked with hzero | hpos
    · exact .inr (by simpa [unwalked, effort, hready, hstages, hqueue, hzero, hnext] using h hzero)
    · exact .inl (by simpa [unwalked, hready, hstages, hnext] using hpos)

/-- A job that makes nothing to do. -/
theorem Makes.of_nothing (hready : s'.ready = []) (hstages : s'.stages = [])
    (hqueue : s'.queue = s.queue) : Makes s job s' where
  depth := by simpa [hstages] using job.depth_pos
  lead := by simp [hready]
  potential := by
    rcases Nat.eq_zero_or_pos job.unwalked with hzero | hpos
    · exact .inr (by simpa [unwalked, effort, hready, hstages, hqueue, hzero] using job.effort_pos)
    · exact .inl (by simpa [unwalked, hready, hstages] using hpos)

variable (t : Toolchain) (s)

/-- To settle a file is little to do. -/
theorem settle_small (path : String) (r : Except Failure Done) :
    (Job.settle path r).depth < 3 ∧ (Job.settle path r).effort < 6 := by
  cases r <;> simp [Job.depth, Job.effort]

/-- Settling a file makes no work that was not counted. -/
theorem settle_makes (path : String) (r : Except Failure Done) :
    Makes s (.settle path r) (s.calm.settle path r) := by
  have heffort : 3 < (Job.settle path r).effort := by cases r <;> simp [Job.effort]
  have hover : ∀ e (s' : Loop), s'.queue = s.queue → s'.ready = [] → s'.stages = [] →
      Makes s (.settle path r) (s'.finishFile path e) := fun e s' hqueue hready hstages => by
    have hnext : (s'.finishFile path e).ready = [.fileOver] := by
      simp [finishFile, schedule, hready]
    exact .of_schedule hnext hstages hqueue rfl rfl
      fun _ => Nat.lt_of_le_of_lt (by decide) heffort
  unfold settle
  split
  next =>
    rcases r with cause | (tree | m | _)
    · exact hover _ s.calm rfl rfl rfl
    · exact hover _ s.calm rfl rfl rfl
    · unfold settleFile
      dsimp only
      split
      next files _ => exact hover _ { s.calm with files := files } rfl rfl rfl
      next => exact .of_enter rfl rfl rfl (by simp [Job.depth]) (.inr ⟨rfl, by simp [Job.effort]⟩)
    · exact hover _ s.calm rfl rfl rfl
  next =>
    have hnext : ({ s.calm.record (skips path r) with result := some r }.schedule [.stop]).ready
        = [.stop] := rfl
    exact .of_schedule hnext rfl rfl rfl rfl fun _ => Nat.lt_of_le_of_lt (by decide) heffort

/-- What follows the reading of a file has fewer stages and less to walk. -/
theorem afterReading_makes (path : String) (r : Except Failure (Option String)) :
    (afterReading path r).depth < 6 ∧ (afterReading path r).unwalked < 3 := by
  rcases r with cause | (_ | source) <;> simp [afterReading, Job.depth, Job.unwalked]

/-- So is what follows the parsing. -/
theorem afterParsing_makes (path source : String) (r : Except Failure Json) :
    (afterParsing path source r).depth < 5 ∧ (afterParsing path source r).unwalked < 2 := by
  cases r <;> simp [afterParsing, Job.depth, Job.unwalked]

/-- A file that does not wait any more is printed or settled. -/
theorem conclusion_makes (w : Walked) (failure : Option Refusal) :
    (w.conclusion failure).depth < 4 ∧
    (w.conclusion failure).unwalked = 0 ∧ (w.conclusion failure).effort < 7 := by
  cases failure with
  | some e => simp [Walked.conclusion, Job.depth, Job.unwalked, Job.effort]
  | none =>
    unfold Walked.conclusion Walked.onward
    cases w.source <;> simp [Job.depth, Job.unwalked, Job.effort]

/-- What is next for a file that was walked. -/
theorem next_makes {o : FileOptions} {source : Option String} {b : Beginning}
    (h : Begins o source b) : ∀ job ∈ b.next, job.depth < 4 ∧ job.unwalked = 0 := by
  intro job hjob
  cases h with
  | refused =>
    obtain rfl := Option.some.inj hjob
    exact ⟨by simp [Job.depth], rfl⟩
  | settled =>
    obtain rfl := Option.some.inj hjob
    obtain ⟨hdepth, hunwalked, -⟩ := conclusion_makes (Walked.ofProgress ..) none
    exact ⟨hdepth, hunwalked⟩
  | waiting => cases hjob

/-- A job in which a tree is walked. -/
theorem begin_makes {o : FileOptions} {source : Option String} {b : Beginning}
    (h : Begins o source b) (hdepth : 4 ≤ job.depth) (hwalk : 0 < job.unwalked) :
    Makes s job (s.calm.begin b) := by
  have hputs : ∀ next ∈ (s.calm.callers b.walked.locations.length).map Job.put,
      next.lead = 0 ∧ next.unwalked = 0 := fun next hnext => by
    obtain ⟨c, -, rfl⟩ := List.mem_map.1 hnext
    exact ⟨rfl, rfl⟩
  have hunwalked : (s.calm.begin b).unwalked = 0 := by
    refine List.sum_eq_zero fun n hn => ?_
    obtain ⟨next, hnext, rfl⟩ := List.mem_map.1 hn
    rcases List.mem_append.1 hnext with hnext | hnext
    · exact (hputs next (by simpa [begin, calm] using hnext)).2
    · exact (next_makes h next (by simpa [begin, calm] using hnext)).2
  refine ⟨?_, fun next hnext => ?_, .inl (hunwalked ▸ hwalk)⟩
  · cases hnext : b.next with
    | none => simpa [begin, calm, hnext] using Nat.lt_of_lt_of_le (by decide) hdepth
    | some next =>
      simpa [begin, calm, hnext] using Nat.lt_of_lt_of_le (next_makes h next hnext).1 hdepth
  · obtain ⟨hlead, hzero⟩ := hputs next (by simpa [begin, calm] using hnext)
    exact ⟨hlead ▸ Nat.zero_le _, fun _ => hzero⟩

/-- A parameter that gets its annotation tells its file. -/
theorem infer_makes {s' : Loop} (c : Caller) (type : Option Json) (hready : s'.ready = [])
    (hstages : s'.stages = []) (hqueue : s'.queue = s.queue) (h : 8 < job.effort) :
    Makes s job (s'.infer c type) := by
  have heffort : ∀ failure, (Job.answered c.file failure).effort < job.effort := fun _ => h
  unfold infer
  split
  · dsimp only
    split <;> exact .of_schedule (by simp [schedule, record, annotate, hready]; rfl) hstages hqueue
      rfl rfl fun _ => heffort _
  · exact .of_nothing hready hstages hqueue

/-- A job that starts a call, if there is one, and sends an answer on its way, if
there is one. -/
theorem started_makes {s' : Loop} (call : Option (Entry Caller)) (answer : Option Job)
    (hready : s'.ready = started call ++ answer.toList) (hstages : s'.stages = [])
    (hjob : job.unwalked = 0)
    (hanswer : ∀ next ∈ answer, next.lead = 0 ∧ next.unwalked = 0 ∧ next.effort = 10)
    (h : 10 * answer.toList.length + 12 * call.toList.length
        + Job.queued * s'.queue.pending.length
      < job.effort + Job.queued * s.queue.pending.length) : Makes s job s' := by
  have hmade : ∀ next ∈ s'.ready, next.lead = 0 ∧ next.unwalked = 0 := by
    rw [hready]
    refine List.forall_mem_append.2 ⟨fun next hnext => ?_, fun next hnext => ?_⟩
    · cases call with
      | none => cases hnext
      | some e => exact List.mem_singleton.1 hnext ▸ ⟨rfl, rfl⟩
    · obtain ⟨hlead, hunwalked, -⟩ := hanswer next (Option.mem_toList.1 hnext)
      exact ⟨hlead, hunwalked⟩
  have hunwalked : s'.unwalked = 0 := by
    rw [unwalked, hstages, List.append_nil]
    refine List.sum_eq_zero fun n hn => ?_
    obtain ⟨next, hnext, rfl⟩ := List.mem_map.1 hn
    exact (hmade next hnext).2
  have heffort : s'.effort = 10 * answer.toList.length + 12 * call.toList.length
      + Job.queued * s'.queue.pending.length := by
    rw [effort, Job.total_eq_sum, hstages, List.append_nil, hready]
    have hcall : ∀ e, (Job.call e).effort = 12 := fun _ => rfl
    cases call <;> cases answer with
    | none => rfl
    | some next => simp [started, hcall, (hanswer next rfl).2.2]
  exact ⟨by simpa [hstages] using job.depth_pos,
    fun next hnext => ⟨(hmade next hnext).1 ▸ Nat.zero_le _, fun _ => (hmade next hnext).2⟩,
    .inr ⟨hunwalked.trans hjob.symm, heffort ▸ h⟩⟩

/-- A batch that begins. -/
theorem openBatch_makes (paths : List String) :
    Makes s (.openBatch paths) (s.calm.openBatch paths) := by
  unfold openBatch
  split
  next => exact .of_schedule rfl rfl rfl rfl rfl (by simp [Job.effort, Job.unwalked])
  next =>
    refine ⟨by simp [schedule, calm, Job.depth], fun next hnext => ?_, .inl ?_⟩
    · obtain ⟨path, -, rfl⟩ := List.mem_map.1 hnext
      exact ⟨Nat.le_refl 1, by simp [Job.lead]⟩
    · simp [unwalked, schedule, calm, Function.comp_def, Job.unwalked, Nat.mul_comm]

/-- **What each job makes to do.** -/
theorem run_makes (job : Job) : Makes s job (s.calm.run t job) := by
  cases job with
  | openBatch paths => exact openBatch_makes s paths
  | start work =>
    cases work with
    | tree o tree =>
      exact begin_makes s (Beginning.begins ..) (by simp [Job.depth]) (by simp [Job.unwalked])
    | file path =>
      obtain ⟨hdepth, hunwalked⟩ := afterReading_makes path (t.readSource s.files path)
      exact .of_enter rfl rfl rfl hdepth (.inl hunwalked)
  | parse path source =>
    obtain ⟨hdepth, hunwalked⟩ := afterParsing_makes path source
      (t.parsed (t.request s.talk (Bridge.parseRequest source)).1)
    exact .of_enter rfl rfl rfl hdepth (.inl hunwalked)
  | walk path source tree =>
    exact begin_makes s (Beginning.begins ..) (by simp [Job.depth]) (by simp [Job.unwalked])
  | print path source tree hasJsx =>
    exact .of_enter rfl rfl rfl (settle_small ..).1 (.inr ⟨rfl, (settle_small ..).2⟩)
  | settle path r => exact settle_makes s path r
  | put c =>
    rw [run, put]
    split
    · exact .of_nothing rfl rfl rfl
    · exact .of_schedule rfl rfl rfl rfl rfl (by simp [Job.effort, Job.unwalked])
    next o location _ =>
      have hlength : _ = s.queue.pending.length + 1 := length_pending_submit
        (Prod.eta (s.calm.queue.submit ⟨c, ⟨o.path, location⟩⟩)).symm
      refine started_makes s (s.calm.queue.submit ⟨c, ⟨o.path, location⟩⟩).2 none
        (List.append_nil _).symm rfl rfl (by simp) ?_
      have hput : (Job.put c).effort = 14 ∧ Job.queued = 13 := ⟨rfl, rfl⟩
      dsimp only [schedule]
      rw [hput.1, hput.2, Option.toList_none, List.length_nil]
      omega
  | call e => exact .of_schedule rfl rfl rfl rfl rfl (by simp [Job.effort, Job.unwalked])
  | giveUp e => exact .of_schedule rfl rfl rfl rfl rfl (by simp [Job.effort, Job.unwalked])
  | callEnded e output =>
    have hlength : _ = s.queue.pending.length :=
      length_pending_finish (Prod.eta s.calm.queue.finish).symm
    rw [run, callEnded]
    dsimp only
    have hended : (Job.callEnded e output).effort = 11 ∧ Job.queued = 13 := ⟨rfl, rfl⟩
    split
    · refine started_makes s s.calm.queue.finish.2 (some (.answer e.caller output)) rfl rfl rfl
        ?_ ?_
      · rintro _ ⟨⟩
        exact ⟨rfl, rfl, rfl⟩
      · dsimp only [schedule]
        rw [hended.1, hended.2, Option.toList_some, List.length_singleton]
        omega
    · refine started_makes s s.calm.queue.finish.2 none (List.append_nil _).symm rfl rfl
        (by simp) ?_
      dsimp only [schedule]
      rw [hended.1, hended.2, Option.toList_none, List.length_nil]
      omega
  | answer c output =>
    rw [run, answer]
    split
    · exact .of_enter rfl rfl rfl (by simp [Job.depth]) (.inr ⟨rfl, by simp [Job.effort]⟩)
    · exact infer_makes s c none rfl rfl rfl (by simp [Job.effort])
  | parseType c text =>
    exact infer_makes s c _ rfl rfl rfl (by simp [Job.effort])
  | answered file failure =>
    rw [run, answered]
    split
    · exact .of_nothing rfl rfl rfl
    · dsimp only
      split_ifs
      · exact .of_schedule rfl rfl rfl rfl rfl (by simp [Job.effort, Job.unwalked])
      · exact .of_nothing rfl rfl rfl
      · exact .of_nothing rfl rfl rfl
  | resume file failure =>
    rw [run, resume]
    split
    · exact .of_nothing rfl rfl rfl
    next w _ =>
      obtain ⟨hdepth, hunwalked, heffort⟩ := conclusion_makes w failure
      exact .of_enter rfl rfl rfl (Nat.lt_trans hdepth (by simp [Job.depth]))
        (.inr ⟨hunwalked, heffort⟩)
  | fileOver =>
    rw [run, fileOver]
    split_ifs
    · exact .of_schedule rfl rfl rfl rfl rfl (by simp [Job.effort, Job.unwalked])
    · exact .of_nothing rfl rfl rfl
  | batchOver => exact .of_schedule rfl rfl rfl rfl rfl (by simp [Job.effort, Job.unwalked])
  | stop => exact .of_nothing rfl rfl rfl

/-! ## What a turn does -/

/-- **How far the files are** while a turn goes on: what is ready then begins
files in that many turns at most, and no stage begins any. -/
structure Ahead (n : Nat) (s : Loop) : Prop where
  ready : ∀ job ∈ s.ready, job.lead ≤ n ∧ (job.lead = 0 → job.unwalked = 0)
  stages : ∀ job ∈ s.stages, job.lead = 0

variable {s}

/-- A job of fewer than six stages begins no file. -/
theorem lead_of_depth (h : job.depth < 6) : job.lead = 0 := by
  cases job <;> first | rfl | exact absurd h (Nat.lt_irrefl _)

/-- No job has more than six stages. -/
theorem depth_le (job : Job) : job.depth ≤ 6 := by
  unfold Job.depth
  split <;> decide

section
variable {n : Nat} (h : Ahead n s)
include h

/-- A loop that is ahead stays so when a job is run. -/
theorem Ahead.run (hjob : job.lead ≤ n + 1) : Ahead n (s.run t job) := by
  have hmakes := run_makes s t job
  rw [run_eq]
  refine ⟨List.forall_mem_append.2 ⟨h.ready, fun next hnext => ?_⟩,
    List.forall_mem_append.2 ⟨h.stages, fun next hnext => lead_of_depth ?_⟩⟩
  · obtain ⟨hlead, hunwalked⟩ := hmakes.lead next hnext
    exact ⟨by omega, hunwalked⟩
  · have hsum := List.single_le_sum (fun _ _ => Nat.zero_le _) _
      (List.mem_map_of_mem (f := Job.depth) hnext)
    exact Nat.lt_of_le_of_lt hsum (Nat.lt_of_lt_of_le hmakes.depth (depth_le job))

/-- It stays so when files go through their stages. -/
theorem Ahead.join (k : Nat) : Ahead n (s.join t k) := by
  induction k generalizing s with
  | zero => exact h
  | succ k ih =>
    rw [Loop.join]
    split
    · exact h
    next job rest hstages =>
      have hlead := h.stages job (hstages ▸ List.mem_cons_self)
      have hrest : Ahead n { s with stages := rest } :=
        ⟨h.ready, fun next hnext => h.stages next (hstages ▸ List.mem_cons_of_mem _ hnext)⟩
      exact ih (hrest.run t (hlead ▸ Nat.zero_le _))

end

/-- **Enough steps leave no stage.** -/
theorem stages_join {n : Nat} (h : (s.stages.map Job.depth).sum ≤ n) :
    (s.join t n).stages = [] := by
  induction n generalizing s with
  | zero =>
    cases hstages : s.stages with
    | nil => exact hstages
    | cons job rest =>
      have hpos : 0 < job.depth := Nat.zero_lt_of_lt (run_makes s t job).depth
      rw [hstages, List.map_cons, List.sum_cons] at h
      omega
  | succ n ih =>
    rw [join]
    split
    next hstages => exact hstages
    next job rest hstages =>
      refine ih ?_
      have hmakes := (run_makes { s with stages := rest } t job).depth
      rw [hstages, List.map_cons, List.sum_cons] at h
      rw [run_eq]
      simp only [behind, List.map_append, List.sum_append]
      omega

/-- No stage is left over after a job. -/
theorem stages_act : (s.act t job).stages = [] := stages_join t (Job.total_eq_sum ..).ge

/-- Nor after a whole turn's jobs. -/
theorem stages_foldl (hstages : s.stages = []) (jobs : List Job) :
    (jobs.foldl (act t) s).stages = [] := by
  induction jobs generalizing s with
  | nil => exact hstages
  | cons job rest ih => exact ih (stages_act t)

/-- A turn leaves no stage. -/
theorem stages_turn (hstages : s.stages = []) : (s.turn t).stages = [] :=
  stages_foldl t (s := { s with ready := [] }) hstages s.ready

/-- Nor after any number of turns. -/
theorem stages_turns (hstages : s.stages = []) (n : Nat) : (turns t n s).stages = [] := by
  induction n generalizing s with
  | zero => exact hstages
  | succ n ih =>
    rw [turns]
    split
    · exact hstages
    · exact ih (stages_turn t hstages)

/-- Nor when the loop stops. -/
theorem stages_untilStopped (hstages : s.stages = []) : (s.untilStopped t).stages = [] :=
  stages_turns t (stages_turns t (s := { s with stopped := false }) hstages 2) _

/-- A loop that is ahead stays so through a turn's jobs. -/
theorem Ahead.foldl {n : Nat} (h : Ahead n s) {jobs : List Job}
    (hjobs : ∀ job ∈ jobs, job.lead ≤ n + 1) :
    Ahead n (jobs.foldl (act t) s) := by
  induction jobs generalizing s with
  | nil => exact h
  | cons job rest ih =>
    rw [List.forall_mem_cons] at hjobs
    exact ih ((h.run t hjobs.1).join t _) hjobs.2

/-- **A turn brings the files a turn further.** -/
theorem Ahead.turn {n : Nat} (hready : ∀ job ∈ s.ready, job.lead ≤ n + 1)
    (hstages : s.stages = []) :
    Ahead n (s.turn t) := by
  refine Ahead.foldl t (s := { s with ready := [] }) ⟨List.forall_mem_nil _, ?_⟩ hready
  rw [hstages]
  exact List.forall_mem_nil _

/-! ## How much there is to do -/

/-- What a job leaves to do in a loop in which all files have been walked. -/
theorem effort_run (hs : s.unwalked = 0) (hjob : job.unwalked = 0) :
    (s.run t job).unwalked = 0 ∧ (s.run t job).effort < job.effort + s.effort := by
  rcases (run_makes s t job).potential with hlt | ⟨hunwalked, heffort⟩
  · exact absurd (hjob ▸ hlt) (Nat.not_lt_zero _)
  · rw [run_eq]
    unfold unwalked effort behind at *
    simp only [Job.total_eq_sum, List.map_append, List.sum_append] at *
    omega

/-- Going through stages makes no more effort due. -/
theorem effort_join (n : Nat) (hs : s.unwalked = 0) :
    (s.join t n).unwalked = 0 ∧ (s.join t n).effort ≤ s.effort := by
  induction n generalizing s with
  | zero => exact ⟨hs, Nat.le_refl _⟩
  | succ n ih =>
    rw [join]
    split
    · exact ⟨hs, Nat.le_refl _⟩
    next job rest hstages =>
      have hsplit : s.unwalked = job.unwalked + ({ s with stages := rest } : Loop).unwalked ∧
          s.effort = job.effort + ({ s with stages := rest } : Loop).effort := by
        unfold unwalked effort
        simp only [Job.total_eq_sum, hstages, List.map_append, List.map_cons, List.sum_append,
          List.sum_cons]
        omega
      have hjob : job.unwalked = 0 := by omega
      have hrest : ({ s with stages := rest } : Loop).unwalked = 0 := by omega
      obtain ⟨hunwalked, heffort⟩ := effort_run t hrest hjob
      obtain ⟨hunwalked', heffort'⟩ := ih hunwalked
      exact ⟨hunwalked', by omega⟩

/-- **Every job of a turn costs at least one** of the effort that was due. -/
theorem effort_foldl {jobs : List Job} (hs : s.unwalked = 0)
    (hjobs : ∀ job ∈ jobs, job.unwalked = 0) :
    (jobs.foldl (act t) s).effort + jobs.length ≤ (jobs.map Job.effort).sum + s.effort := by
  induction jobs generalizing s with
  | nil => simp
  | cons job rest ih =>
    rw [List.forall_mem_cons] at hjobs
    obtain ⟨hunwalked, heffort⟩ := effort_run t hs hjobs.1
    obtain ⟨hunwalked', heffort'⟩ :=
      effort_join t (Job.total Job.depth (s.run t job).stages) hunwalked
    have hrest := ih hunwalked' hjobs.2
    simp only [List.foldl_cons, List.length_cons, List.map_cons, List.sum_cons, act] at hrest ⊢
    omega

/-- **Each turn leaves less to do**, if there is something to do. -/
theorem effort_turn (h : Ahead 0 s) (hstages : s.stages = []) :
    (s.turn t).effort + s.ready.length ≤ s.effort := by
  have hempty : ({ s with ready := [] } : Loop).unwalked = 0 := by simp [unwalked, hstages]
  refine Nat.le_trans (effort_foldl t hempty fun job hjob => ?_) (Nat.le_of_eq ?_)
  · obtain ⟨hlead, hunwalked⟩ := h.ready job hjob
    exact hunwalked (Nat.le_zero.1 hlead)
  · simp [effort, hstages]

/-! ## Enough turns -/

/-- Whether a loop has stopped, or has nothing left to do. -/
def Finished (s : Loop) : Prop := s.stopped = true ∨ s.ready = [] ∧ s.stages = []

/-- A loop that has stopped takes no turn. -/
theorem turns_of_stopped (h : s.stopped = true) (n : Nat) : turns t n s = s := by
  cases n with
  | zero => rfl
  | succ n => exact if_pos h

/-- A turn with nothing to do. -/
theorem turn_of_ready (h : s.ready = []) : s.turn t = s := by
  rw [turn, h]
  cases s
  exact congrArg (fun ready => Loop.mk ready ..) h.symm

/-- Nor does one with nothing to do. -/
theorem turns_of_ready (h : s.ready = []) (n : Nat) : turns t n s = s := by
  induction n with
  | zero => rfl
  | succ n ih => rw [turns, turn_of_ready t h, ih, ite_self]

/-- When every file has been walked, as many turns suffice as there is to do. -/
theorem finished_turns {n : Nat} (h : Ahead 0 s) (hstages : s.stages = []) (hn : s.effort ≤ n) :
    (turns t n s).Finished := by
  induction n generalizing s with
  | zero =>
    refine .inr ⟨?_, hstages⟩
    cases hready : s.ready with
    | nil => exact hready
    | cons job rest =>
      have hpos := job.effort_pos
      rw [effort, Job.total_eq_sum, hready, List.cons_append, List.map_cons, List.sum_cons] at hn
      omega
  | succ n ih =>
    cases hready : s.ready with
    | nil =>
      rw [turns_of_ready t hready]
      exact .inr ⟨hready, hstages⟩
    | cons job rest =>
      rw [turns]
      split
      next hstopped => exact .inl hstopped
      next =>
        have hturn : Ahead 0 (s.turn t) := .turn t (fun job hjob => by
          rw [Nat.le_zero.1 (h.ready job hjob).1]
          decide) hstages
        have hless := effort_turn t h hstages
        rw [hready, List.length_cons] at hless
        exact ih hturn (stages_turn t hstages) (by omega)

/-- **The bound on the turns suffices**: a loop without stages stops in time, or
has nothing left to do. -/
theorem untilStopped_finished (hstages : s.stages = []) : (s.untilStopped t).Finished := by
  have hlead : ∀ job : Job, job.lead ≤ 2 := fun job => by
    unfold Job.lead
    split <;> decide
  let first := ({ s with stopped := false } : Loop).turn t
  have hfirst : first.stages = [] := stages_turn t hstages
  have hahead : Ahead 1 first := .turn t (fun job _ => hlead job) hstages
  have hturns : turns t 2 { s with stopped := false }
      = if first.stopped then first else first.turn t := rfl
  unfold untilStopped
  dsimp only
  rw [hturns]
  split
  next hstopped =>
    rw [turns_of_stopped t hstopped]
    exact .inl hstopped
  next =>
    have hsecond : Ahead 0 (first.turn t) :=
      .turn t (fun job hjob => (hahead.ready job hjob).1) hfirst
    exact finished_turns t hsecond (stages_turn t hfirst) (Nat.le_refl _)

end Loop

end Retype.Batch
