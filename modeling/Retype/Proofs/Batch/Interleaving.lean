import Mathlib.Data.Multiset.Bind
import Mathlib.Logic.Relation
import Mathlib.Tactic.SplitIfs
import Retype.Proofs.Batch.Beginning
/-!
# Batches in any order

The files of a batch are read, rewritten and written side by side, and nothing
says which of them gets on next. Here what is to be done is a bag of jobs, and a
step does any one of them (`Step`): the stages of a file are jobs like all
others, and between two of them any other jobs may be done. Batch follows batch;
what an earlier one has left goes on (`Reached`). The loop itself takes up each
stage as soon as it can, and does all other jobs in turns: that is one of the
ways in which the steps may follow each other (`batch_steps`).
-/

namespace Retype.Batch

namespace Loop

/-- All jobs of a loop. -/
def jobs (s : Loop) : Multiset Job := (s.ready ++ s.stages : List Job)

/-- The loop without its jobs. -/
def calm (s : Loop) : Loop := { s with ready := [], stages := [] }

end Loop

/-- A moment of the work: what is to be done, in no order, and the loop besides. -/
structure Moment where
  tasks : Multiset Job
  loop : Loop

namespace Moment

def ofLoop (s : Loop) : Moment := ⟨s.jobs, s.calm⟩

/-- Before the first batch. -/
def ofFiles (files : Files) : Moment := .ofLoop (.ofFiles files)

/-- A batch begins. -/
def opening (m : Moment) (paths : List String) : Moment :=
  ⟨.openBatch paths ::ₘ m.tasks, { m.loop with stopped := false }⟩

end Moment

/-- **A step**: some job is done. -/
inductive Step (t : Toolchain) : Moment → Moment → Prop
  | run (tasks : Multiset Job) (s : Loop) (job : Job) :
      Step t ⟨job ::ₘ tasks, s⟩ ⟨tasks + (s.run t job).jobs, (s.run t job).calm⟩

/-- **What is reached** when some batches are served one after the other: the
next one begins when the one before it has stopped. -/
inductive Reached (t : Toolchain) (files : Files) : List (List String) → Moment → Prop
  | start : Reached t files [] (.ofFiles files)
  | batch {batches : List (List String)} {m : Moment} (h : Reached t files batches m)
      (hrest : batches = [] ∨ m.loop.stopped = true) (paths : List String) :
      Reached t files (batches ++ [paths]) (m.opening paths)
  | step {batches : List (List String)} {m m' : Moment} (h : Reached t files batches m)
      (hstep : Step t m m') : Reached t files batches m'

theorem Reached.run {t : Toolchain} {files : Files} {batches : List (List String)} {m m' : Moment}
    (h : Reached t files batches m) (hrun : Relation.ReflTransGen (Step t) m m') :
    Reached t files batches m' := by
  induction hrun with
  | refl => exact h
  | tail _ hstep ih => exact ih.step hstep

/-! ## The turns of the loop are steps -/

namespace Loop

/-- A loop with more jobs before its own. -/
def behind (s : Loop) (ready stages : List Job) : Loop :=
  { s with ready := ready ++ s.ready, stages := stages ++ s.stages }

variable (t : Toolchain) (s : Loop) (ready stages : List Job)

theorem behind_calm : s.calm.behind s.ready s.stages = s := by simp [behind, calm]

theorem ofLoop_behind :
    Moment.ofLoop (s.behind ready stages) = ⟨(ready ++ stages : List Job) + s.jobs, s.calm⟩ := by
  refine congrArg₂ Moment.mk ?_ rfl
  simp only [jobs, behind, Multiset.coe_add, Multiset.coe_eq_coe, List.append_assoc]
  exact List.Perm.append_left _ ((List.perm_append_comm_assoc ..).trans (.refl _))

/-! ### What a job does to the other jobs: nothing -/

theorem settle_behind (path : String) (r : Except Failure Done) :
    (s.behind ready stages).settle path r = (s.settle path r).behind ready stages := by
  cases hbatch : s.outstanding with
  | none => simp [settle, behind, hbatch, schedule, record]
  | some k =>
    rcases r with cause | (tree | m | _)
    · simp [settle, behind, hbatch, settleFile, finishFile, schedule]
    · simp [settle, behind, hbatch, settleFile, finishFile, schedule]
    · simp only [settle, behind, hbatch, settleFile]
      cases m.write s.files <;> simp [hbatch, finishFile, schedule, enter]
    · simp [settle, behind, hbatch, settleFile, finishFile, schedule]

theorem begin_behind (b : Beginning) :
    (s.behind ready stages).begin b = (s.begin b).behind ready stages := by
  simp [behind, begin, callers]

theorem infer_behind (c : Caller) (type : Option Json) :
    (s.behind ready stages).infer c type = (s.infer c type).behind ready stages := by
  have hplace : (s.behind ready stages).place? c = s.place? c := rfl
  unfold infer
  rw [hplace]
  split
  · dsimp only
    split <;> simp [behind, schedule, record, annotate]
  · rfl

/-- **A job does the same whatever else is to be done.** -/
theorem run_behind (job : Job) :
    (s.behind ready stages).run t job = (s.run t job).behind ready stages := by
  cases job with
  | openBatch paths => simp [run, openBatch, behind, schedule]
  | start work =>
    cases work with
    | tree o tree => exact begin_behind ..
    | file path => simp [run, start, behind, enter]
  | parse path source => simp [run, parse, request, behind, enter]
  | walk path source tree => exact begin_behind ..
  | print path source tree hasJsx => simp [run, print, request, behind, enter]
  | settle path r => exact settle_behind ..
  | put c =>
    have hplace : (s.behind ready stages).place? c = s.place? c := rfl
    rw [run, run, put, put, hplace]
    split <;> simp [behind, schedule]
  | call e => simp [run, call, behind, note, schedule]
  | giveUp e => simp [run, behind, schedule]
  | callEnded e output =>
    by_cases hwaits : e.caller ∈ s.waiting <;> simp [run, callEnded, behind, schedule, hwaits]
  | answer c output =>
    rw [run, run, answer, answer]
    split
    · simp [behind, enter]
    · exact infer_behind ..
  | parseType c text =>
    exact infer_behind ((s.request t (Bridge.parseRequest (Bridge.aliasSource text))).2.note
      (.parsed text)) ready stages c _
  | answered file failure =>
    simp only [run, answered, behind]
    cases s.walked[file]? with
    | none => rfl
    | some w =>
      dsimp only
      split_ifs <;> simp [schedule]
  | resume file failure =>
    simp only [run, resume, behind]
    cases s.walked[file]? <;> simp [enter]
  | fileOver =>
    by_cases hlast : s.outstanding.getD 0 - 1 = 0 <;> simp [run, fileOver, behind, schedule, hlast]
  | batchOver => simp [run, behind, schedule]
  | stop => rfl

/-! ### Turns -/

open Relation (ReflTransGen)

/-- What a job does to a loop, said by what it does when nothing else is to be done. -/
theorem run_eq (job : Job) : s.run t job = (s.calm.run t job).behind s.ready s.stages := by
  rw [← run_behind, behind_calm]

/-- A job of a loop that is done is a step. -/
theorem run_step (job : Job) : Step t ⟨job ::ₘ s.jobs, s.calm⟩ (.ofLoop (s.run t job)) := by
  rw [run_eq, ofLoop_behind]
  exact .run s.jobs s.calm job

theorem join_steps (n : Nat) : ReflTransGen (Step t) (.ofLoop s) (.ofLoop (s.join t n)) := by
  induction n generalizing s with
  | zero => exact .refl
  | succ n ih =>
    rw [join]
    split
    next => exact .refl
    next job rest hstages =>
      refine .head (?_ : Step t _ _) (ih _)
      have hjobs : (Moment.ofLoop s)
          = ⟨job ::ₘ ({ s with stages := rest } : Loop).jobs,
            ({ s with stages := rest } : Loop).calm⟩ := by
        refine congrArg₂ Moment.mk ?_ rfl
        simp only [jobs, hstages, Multiset.cons_coe, Multiset.coe_eq_coe]
        exact List.perm_middle
      rw [hjobs]
      exact run_step t { s with stages := rest } job

theorem act_steps (job : Job) :
    ReflTransGen (Step t) ⟨job ::ₘ s.jobs, s.calm⟩ (.ofLoop (s.act t job)) :=
  .head (run_step t s job) (join_steps t (s.run t job) _)

/-- Steps may be taken while other jobs are to be done. -/
theorem steps_add {t : Toolchain} {m m' : Moment} (h : ReflTransGen (Step t) m m')
    (more : Multiset Job) :
    ReflTransGen (Step t) ⟨more + m.tasks, m.loop⟩ ⟨more + m'.tasks, m'.loop⟩ := by
  induction h with
  | refl => exact .refl
  | tail _ hstep ih =>
    refine ih.tail ?_
    cases hstep with
    | run tasks s job =>
      rw [Multiset.add_cons, ← add_assoc]
      exact .run (more + tasks) s job

theorem turn_steps : ReflTransGen (Step t) (.ofLoop s) (.ofLoop (s.turn t)) := by
  have hjobs : ∀ (jobs : List Job) (s : Loop),
      ReflTransGen (Step t) ⟨jobs + s.jobs, s.calm⟩ (.ofLoop (jobs.foldl (act t) s)) := by
    intro jobs
    induction jobs with
    | nil => exact fun s => (zero_add s.jobs).symm ▸ .refl
    | cons job rest ih =>
      intro s
      have hfirst := steps_add (act_steps t s job) (rest : Multiset Job)
      rw [Multiset.add_cons, ← Multiset.cons_add, Multiset.cons_coe] at hfirst
      exact hfirst.trans (ih (s.act t job))
  have hready : Moment.ofLoop s
      = ⟨s.ready + ({ s with ready := [] } : Loop).jobs, ({ s with ready := [] } : Loop).calm⟩ := by
    simp [Moment.ofLoop, jobs, calm]
  rw [hready]
  exact hjobs s.ready { s with ready := [] }

theorem turns_steps (n : Nat) : ReflTransGen (Step t) (.ofLoop s) (.ofLoop (turns t n s)) := by
  induction n generalizing s with
  | zero => exact .refl
  | succ n ih =>
    rw [turns]
    split
    · exact .refl
    · exact (turn_steps t s).trans (ih (s.turn t))

/-- A loop in which a batch begins. -/
theorem ofLoop_opening (paths : List String) :
    Moment.ofLoop { s.schedule [.openBatch paths] with stopped := false }
      = (Moment.ofLoop s).opening paths := by
  refine congrArg₂ Moment.mk ?_ rfl
  simp only [Moment.ofLoop, jobs, schedule, Multiset.cons_coe, Multiset.coe_eq_coe,
    List.append_assoc, List.singleton_append]
  exact List.perm_middle

/-- **The loop serves a batch by steps.** -/
theorem batch_steps (paths : List String) :
    ReflTransGen (Step t) ((Moment.ofLoop s).opening paths) (.ofLoop (s.batch t paths)) := by
  rw [← ofLoop_opening]
  exact (turns_steps t _ 2).trans (turns_steps t _ _)

end Loop

end Retype.Batch
