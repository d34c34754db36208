import Mathlib.Algebra.BigOperators.Group.Multiset.Basic
import Mathlib.Order.WellFounded
import Mathlib.Data.Prod.Lex
import Retype.Proofs.Batch.Attendance
import Retype.Proofs.Batch.Turns
/-!
# Every batch comes to its end

Each step keeps the files: one that was given is still to begin, under way or
over, and it is over once (`Does.conserves`). A batch is open until all of its
files are over, and then stops (`Phase`). Each step brings the work closer to
its end (`Step.potential_lt`), so however the jobs follow each other there are
finitely many steps, and when none is left the batch has stopped. A batch begins
when nothing is under way, and leaves nothing under way (`Serves.rests`); and the
turns that the loop takes are enough for it (`batch_serves`).
-/

namespace Retype.Batch

open Inference (Queue Entry)

/-! ## The files under way -/

namespace Job

/-- The files that are to begin with a batch that has not begun. -/
def unopened : Job → Multiset String
  | .openBatch paths => paths
  | _ => 0

/-- The files that a job is to bring closer to their end. -/
def files (walked : List Walked) (job : Job) : Multiset String :=
  ((job.path? walked).toList : List String)

end Job

/-- The files that wait. -/
def waitingFiles (walked : List Walked) : Multiset String :=
  ((walked.filter (·.waits)).map (·.options.path) : List String)

namespace Moment

/-- The files that are to begin. -/
def unopened (m : Moment) : Multiset String := m.tasks.bind Job.unopened

/-- The files that have begun and are not over. -/
def underWay (m : Moment) : Multiset String :=
  m.tasks.bind (Job.files m.loop.walked) + waitingFiles m.loop.walked

section
variable {m : Moment} {path : String}

/-- A file that a job is about is under way. -/
theorem mem_underWay_of_path? {job : Job} (hjob : job ∈ m.tasks)
    (h : job.path? m.loop.walked = some path) : path ∈ m.underWay :=
  Multiset.mem_add.2 (.inl (Multiset.mem_bind.2 ⟨job, hjob, by simp [Job.files, h]⟩))

/-- So is a file in one of its stages. -/
theorem mem_underWay_of_stage {job : Job} (hjob : job ∈ m.tasks) (h : job.StageOf path) :
    path ∈ m.underWay :=
  mem_underWay_of_path? hjob (h.path? _)

/-- So is a file that goes on. -/
theorem mem_underWay_of_resume {file : Nat} {failure : Option Refusal} {w : Walked}
    (h : .resume file failure ∈ m.tasks) (hw : m.loop.walked[file]? = some w) :
    w.options.path ∈ m.underWay :=
  mem_underWay_of_path? h (by rw [Job.path?, hw]; rfl)

/-- So is a file that waits. -/
theorem mem_underWay_of_waits {i : Nat} {w : Walked} (hw : m.loop.walked[i]? = some w)
    (hwaits : w.waits = true) : w.options.path ∈ m.underWay :=
  Multiset.mem_add.2 (.inr (List.mem_map.2
    ⟨w, List.mem_filter.2 ⟨List.mem_of_getElem? hw, hwaits⟩, rfl⟩))

end

end Moment

section
variable {walked : List Walked} {i : Nat} {old new : Walked}

theorem waitingFiles_append (walked walked' : List Walked) :
    waitingFiles (walked ++ walked') = waitingFiles walked + waitingFiles walked' := by
  simp [waitingFiles]

/-- A file whose entry changes waits as its new entry says. -/
theorem waitingFiles_set (h : walked[i]? = some old) (new : Walked) :
    waitingFiles (walked.set i new) + waitingFiles [old] =
      waitingFiles walked + waitingFiles [new] := by
  obtain ⟨hlt, rfl⟩ := List.getElem?_eq_some_iff.1 h
  have hset : walked.set i new = walked.take i ++ ([new] ++ walked.drop (i + 1)) := by
    rw [List.set_eq_take_append_cons_drop, if_pos hlt, List.singleton_append]
  have hold : walked = walked.take i ++ ([walked[i]] ++ walked.drop (i + 1)) := by
    rw [List.singleton_append, List.getElem_cons_drop, List.take_append_drop]
  rw [hset]
  conv_rhs => rw [hold]
  simp only [waitingFiles_append]
  abel

/-- A file that changes waits as before, unless it goes on. -/
theorem waitingFiles_set_of_waits (h : walked[i]? = some old) (hoptions : new.options = old.options)
    (hwaits : new.waits = old.waits) : waitingFiles (walked.set i new) = waitingFiles walked := by
  have hsame : waitingFiles [new] = waitingFiles [old] := by
    cases hold : old.waits <;> simp [waitingFiles, hwaits, hold, hoptions]
  exact add_right_cancel (hsame ▸ waitingFiles_set h new)

end

/-! ## What a job tells of the batch -/

/-- What a job tells of the batch. -/
inductive Mark where
  | opening
  | past
  | closing
  deriving DecidableEq

def Job.marks : Job → Multiset Mark
  | .openBatch _ => {.opening}
  | .fileOver => {.past}
  | .batchOver => {.closing}
  | .stop => {.closing}
  | _ => 0

namespace Job

section
variable {path : String} {job : Job} (h : job.StageOf path)
include h

/-- A stage is about one file. -/
theorem StageOf.files_eq (walked : List Walked) : job.files walked = {path} := by
  rw [files, h.path?]
  rfl

/-- A stage has nothing still to open. -/
theorem StageOf.unopened_eq_zero : job.unopened = 0 := by cases h <;> rfl

/-- A stage marks no bound of a batch. -/
theorem StageOf.marks_eq_zero : job.marks = 0 := by cases h <;> rfl

end

variable (walked : List Walked) (paths : List String) (next : Option (Entry Caller)) (s : Loop)
  (w : Walked)

/-- The jobs of a batch that begins are about its files. -/
@[simp] theorem files_starts : (Loop.starts paths : Multiset Job).bind (files walked) = paths := by
  rw [Loop.starts]
  split
  next hempty =>
    obtain rfl := List.isEmpty_iff.1 hempty
    rfl
  · rw [← Multiset.map_coe, Multiset.bind_map]
    exact (Multiset.bind_singleton ..).trans (Multiset.map_id _)

@[simp] theorem unopened_starts : (Loop.starts paths : Multiset Job).bind unopened = 0 :=
  bind_starts paths rfl fun _ => rfl

@[simp] theorem files_started : (Loop.started next : Multiset Job).bind (files walked) = 0 :=
  bind_started next fun _ => rfl

@[simp] theorem unopened_started : (Loop.started next : Multiset Job).bind unopened = 0 :=
  bind_started next fun _ => rfl

@[simp] theorem marks_started : (Loop.started next : Multiset Job).bind marks = 0 :=
  bind_started next fun _ => rfl

@[simp] theorem files_puts : (s.puts w : Multiset Job).bind (files walked) = 0 :=
  bind_puts s w fun _ => rfl

@[simp] theorem unopened_puts : (s.puts w : Multiset Job).bind unopened = 0 :=
  bind_puts s w fun _ => rfl

@[simp] theorem marks_puts : (s.puts w : Multiset Job).bind marks = 0 := bind_puts s w fun _ => rfl

/-- Files that are to be started leave the batch open. -/
theorem marks_starts {paths : List String} (h : paths ≠ []) :
    (Loop.starts paths : Multiset Job).bind marks = 0 := by
  refine bind_eq_zero fun job hjob => ?_
  rw [Loop.starts, if_neg (by simpa using h)] at hjob
  obtain ⟨path, -, rfl⟩ := List.mem_map.1 hjob
  rfl

/-- What the other jobs tell of the batch, if one of them tells all. -/
theorem marks_rest {mark : Mark} {job : Job} {tasks : Multiset Job} (hjob : job.marks = {mark})
    (h : (job ::ₘ tasks).bind marks = {mark}) : tasks.bind marks = 0 := by
  rw [Multiset.cons_bind, hjob] at h
  exact add_left_cancel (h.trans (add_zero _).symm)

end Job

namespace Follows

variable {t : Toolchain} {s : Loop} {job next : Job} {talk : Talk} (h : Follows t s job next talk)
include h

theorem unopened_eq_zero : job.unopened = 0 := by cases h <;> rfl

theorem marks_eq_zero : job.marks = 0 := by cases h <;> rfl

end Follows

namespace Concludes

variable {t : Toolchain} {s : Loop} {c : Caller} {w : Walked} {l : Result Location} {job : Job}
  {r : Recorded (Option Json)} {talk : Talk} {entries : List LogEntry}
  (h : Concludes t s c w l job r talk entries)
include h

theorem files_eq_zero (walked : List Walked) : job.files walked = 0 := by cases h <;> rfl

theorem unopened_eq_zero : job.unopened = 0 := by cases h <;> rfl

theorem marks_eq_zero : job.marks = 0 := by cases h <;> rfl

end Concludes

/-- A file that begins waits, or something is next for it. -/
theorem Begins.files {o : Migration.FileOptions} {source : String} {b : Beginning}
    (h : Begins o (some source) b) (walked : List Walked) :
    (b.next.toList : Multiset Job).bind (Job.files walked) + waitingFiles
      [b.walked] = {o.path} := by
  cases h <;> rfl

/-! ## Each step keeps the files -/

section
variable {t : Toolchain} {m m' : Moment}

/-- The jobs that stay are about the same files. -/
theorem Does.files_rest (h : Does t m m') (hs : Sound m) (tasks : Multiset Job)
    (htasks : tasks ≤ m.tasks) :
    tasks.bind (Job.files m'.loop.walked) = tasks.bind (Job.files m.loop.walked) := by
  refine Multiset.bind_congr fun job hjob => ?_
  have hmem := Multiset.mem_of_le htasks hjob
  unfold Job.files Job.path?
  split <;> try rfl
  next file failure =>
    obtain ⟨w, hw, -⟩ := hs.resumed file failure hmem
    obtain ⟨w', hw', hsame, -⟩ := h.walkedFile hw
    rw [hw, hw', Option.map_some, Option.map_some, hsame.options]

/-- **Each step keeps the files**: none is lost, and none is over twice. -/
theorem Does.conserves (h : Does t m m') (hs : Sound m) :
    (m'.loop.past.map (·.1) : Multiset String) + m'.underWay + m'.unopened
      = (m.loop.past.map (·.1) : Multiset String) + m.underWay + m.unopened := by
  have hrest := h.files_rest hs
  have hsources := hs.sources
  cases h with
  | opened paths =>
    simp only [Moment.underWay, Moment.unopened, Multiset.add_bind, Multiset.cons_bind,
      Job.files_starts, Job.unopened_starts]
    simp only [Job.files, Job.path?, Job.unopened]
    abel
  | staged h =>
    obtain ⟨path, hstage, hpath⟩ := h.stage hsources
    simp only [Moment.underWay, Moment.unopened, Multiset.cons_bind, hstage.files_eq,
      hstage.unopened_eq_zero, h.unopened_eq_zero]
    simp only [Job.files, hpath]
    rfl
  | called | texted | ignored | closed | stopped | heard | asked =>
    simp [Moment.underWay, Moment.unopened, Job.files, Job.path?, Job.unopened]
  | counted =>
    simp only [Moment.underWay, Moment.unopened, Multiset.add_bind, Multiset.cons_bind]
    split <;> simp [Job.files, Job.path?, Job.unopened]
  | @settled tasks s path r e files h =>
    simp only [Moment.underWay, Moment.unopened, Multiset.cons_bind, Job.files, Job.path?,
      Job.unopened, List.map_append, ← Multiset.coe_add]
    simp only [List.map_cons, List.map_nil, Multiset.coe_singleton, Option.toList_some,
      Option.toList_none, Multiset.coe_nil]
    abel
  | @walked tasks s path source tree b hb =>
    have hbegins : Begins (t.fileOptions path) (some source) b := hb ▸ Beginning.begins ..
    have hrest : tasks.bind (Job.files (s.beginFile b).walked) = tasks.bind (Job.files s.walked) :=
      hrest tasks (Multiset.le_cons_self ..)
    have hfiles := hbegins.files (s.beginFile b).walked
    have hwaiting : waitingFiles (s.beginFile b).walked
        = waitingFiles s.walked + waitingFiles [b.walked] := waitingFiles_append ..
    have hnext := hbegins.bind_next fun _ h => h.unopened_eq_zero
    simp only [Moment.underWay, Moment.unopened, Multiset.add_bind, Multiset.cons_bind, hrest,
      hwaiting, Job.files_puts, Job.unopened_puts, hnext]
    rw [show Job.files s.walked (.walk path source tree) =
      {(t.fileOptions path).path} from rfl, ← hfiles,
      show Job.unopened (.walk path source tree) = 0 from rfl]
    simp only [Loop.beginFile]
    abel
  | @concluded tasks s c w l job r talk entries hstands hjob =>
    have hrest := hrest tasks (Multiset.le_cons_self ..)
    have hwaiting : waitingFiles (s.conclude c w r talk entries).walked = waitingFiles s.walked :=
      waitingFiles_set_of_waits hstands.1 (Walked.sameFile_given ..).options (by simp)
    dsimp only at hrest
    simp only [Moment.underWay, Moment.unopened, Multiset.cons_bind, hrest, hwaiting,
      hjob.files_eq_zero, hjob.unopened_eq_zero]
    rfl
  | @missed tasks s file w hw =>
    have hrest := hrest tasks (Multiset.le_cons_self ..)
    have hwaiting : waitingFiles (s.walked.set file { w with missing := w.missing - 1 })
        = waitingFiles s.walked := waitingFiles_set_of_waits hw rfl rfl
    dsimp only at hrest
    simp [Moment.underWay, Moment.unopened, hrest, hwaiting, Job.files, Job.path?, Job.unopened]
  | @ended tasks s file failure w hw hwaits =>
    have hrest := hrest tasks (Multiset.le_cons_self ..)
    have hself := List.getElem?_set_self (List.getElem?_eq_some_iff.1 hw).1
      (a := { w with missing := w.missing - 1, waits := false })
    have hwaiting : waitingFiles
        (s.walked.set file { w with missing := w.missing - 1, waits := false })
        + {w.options.path} = waitingFiles s.walked := by
      simpa [waitingFiles, hwaits] using
        waitingFiles_set hw { w with missing := w.missing - 1, waits := false }
    dsimp only at hrest
    simp only [Moment.underWay, Moment.unopened, Multiset.cons_bind, hrest, ← hwaiting, Job.files,
      Job.path?, Job.unopened, hself, Option.map_some, Option.toList_some, Option.toList_none,
      Multiset.coe_nil, Multiset.coe_singleton]
    abel

end

/-! ## The phases of a batch -/

def Moment.marks (m : Moment) : Multiset Mark := m.tasks.bind Job.marks

/-- **Where a batch is**: about to begin, under way with as many files
outstanding as are under way or have just come to their end, about to stop, or
stopped. -/
inductive Moment.Phase (m : Moment) : Prop
  | opening (hmarks : m.marks = {.opening}) (hfiles : m.underWay = 0)
      (hstopped : m.loop.stopped = false)
  | running (k : Nat) (hmarks : m.marks = .replicate k .past)
      (houtstanding : m.loop.outstanding = some (Multiset.card m.underWay + k))
      (hpos : 0 < Multiset.card m.underWay + k) (hstopped : m.loop.stopped = false)
  | closing (hmarks : m.marks = {.closing}) (hfiles : m.underWay = 0)
      (hstopped : m.loop.stopped = false)
  | resting (hmarks : m.marks = 0) (hfiles : m.underWay = 0) (hstopped : m.loop.stopped = true)

namespace Moment.Phase

variable {m : Moment} (h : m.Phase)
include h

/-- A batch that opens has no file under way. -/
theorem of_opening (hmem : .opening ∈ m.marks) :
    m.marks = {.opening} ∧ m.underWay = 0 ∧ m.loop.stopped = false := by
  cases h with
  | opening hmarks hfiles hstopped => exact ⟨hmarks, hfiles, hstopped⟩
  | running k hmarks => exact absurd (Multiset.eq_of_mem_replicate (hmarks ▸ hmem)) (by decide)
  | closing hmarks => exact absurd (Multiset.mem_singleton.1 (hmarks ▸ hmem)) (by decide)
  | resting hmarks => exact absurd (hmarks ▸ hmem) (Multiset.notMem_zero _)

/-- A batch that closes has no file under way any more. -/
theorem of_closing (hmem : .closing ∈ m.marks) :
    m.marks = {.closing} ∧ m.underWay = 0 ∧ m.loop.stopped = false := by
  cases h with
  | opening hmarks => exact absurd (Multiset.mem_singleton.1 (hmarks ▸ hmem)) (by decide)
  | running k hmarks => exact absurd (Multiset.eq_of_mem_replicate (hmarks ▸ hmem)) (by decide)
  | closing hmarks hfiles hstopped => exact ⟨hmarks, hfiles, hstopped⟩
  | resting hmarks => exact absurd (hmarks ▸ hmem) (Multiset.notMem_zero _)

/-- A batch that runs counts its files that are under way or over. -/
theorem of_running (hmem : .past ∈ m.marks ∨ m.underWay ≠ 0) : ∃ k, m.marks = .replicate k .past ∧
    m.loop.outstanding = some (Multiset.card m.underWay + k) ∧ m.loop.stopped = false := by
  cases h with
  | opening hmarks hfiles =>
    exact (hmem.elim (fun h => absurd (Multiset.mem_singleton.1 (hmarks ▸ h)) (by decide))
      fun h => absurd hfiles h)
  | running k hmarks houtstanding _ hstopped => exact ⟨k, hmarks, houtstanding, hstopped⟩
  | closing hmarks hfiles =>
    exact (hmem.elim (fun h => absurd (Multiset.mem_singleton.1 (hmarks ▸ h)) (by decide))
      fun h => absurd hfiles h)
  | resting hmarks hfiles =>
    exact (hmem.elim (fun h => absurd (hmarks ▸ h) (Multiset.notMem_zero _))
      fun h => absurd hfiles h)

/-- A batch that has stopped has nothing to do any more. -/
theorem of_stopped (hstopped : m.loop.stopped = true) : m.marks = 0 ∧ m.underWay = 0 := by
  cases h with
  | resting hmarks hfiles => exact ⟨hmarks, hfiles⟩
  | opening _ _ hopen | running _ _ _ _ hopen | closing _ _ hopen =>
    exact absurd (hopen.symm.trans hstopped) Bool.false_ne_true

/-- A moment that does not differ in these things is in the same phase. -/
theorem congr {m' : Moment} (hmarks : m'.marks = m.marks) (hfiles : m'.underWay = m.underWay)
    (houtstanding : m'.loop.outstanding = m.loop.outstanding)
    (hstopped : m'.loop.stopped = m.loop.stopped) : m'.Phase := by
  cases h with
  | opening hmarks₀ hfiles₀ hstopped₀ =>
    exact .opening (hmarks.trans hmarks₀) (hfiles.trans hfiles₀) (hstopped.trans hstopped₀)
  | running k hmarks₀ houtstanding₀ hpos hstopped₀ =>
    exact .running k (hmarks.trans hmarks₀) (by rw [houtstanding, hfiles, houtstanding₀])
      (by rwa [hfiles]) (hstopped.trans hstopped₀)
  | closing hmarks₀ hfiles₀ hstopped₀ =>
    exact .closing (hmarks.trans hmarks₀) (hfiles.trans hfiles₀) (hstopped.trans hstopped₀)
  | resting hmarks₀ hfiles₀ hstopped₀ =>
    exact .resting (hmarks.trans hmarks₀) (hfiles.trans hfiles₀) (hstopped.trans hstopped₀)

end Moment.Phase

section
variable {t : Toolchain} {m m' : Moment}

/-- **Each step takes a batch to its next phase** or leaves it where it is. -/
theorem Does.phase (h : Does t m m') (hs : Sound m) (hp : m.Phase) : m'.Phase := by
  have hconserves := h.conserves hs
  have hneutral (hover : m'.loop.past = m.loop.past) (hunopened : m'.unopened = m.unopened) :
      m'.underWay = m.underWay := by
    rw [hover, hunopened] at hconserves
    exact add_left_cancel (add_right_cancel hconserves)
  have hsources := hs.sources
  cases h with
  | called | texted | ignored | missed | ended | asked | heard =>
    exact hp.congr (by simp [Moment.marks, Job.marks])
      (hneutral rfl (by simp [Moment.unopened, Job.unopened])) rfl rfl
  | staged h =>
    obtain ⟨path, hstage, -⟩ := h.stage hsources
    exact hp.congr (by simp [Moment.marks, hstage.marks_eq_zero, h.marks_eq_zero])
      (hneutral rfl
        (by simp [Moment.unopened, hstage.unopened_eq_zero, h.unopened_eq_zero])) rfl rfl
  | @walked tasks s path source tree b hb =>
    have hbegins : Begins (t.fileOptions path) (some source) b := hb ▸ Beginning.begins ..
    have hmarks := hbegins.bind_next fun _ h => h.marks_eq_zero
    have hunopened := hbegins.bind_next fun _ h => h.unopened_eq_zero
    exact hp.congr (by simp [Moment.marks, Job.marks, hmarks])
      (hneutral rfl (by simp [Moment.unopened, Job.unopened, hunopened])) rfl rfl
  | concluded _ hjob =>
    have htold : ∀ file failure, (Job.answered file failure).marks = 0 ∧
        (Job.answered file failure).unopened = 0 := fun _ _ => ⟨rfl, rfl⟩
    exact hp.congr (by simp [Moment.marks, htold, hjob.marks_eq_zero])
      (hneutral rfl (by simp [Moment.unopened, htold, hjob.unopened_eq_zero])) rfl rfl
  | @opened tasks s paths =>
    obtain ⟨hmarks, hfiles, hstopped⟩ := hp.of_opening (by simp [Moment.marks, Job.marks])
    have hrest := Job.marks_rest rfl hmarks
    have hpaths : (Moment.mk (tasks + Loop.starts paths)
        { s with outstanding := some paths.length }).underWay = paths := by
      rw [hfiles] at hconserves
      simp only [Moment.unopened, Multiset.add_bind, Job.unopened_starts, Multiset.cons_bind,
        Job.unopened, add_zero] at hconserves
      rw [← add_assoc] at hconserves
      exact add_left_cancel (add_right_cancel hconserves)
    cases paths with
    | nil => exact .closing (by simp [Moment.marks, hrest, Loop.starts, Job.marks]) hpaths hstopped
    | cons path paths =>
      refine .running 0 ?_ ?_ ?_ hstopped
      · simp [Moment.marks, hrest, Job.marks_starts]
      · rw [hpaths]
        rfl
      · rw [hpaths]
        exact Nat.succ_pos _
  | @settled tasks s path r e files h =>
    have hunder : (Moment.mk (.settle path r ::ₘ tasks) s).underWay
        = path ::ₘ (Moment.mk (.fileOver ::ₘ tasks) { s with
            files := files
            past := s.past ++ [(path, e)]
            findings := s.findings ++ e.findings path
            log := s.log ++ e.entries path }).underWay := by
      simp [Moment.underWay, Job.files, Job.path?]
    obtain ⟨k, hmarks, houtstanding, hstopped⟩ := hp.of_running
      (.inr (hunder ▸ Multiset.cons_ne_zero))
    rw [hunder, Multiset.card_cons] at houtstanding
    refine .running (k + 1) ?_ ?_ (by omega) hstopped
    · rw [Multiset.replicate_succ, ← hmarks]
      simp [Moment.marks, Job.marks]
    · exact houtstanding.trans (congrArg some (by omega))
  | @counted tasks s =>
    obtain ⟨k, hmarks, houtstanding, hstopped⟩ := hp.of_running
      (.inl (by simp [Moment.marks, Job.marks]))
    have hmarks : ({Mark.past} : Multiset Mark) + tasks.bind Job.marks = .replicate k .past := by
      rw [← hmarks, Moment.marks, Multiset.cons_bind]
      rfl
    obtain ⟨j, rfl⟩ : ∃ j, k = j + 1 := by
      have hcard := congrArg Multiset.card hmarks
      rw [Multiset.card_add, Multiset.card_singleton, Multiset.card_replicate] at hcard
      exact ⟨Multiset.card (tasks.bind Job.marks), by omega⟩
    have hrest : tasks.bind Job.marks = .replicate j .past :=
      add_left_cancel (hmarks.trans (Multiset.replicate_succ ..))
    have hfiles := hneutral rfl (by
      simp only [Moment.unopened, Multiset.add_bind, Multiset.cons_bind]
      split <;> simp [Job.unopened])
    have houtstanding : s.outstanding = _ := houtstanding
    rw [houtstanding, Option.getD_some] at hfiles ⊢
    by_cases hleft : Multiset.card (Moment.mk (.fileOver ::ₘ tasks) s).underWay + (j + 1) - 1 = 0
    · rw [if_pos hleft] at hfiles ⊢
      obtain rfl : j = 0 := by omega
      refine .closing (by simp [Moment.marks, hrest, Job.marks]) ?_ hstopped
      rw [hfiles]
      exact Multiset.card_eq_zero.1 (by omega)
    · rw [if_neg hleft] at hfiles ⊢
      refine .running j (by simp [Moment.marks, hrest]) ?_ ?_ hstopped
      · rw [hfiles]
        exact congrArg some (by omega)
      · rw [hfiles]
        omega
  | closed =>
    obtain ⟨hmarks, hfiles, hstopped⟩ := hp.of_closing (by simp [Moment.marks, Job.marks])
    refine .closing ?_ ?_ hstopped
    · rw [← hmarks]
      simp [Moment.marks, Job.marks]
    · rw [hneutral rfl (by simp [Moment.unopened, Job.unopened]), hfiles]
  | stopped =>
    obtain ⟨hmarks, hfiles, -⟩ := hp.of_closing (by simp [Moment.marks, Job.marks])
    refine .resting (Job.marks_rest rfl hmarks) ?_ rfl
    · rw [hneutral rfl (by simp [Moment.unopened, Job.unopened]), hfiles]

end

/-! ## A batch, from rest to rest -/

open Relation (ReflTransGen)

/-- **A moment between two batches**: nothing is to begin or under way. -/
structure Moment.Rests (m : Moment) : Prop where
  sound : Sound m
  marks : m.marks = 0
  underWay : m.underWay = 0

/-- **A moment of a batch** that began at another moment: each of its entries is
to begin, under way or over. -/
structure Serves (start : Moment) (paths : List String) (m : Moment) : Prop where
  sound : Sound m
  phase : m.Phase
  conserves : (m.loop.past.map (·.1) : Multiset String) + m.underWay + m.unopened
    = (start.loop.past.map (·.1) : Multiset String) + (paths : Multiset String)

section
variable {t : Toolchain} {m m' start : Moment} {paths : List String}

/-- A batch that was opened has nothing still to open. -/
theorem Moment.unopened_eq_zero (h : m.marks = 0) : m.unopened = 0 := by
  refine Multiset.eq_zero_of_forall_notMem fun path hpath => ?_
  obtain ⟨job, hjob, hmem⟩ := Multiset.mem_bind.1 hpath
  have hmark : job.marks = 0 := Multiset.eq_zero_of_forall_notMem fun mark hmark =>
    Multiset.notMem_zero mark (h ▸ Multiset.mem_bind.2 ⟨job, hjob, hmark⟩)
  unfold Job.unopened at hmem
  split at hmem
  · exact absurd hmark (Multiset.singleton_ne_zero _)
  · exact Multiset.notMem_zero _ hmem

/-- A batch that begins at rest. -/
theorem Moment.Rests.opening (h : m.Rests) (paths : List String) :
    Serves m paths (m.opening paths) where
  sound := h.sound.opening paths
  phase := by
    refine .opening ?_ ?_ rfl
    · show (_ ::ₘ m.tasks).bind Job.marks = _
      rw [Multiset.cons_bind, show m.tasks.bind Job.marks = 0 from h.marks]
      rfl
    · rw [← h.underWay]
      simp [Moment.opening, Moment.underWay, Job.files, Job.path?]
  conserves := by
    have hunopened : (m.opening paths).unopened = paths + m.unopened := Multiset.cons_bind ..
    have hfiles : (m.opening paths).underWay = m.underWay := by
      simp [Moment.opening, Moment.underWay, Job.files, Job.path?]
    rw [hunopened, hfiles, h.underWay, Moment.unopened_eq_zero h.marks, add_zero, add_zero]
    rfl

namespace Serves

variable (h : Serves start paths m)
include h

/-- **Each step goes on serving.** -/
theorem step (hstep : Step t m m') : Serves start paths m' where
  sound := (hstep.does h.sound).sound h.sound
  phase := (hstep.does h.sound).phase h.sound h.phase
  conserves := ((hstep.does h.sound).conserves h.sound).trans h.conserves

/-- So does a run. -/
theorem run (hrun : ReflTransGen (Step t) m m') : Serves start paths m' := by
  induction hrun with
  | refl => exact h
  | tail _ hstep ih => exact ih.step hstep

/-- What is over with a batch was over before, or is one of its entries. -/
theorem mem_of_past {path : String} (hpath : path ∈ m.loop.past.map (·.1)) :
    path ∈ start.loop.past.map (·.1) ∨ path ∈ paths := by
  have hmem : path ∈ (start.loop.past.map (·.1) : Multiset String) + (paths : Multiset String) := by
    rw [← h.conserves]
    exact Multiset.mem_add.2 (.inl (Multiset.mem_add.2 (.inl (Multiset.mem_coe.2 hpath))))
  exact Multiset.mem_add.1 hmem

/-- **When a batch has stopped**, each of its entries is over, once, and nothing
is under way. -/
theorem rests (hstopped : m.loop.stopped = true) :
    m.Rests ∧ (m.loop.past.map (·.1)).Perm (start.loop.past.map (·.1) ++ paths) := by
  obtain ⟨hmarks, hfiles⟩ := h.phase.of_stopped hstopped
  have hconserves := h.conserves
  rw [hfiles, Moment.unopened_eq_zero hmarks, add_zero, add_zero, Multiset.coe_add] at hconserves
  exact ⟨⟨h.sound, hmarks, hfiles⟩, Multiset.coe_eq_coe.1 hconserves⟩

/-- **A batch that has not stopped goes on.** -/
theorem exists_step (t : Toolchain) (hopen : m.loop.stopped = false) : ∃ m', Step t m m' := by
  refine Batch.exists_step t fun htasks => ?_
  have hmarks : m.marks = 0 := by
    rw [Moment.marks, htasks]
    rfl
  have hwaiting : waitingFiles m.loop.walked = 0 := by
    rw [waitingFiles, List.filter_eq_nil_iff.2 fun w hw => by
      simp [h.sound.waits_eq_false htasks hw]]
    rfl
  have hfiles : m.underWay = 0 := by
    rw [Moment.underWay, htasks, hwaiting]
    rfl
  cases h.phase with
  | opening hone => exact absurd (hone.symm.trans hmarks) (Multiset.singleton_ne_zero _)
  | running k hk _ hpos =>
    have hcard := congrArg Multiset.card (hk.symm.trans hmarks)
    rw [Multiset.card_replicate, Multiset.card_zero] at hcard
    rw [hfiles, hcard] at hpos
    exact absurd hpos (Nat.lt_irrefl _)
  | closing hone => exact absurd (hone.symm.trans hmarks) (Multiset.singleton_ne_zero _)
  | resting _ _ hstopped => exact absurd (hopen.symm.trans hstopped) Bool.false_ne_true

end Serves

/-! ## The end -/

/-- What is left to do: files to be walked come first, since they may have any
number of parameters. -/
def Moment.potential (m : Moment) : ℕ ×ₗ ℕ :=
  toLex ((m.tasks.map Job.unwalked).sum,
    (m.tasks.map Job.effort).sum + Job.queued * m.loop.queue.pending.length)

/-- **The loop brings every batch to its end**, by steps, and enters no stage
that it leaves. -/
theorem batch_serves {s : Loop} (h : (Moment.ofLoop s).Rests) (hstages : s.stages = [])
    (t : Toolchain) (paths : List String) :
    ReflTransGen (Step t) ((Moment.ofLoop s).opening paths) (.ofLoop (s.batch t paths)) ∧
      (s.batch t paths).stopped = true ∧ (s.batch t paths).stages = [] := by
  have hsteps := s.batch_steps t paths
  have hserves := (h.opening paths).run hsteps
  refine ⟨hsteps, ?_, Loop.stages_untilStopped t hstages⟩
  rcases Loop.untilStopped_finished t (s := s.schedule [.openBatch paths]) hstages with
    hstopped | ⟨hready, hstages'⟩
  · exact hstopped
  · -- nothing is left to do, so the batch has stopped
    by_contra hopen
    obtain ⟨m', hstep⟩ := hserves.exists_step t (eq_false_of_ne_true hopen)
    have htasks : (Moment.ofLoop (s.batch t paths)).tasks = 0 :=
      congrArg Multiset.ofList (congrArg₂ List.append hready hstages')
    generalize Moment.ofLoop (s.batch t paths) = m at hstep htasks
    cases hstep with
    | run => exact Multiset.cons_ne_zero htasks

end

/-! ## At rest -/

section
variable {m start : Moment} {paths : List String}

/-- Nothing of this is about what the files hold, or the log. -/
theorem Sound.elsewhere (h : Sound m) (files : Files) (log : List LogEntry) :
    Sound ⟨m.tasks, { m.loop with files := files, log := log }⟩ :=
  { h with }

/-- A loop rests whatever becomes of the files and of its log. -/
theorem Moment.Rests.elsewhere (h : m.Rests) (files : Files) (log : List LogEntry) :
    Moment.Rests ⟨m.tasks, { m.loop with files := files, log := log }⟩ :=
  ⟨h.sound.elsewhere files log, h.marks, h.underWay⟩

/-- A loop serves whatever becomes of the files and of its log. -/
theorem Serves.elsewhere (h : Serves start paths m) (files : Files) (log : List LogEntry) :
    Serves start paths ⟨m.tasks, { m.loop with files := files, log := log }⟩ where
  sound := h.sound.elsewhere files log
  phase := by
    cases h.phase with
    | opening hmarks hfiles hstopped => exact .opening hmarks hfiles hstopped
    | running k hmarks houtstanding hpos hstopped =>
      exact .running k hmarks houtstanding hpos hstopped
    | closing hmarks hfiles hstopped => exact .closing hmarks hfiles hstopped
    | resting hmarks hfiles hstopped => exact .resting hmarks hfiles hstopped
  conserves := h.conserves

/-- What a job may be that is left when a loop is closed at rest. -/
inductive Job.IsLeft : Job → Prop
  | call (e : Entry Caller) : IsLeft (.call e)
  | giveUp (e : Entry Caller) : IsLeft (.giveUp e)
  | callEnded (e : Entry Caller) (output : Option String) : IsLeft (.callEnded e output)
  | answered (file : Nat) (failure : Option Refusal) : IsLeft (.answered file failure)

/-- **A loop that is closed at rest**: calls are still given up, and nobody hears
of them. -/
structure Loop.Closes (s₀ s : Loop) : Prop where
  ready : ∀ job ∈ s.ready, job.IsLeft
  stages : s.stages = []
  waiting : s.waiting = []
  still : ∀ w ∈ s.walked, w.waits = false
  past : s.past = s₀.past
  files : s.files = s₀.files
  talk : s.talk.Continues s₀.talk

namespace Loop.Closes

variable {t : Toolchain} {s₀ s : Loop}

/-- A job that is left when the loop is closed changes none of the files. -/
theorem run (h : s₀.Closes s) {job : Job} (hjob : job.IsLeft) : s₀.Closes (s.run t job) := by
  have hmore : ∀ jobs : List Job, (∀ job ∈ jobs, job.IsLeft) →
      ∀ job ∈ s.ready ++ jobs, job.IsLeft := fun jobs hjobs =>
    List.forall_mem_append.2 ⟨h.ready, hjobs⟩
  cases hjob with
  | call e =>
    exact { h with
      ready := hmore [_] (List.forall_mem_singleton.2 (.callEnded e _))
      talk := (t.continues_ask s.talk e.query).trans h.talk }
  | giveUp e =>
    exact { h with ready := hmore [_] (List.forall_mem_singleton.2 (.callEnded e none)) }
  | callEnded e output =>
    have hstarted : ∀ next : Option (Entry Caller), ∀ job ∈ started next, job.IsLeft :=
      fun next => by
      cases next with
      | none => exact List.forall_mem_nil _
      | some e => exact List.forall_mem_singleton.2 (.call e)
    have hnobody : e.caller ∉ s.waiting := h.waiting ▸ List.not_mem_nil
    have hended : s.callEnded e output
        = { s with queue := s.queue.finish.1 }.schedule (started s.queue.finish.2) := if_neg hnobody
    rw [Loop.run, hended]
    exact { h with ready := hmore _ (hstarted _) }
  | answered file failure =>
    rw [Loop.run, Loop.answered]
    cases hw : s.walked[file]? with
    | none => exact h
    | some w =>
      dsimp only
      rw [h.still w (List.mem_of_getElem? hw), if_neg Bool.false_ne_true]
      exact h

/-- So does a turn of such jobs. -/
theorem turn (h : s₀.Closes s) : s₀.Closes (s.turn t) := by
  have hjobs : ∀ (jobs : List Job) (s : Loop), s₀.Closes s → (∀ job ∈ jobs, job.IsLeft) →
      s₀.Closes (jobs.foldl (act t) s) := by
    intro jobs
    induction jobs with
    | nil => exact fun _ h _ => h
    | cons job rest ih =>
      intro s h hleft
      obtain ⟨hjob, hrest⟩ := List.forall_mem_cons.1 hleft
      have hrun := h.run (t := t) hjob
      refine ih _ ?_ hrest
      rw [act, hrun.stages]
      exact hrun
  exact hjobs s.ready _ { h with ready := List.forall_mem_nil _ } h.ready

/-- So do turns of such jobs. -/
theorem turns (h : s₀.Closes s) (n : Nat) : s₀.Closes (Loop.turns t n s) := by
  induction n generalizing s with
  | zero => exact h
  | succ n ih =>
    rw [Loop.turns]
    split
    · exact h
    · exact ih h.turn

end Loop.Closes

/-- A job that is left at rest is dropped, or may be done when the loop is closed. -/
theorem Moment.Rests.isLeft (h : m.Rests) {job : Job} (hjob : job ∈ m.tasks) :
    ∀ job' ∈ Loop.closingJob job, job'.IsLeft := by
  have hmark : ∀ mark, mark ∉ job.marks := fun mark hmark =>
    Multiset.notMem_zero mark (h.marks ▸ Multiset.mem_bind.2 ⟨job, hjob, hmark⟩)
  have hway : ∀ path, job.path? m.loop.walked ≠ some path := fun path hpath =>
    Multiset.notMem_zero path (h.underWay ▸ Moment.mem_underWay_of_path? hjob hpath)
  cases job with
  | put | answer | parseType => exact List.forall_mem_nil _
  | call e => exact List.forall_mem_singleton.2 (.giveUp e)
  | giveUp e => exact List.forall_mem_singleton.2 (.giveUp e)
  | callEnded e output => exact List.forall_mem_singleton.2 (.callEnded e output)
  | answered file failure => exact List.forall_mem_singleton.2 (.answered file failure)
  | openBatch => exact absurd (Multiset.mem_singleton_self _) (hmark .opening)
  | fileOver => exact absurd (Multiset.mem_singleton_self _) (hmark .past)
  | batchOver | stop => exact absurd (Multiset.mem_singleton_self _) (hmark .closing)
  | parse path | walk path | print path | settle path => exact absurd rfl (hway path)
  | start work =>
    cases work with
    | tree => exact (h.sound.ofBatch _ hjob).elim
    | file path => exact absurd rfl (hway path)
  | resume file failure =>
    obtain ⟨w, hw, -⟩ := h.sound.resumed file failure hjob
    exact absurd (by rw [Job.path?, hw]; rfl) (hway w.options.path)

/-- **A loop that is closed at rest** has nothing more to do with any file. -/
theorem Loop.closes_close {s : Loop} (h : (Moment.ofLoop s).Rests) (hstages : s.stages = [])
    (t : Toolchain) : s.Closes (s.close t) := by
  have hclosing : s.Closes { s with
      ready := s.ready.flatMap closingJob
      stages := s.stages.flatMap closingJob
      waiting := []
      stopped := false } :=
    { ready := fun job hjob => by
        obtain ⟨job₀, hjob₀, hjob⟩ := List.mem_flatMap.1 hjob
        exact h.isLeft (Multiset.mem_coe.2 (List.mem_append_left _ hjob₀)) job hjob
      stages := by rw [hstages]; rfl
      waiting := rfl
      still := fun w hw => by
        refine eq_false_of_ne_true fun hwaits => ?_
        obtain ⟨i, hi, rfl⟩ := List.getElem_of_mem hw
        exact Multiset.notMem_zero _
          (h.underWay ▸ Moment.mem_underWay_of_waits (List.getElem?_eq_getElem hi) hwaits)
      past := rfl
      files := rfl
      talk := .refl _ }
  exact hclosing.turns closingTurns

end

/-! ## Batch after batch -/

section
variable {t : Toolchain} {files : Files} {batches : List (List String)} {m m' : Moment}

/-- Before the first batch nothing is to be done. -/
theorem Reached.eq_ofFiles (h : Reached t files batches m) (hnone : batches = []) :
    m = .ofFiles files := by
  induction h with
  | start => rfl
  | batch => exact absurd hnone (by simp)
  | step _ hstep ih =>
    obtain rfl := ih hnone
    generalize hm : Moment.ofFiles files = m at hstep
    cases hstep with
    | run tasks s job => exact absurd (congrArg Moment.tasks hm).symm Multiset.cons_ne_zero

/-- A loop rests when it begins. -/
theorem rests_ofFiles (files : Files) : (Moment.ofFiles files).Rests :=
  ⟨sound_ofFiles files, rfl, rfl⟩

/-- **At every moment a batch is served** that began at rest, after those before it. -/
theorem Reached.serves (h : Reached t files batches m) (hsome : batches ≠ []) :
    ∃ before paths start, batches = before ++ [paths] ∧ Serves start paths m ∧
      (start.loop.past.map (·.1)).Perm before.flatten := by
  induction h with
  | start => exact absurd rfl hsome
  | @batch batches m hreached hrest paths ih =>
    by_cases hnone : batches = []
    · obtain rfl := hreached.eq_ofFiles hnone
      obtain rfl := hnone
      exact ⟨[], paths, _, rfl, (rests_ofFiles files).opening paths, .refl _⟩
    · obtain ⟨before, last, start, rfl, hserves, hover⟩ := ih hnone
      obtain ⟨hrests, hperm⟩ := hserves.rests (hrest.resolve_left hnone)
      refine ⟨_, paths, m, rfl, hrests.opening paths, hperm.trans ?_⟩
      simpa using hover.append_right last
  | step _ hstep ih =>
    obtain ⟨before, paths, start, hbatches, hserves, hover⟩ := ih hsome
    exact ⟨before, paths, start, hbatches, hserves.step hstep, hover⟩

/-- **Each entry of the batches** is to begin, under way or over. -/
theorem Reached.conserves (h : Reached t files batches m) :
    (m.loop.past.map (·.1) : Multiset String) + m.underWay + m.unopened
      = (batches.flatten : Multiset String) := by
  by_cases hnone : batches = []
  · obtain rfl := h.eq_ofFiles hnone
    rw [hnone]
    rfl
  · obtain ⟨before, paths, start, rfl, hserves, hover⟩ := h.serves hnone
    rw [hserves.conserves, Multiset.coe_eq_coe.2 hover, Multiset.coe_add, List.flatten_append,
      List.flatten_singleton]

/-- **Between two batches** nothing is under way, and each entry of the batches
is over, once. -/
theorem Reached.rests (h : Reached t files batches m)
    (hrest : batches = [] ∨ m.loop.stopped = true) :
    m.Rests ∧ (m.loop.past.map (·.1)).Perm batches.flatten := by
  by_cases hnone : batches = []
  · obtain rfl := h.eq_ofFiles hnone
    obtain rfl := hnone
    exact ⟨rests_ofFiles files, .refl _⟩
  · obtain ⟨before, paths, start, rfl, hserves, hover⟩ := h.serves hnone
    obtain ⟨hrests, hperm⟩ := hserves.rests (hrest.resolve_left hnone)
    refine ⟨hrests, hperm.trans ?_⟩
    simpa using hover.append_right paths

/-- **What the loop does with a batch is reached.** -/
theorem Reached.ofLoop {s : Loop} (h : Reached t files batches (.ofLoop s))
    (hrest : batches = [] ∨ s.stopped = true) (hstages : s.stages = []) (paths : List String) :
    Reached t files (batches ++ [paths]) (.ofLoop (s.batch t paths)) ∧
      (s.batch t paths).stopped = true ∧ (s.batch t paths).stages = [] := by
  obtain ⟨hsteps, hend⟩ := batch_serves (h.rests hrest).1 hstages t paths
  exact ⟨(h.batch hrest paths).run hsteps, hend⟩

end

end Retype.Batch
