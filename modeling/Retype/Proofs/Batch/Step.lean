import Mathlib.Data.Multiset.Bind
import Retype.Proofs.Batch.Interleaving
/-!
# What a step does

A parameter is open from the time when its file is walked until it has its
annotation: it is about to put its question, its question is in the queue, or
its answer is on the way (`openCallers`). The files are attended to (`Sound`) if
every open parameter has a place, one call is in flight if there is any
question, and a file that waits misses as many parameters as are open or about
to tell it. Then a step does one of a few things (`Step.does`), and everything
that is proved about interleaved batches goes by these cases.
-/

namespace Retype.Batch

open Inference (Queue Entry)

/-! ## What the jobs are about -/

/-- The questions in a queue, with the one in flight. -/
def Loop.entries (q : Queue Caller) : Multiset (Entry Caller) :=
  (q.active.toList ++ q.pending : List (Entry Caller))

/-- The jobs that begin the files of a batch, or end a batch without files. -/
def Loop.starts (paths : List String) : List Job :=
  if paths.isEmpty then [.stop] else paths.map fun path => .start (.file path)

/-- The jobs of the parameters of a file that has just been walked. -/
def Loop.puts (s : Loop) (w : Walked) : List Job := (s.callers w.locations.length).map .put

namespace Job

/-- Whether a job can be there while batches are served. -/
def OfBatch : Job → Prop
  | .start (.tree ..) => False
  | .giveUp _ => False
  | .settle _ (.ok (.tree _)) => False
  | _ => True

/-- The parameter whose question or answer this is. -/
def callers : Job → Multiset Caller
  | .put c => {c}
  | .answer c _ => {c}
  | .parseType c _ => {c}
  | _ => 0

/-- The question whose call is in flight. -/
def entries : Job → Multiset (Entry Caller)
  | .call e => {e}
  | .callEnded e _ => {e}
  | _ => 0

/-- The file that is told that a parameter is done. -/
def told : Job → Multiset Nat
  | .answered file _ => {file}
  | _ => 0

/-- Whether this is an answer on its way to a parameter. -/
def Answers (c : Caller) : Job → Prop
  | .answer c' _ => c' = c
  | .parseType c' _ => c' = c
  | _ => False

section
variable (next : Option (Entry Caller)) (paths : List String) (s : Loop) (w : Walked)

/-- What no job of a list contributes to, the whole list contributes nothing to. -/
theorem bind_eq_zero {α : Type} {f : Job → Multiset α} {jobs : List Job}
    (h : ∀ job ∈ jobs, f job = 0) : (jobs : Multiset Job).bind f = 0 := by
  refine Multiset.eq_zero_of_forall_notMem fun a ha => ?_
  obtain ⟨job, hjob, hmem⟩ := Multiset.mem_bind.1 ha
  rw [h job (Multiset.mem_coe.1 hjob)] at hmem
  exact Multiset.notMem_zero a hmem

/-- A call that starts is nothing but a call. -/
theorem bind_started {α : Type} {f : Job → Multiset α} (h : ∀ e, f (.call e) = 0) :
    (Loop.started next : Multiset Job).bind f = 0 := by
  cases next with
  | none => rfl
  | some e => exact bind_eq_zero (List.forall_mem_singleton.2 (h e))

/-- A call that starts puts no parameter up. -/
@[simp] theorem callers_started : (Loop.started next : Multiset Job).bind callers = 0 :=
  bind_started next fun _ => rfl

/-- The entry the queue starts next is the only one its start puts among the tasks. -/
@[simp] theorem entries_started :
    (Loop.started next : Multiset Job).bind entries = next.toList := by
  cases next <;> rfl

/-- Starting a queued call tells no file anything. -/
@[simp] theorem told_started : (Loop.started next : Multiset Job).bind told = 0 :=
  bind_started next fun _ => rfl

/-- The first jobs of a batch contribute nothing that only the later ones do. -/
theorem bind_starts {α : Type} {f : Job → Multiset α} (hstop : f .stop = 0)
    (hstart : ∀ path, f (.start (.file path)) = 0) :
    (Loop.starts paths : Multiset Job).bind f = 0 := by
  refine bind_eq_zero fun job hjob => ?_
  rw [Loop.starts] at hjob
  split at hjob
  · exact List.mem_singleton.1 hjob ▸ hstop
  · obtain ⟨path, -, rfl⟩ := List.mem_map.1 hjob
    exact hstart path

/-- No parameter is asked about when a batch begins. -/
@[simp] theorem callers_starts : (Loop.starts paths : Multiset Job).bind callers = 0 :=
  bind_starts paths rfl fun _ => rfl

/-- No call is under way when a batch begins. -/
@[simp] theorem entries_starts : (Loop.starts paths : Multiset Job).bind entries = 0 :=
  bind_starts paths rfl fun _ => rfl

/-- No file has been told anything when a batch begins. -/
@[simp] theorem told_starts : (Loop.starts paths : Multiset Job).bind told = 0 :=
  bind_starts paths rfl fun _ => rfl

/-- **A walked file asks once for each of its parameters.** -/
@[simp] theorem callers_puts : (s.puts w : Multiset Job).bind callers
    = (s.callers w.locations.length : List Caller) := by
  rw [Loop.puts, ← Multiset.map_coe, Multiset.bind_map]
  exact (Multiset.bind_singleton ..).trans (Multiset.map_id _)

/-- What a question does not contribute to, all questions of a file do not. -/
theorem bind_puts {α : Type} {f : Job → Multiset α} (h : ∀ c, f (.put c) = 0) :
    (s.puts w : Multiset Job).bind f = 0 := by
  refine bind_eq_zero fun job hjob => ?_
  obtain ⟨c, -, rfl⟩ := List.mem_map.1 hjob
  exact h c

/-- The questions of a file are no calls yet. -/
@[simp] theorem entries_puts : (s.puts w : Multiset Job).bind entries = 0 :=
  bind_puts s w fun _ => rfl

/-- The questions of a file tell no file anything yet. -/
@[simp] theorem told_puts : (s.puts w : Multiset Job).bind told = 0 := bind_puts s w fun _ => rfl

end

end Job

/-- The parameters that wait for their annotations. -/
def openCallers (tasks : Multiset Job) (q : Queue Caller) : Multiset Caller :=
  tasks.bind Job.callers + (Loop.entries q).map (·.caller)

/-- The files of these parameters, and those that are about to be told of one. -/
def toward (tasks : Multiset Job) (q : Queue Caller) : Multiset Nat :=
  (openCallers tasks q).map (·.file) + tasks.bind Job.told

/-! ## The queue -/

section
variable {q q' : Queue Caller} {e : Entry Caller} {next : Option (Entry Caller)}

/-- Submitting an entry adds that entry to the queue's and nothing else. -/
theorem entries_submit (h : q.submit e = (q', next)) : Loop.entries q' = e ::ₘ Loop.entries q := by
  obtain ⟨pending, active⟩ := q
  have hlast : (pending ++ [e]).Perm (e :: pending) := List.perm_append_singleton e pending
  refine Multiset.coe_eq_coe.2 ?_
  cases active with
  | some a =>
    obtain ⟨rfl, -⟩ := Prod.mk.inj h
    exact (List.Perm.cons a hlast).trans (.swap e a pending)
  | none =>
    cases pending with
    | nil =>
      obtain ⟨rfl, -⟩ := Prod.mk.inj h
      exact .refl _
    | cons first more =>
      obtain ⟨rfl, -⟩ := Prod.mk.inj h
      exact hlast

/-- Finishing a call takes the active entry from the queue's and nothing else. -/
theorem entries_finish (hactive : q.active = some e) (h : q.finish = (q', next)) :
    Loop.entries q = e ::ₘ Loop.entries q' := by
  obtain ⟨pending, active⟩ := q
  obtain rfl : active = some e := hactive
  cases pending <;> (obtain ⟨rfl, -⟩ := Prod.mk.inj h; rfl)

/-- A call starts when a question is put while none is in flight. -/
theorem active_submit (hidle : q.active = none → q.pending = []) (h : q.submit e = (q', next)) :
    q'.active.toList = q.active.toList ++ next.toList ∧ q'.active.isSome := by
  obtain ⟨pending, active⟩ := q
  cases active with
  | some a =>
    obtain ⟨rfl, rfl⟩ := Prod.mk.inj h
    exact ⟨rfl, rfl⟩
  | none =>
    obtain rfl : pending = [] := hidle rfl
    obtain ⟨rfl, rfl⟩ := Prod.mk.inj h
    exact ⟨rfl, rfl⟩

/-- When a call has ended, the next one starts if there is one. -/
theorem active_finish (h : q.finish = (q', next)) :
    q'.active.toList = next.toList ∧ (q'.active = none → q'.pending = []) := by
  obtain ⟨pending, active⟩ := q
  cases pending <;> (obtain ⟨rfl, rfl⟩ := Prod.mk.inj h; simp)

end

/-! ## Places -/

/-- A caller's place is the location its file's walk collected under its number. -/
theorem Loop.place?_eq_some_iff {s : Loop} {c : Caller} {o : Migration.FileOptions}
    {l : Result Location} : s.place? c = some (o, l) ↔
      ∃ w, s.walked[c.file]? = some w ∧ w.locations[c.param]? = some l ∧ o = w.options := by
  unfold place?
  cases s.walked[c.file]? with
  | none => simp
  | some w =>
    cases hl : w.locations[c.param]? with
    | none => simp [hl]
    | some l' =>
      simp only [Option.bind_eq_bind, Option.bind_some, hl, Option.pure_def, Option.some.injEq,
        Prod.mk.injEq, exists_eq_left']
      exact ⟨fun ⟨ho, hl⟩ => ⟨hl, ho.symm⟩, fun ⟨hl, ho⟩ => ⟨ho.symm, hl⟩⟩

/-- A parameter of a walked file, and where it stands. -/
def Loop.Stands (s : Loop) (c : Caller) (w : Walked) (l : Result Location) : Prop :=
  s.walked[c.file]? = some w ∧ w.locations[c.param]? = some l

/-- **The files are attended to.** -/
structure Sound (m : Moment) : Prop where
  ready : m.loop.ready = []
  stages : m.loop.stages = []
  ofBatch : ∀ job ∈ m.tasks, job.OfBatch
  /-- Outside of batches there is nothing to do but to begin one. -/
  opened : ∀ job ∈ m.tasks, (∀ paths, job ≠ .openBatch paths) → m.loop.outstanding.isSome
  distinct : (openCallers m.tasks m.loop.queue).Nodup
  placed : ∀ c ∈ openCallers m.tasks m.loop.queue, ∃ w l, m.loop.Stands c w l
  waiting : (m.loop.waiting : Multiset Caller) = (Loop.entries m.loop.queue).map (·.caller)
  asked : ∀ e ∈ Loop.entries m.loop.queue, ∃ w location,
    m.loop.Stands e.caller w (.ok location) ∧ e.query = ⟨w.options.path, location⟩
  inFlight : m.tasks.bind Job.entries = (m.loop.queue.active.toList : List (Entry Caller))
  idle : m.loop.queue.active = none → m.loop.queue.pending = []
  answers : ∀ job ∈ m.tasks, ∀ c, job.Answers c → ∃ w location, m.loop.Stands c w (.ok location)
  told : ∀ file failure, .answered file failure ∈ m.tasks → ∃ w, m.loop.walked[file]? = some w
  resumed : ∀ file failure, .resume file failure ∈ m.tasks →
    ∃ w, m.loop.walked[file]? = some w ∧ w.waits = false
  sources : ∀ w ∈ m.loop.walked, w.source.isSome
  missing : ∀ file w, m.loop.walked[file]? = some w → w.waits = true →
    1 ≤ w.missing ∧ w.missing = (toward m.tasks m.loop.queue).count file

/-! ## What a step does -/

/-- A file at another time: what was walked does not change. -/
structure Walked.SameFile (w' w : Walked) : Prop where
  options : w'.options = w.options
  source : w'.source = w.source
  tree : w'.tree = w.tree
  hasJsx : w'.hasJsx = w.hasJsx
  locations : w'.locations = w.locations

/-- A walked file is the same file as itself. -/
theorem Walked.SameFile.refl (w : Walked) : w.SameFile w := ⟨rfl, rfl, rfl, rfl, rfl⟩

/-- A file whose parameter has got its annotation, unless that was refused. -/
def Walked.given (w : Walked) (param : Nat) : Result (Option Json) → Walked
  | .ok type => { w with annotations := w.annotations.set param type }
  | .error _ => w

section
variable (w : Walked) (param : Nat) (r : Result (Option Json))

/-- An annotation given to one parameter leaves the file what it was. -/
theorem Walked.sameFile_given : (w.given param r).SameFile w := by
  cases r <;> exact ⟨rfl, rfl, rfl, rfl, rfl⟩

/-- An annotation given to a parameter is no answer still missing. -/
@[simp] theorem Walked.missing_given : (w.given param r).missing = w.missing := by cases r <;> rfl

/-- A file waits for its checker after an annotation as before it. -/
@[simp] theorem Walked.waits_given : (w.given param r).waits = w.waits := by cases r <;> rfl

/-- The annotations keep their number. -/
@[simp] theorem Walked.length_given :
    (w.given param r).annotations.length = w.annotations.length := by
  cases r with
  | ok => exact List.length_set
  | error => rfl

/-- The other parameters keep their annotations. -/
theorem Walked.given_of_ne {param j : Nat} (h : param ≠ j) :
    (w.given param r).annotations[j]? = w.annotations[j]? := by
  cases r with
  | ok => exact List.getElem?_set_ne h
  | error => rfl

end

/-- The loop in which a parameter of a file has got its annotation, after some
talk. -/
def Loop.conclude (s : Loop) (c : Caller) (w : Walked) (r : Recorded (Option Json)) (talk : Talk)
    (entries : List LogEntry) : Loop :=
  { s with
    talk := talk
    log := s.log ++ entries
    findings := s.findings ++ r.findings
    walked := s.walked.set c.file (w.given c.param r.result) }

/-- The loop in which a file has just been walked. -/
def Loop.beginFile (s : Loop) (b : Beginning) : Loop :=
  { s with
    findings := s.findings ++ b.findings
    walked := s.walked ++ [b.walked]
    hasJsx := s.hasJsx || b.walked.hasJsx }

section
variable {s : Loop} {i : Nat} {w w' : Walked}

/-- **Only the file of a parameter changes** when the parameter gets its annotation. -/
theorem Loop.walked_conclude {c : Caller} {w₀ : Walked} {l : Result Location}
    {r : Recorded (Option Json)} {talk : Talk} {entries : List LogEntry} (h : s.Stands c w₀ l)
    (hw : s.walked[i]? = some w)
    (hw' : (s.conclude c w₀ r talk entries).walked[i]? = some w') :
    c.file = i ∧ w = w₀ ∧ w' = w₀.given c.param r.result ∨ c.file ≠ i ∧ w' = w := by
  rw [conclude] at hw'
  by_cases hfile : c.file = i
  · subst hfile
    rw [List.getElem?_set_self (List.getElem?_eq_some_iff.1 hw).1] at hw'
    exact .inl ⟨rfl, Option.some.inj (hw.symm.trans h.1), (Option.some.inj hw').symm⟩
  · rw [List.getElem?_set_ne hfile, hw] at hw'
    exact .inr ⟨hfile, (Option.some.inj hw').symm⟩

/-- The files that were walked before stay when another one begins. -/
theorem Loop.walked_beginFile {b : Beginning} (hw : s.walked[i]? = some w)
    (hw' : (s.beginFile b).walked[i]? = some w') : w' = w := by
  rw [beginFile, List.getElem?_append_left (List.getElem?_eq_some_iff.1 hw).1, hw] at hw'
  exact (Option.some.inj hw').symm

/-- The file that begins comes after them. -/
theorem Loop.begun_beginFile (s : Loop) (b : Beginning) :
    (s.beginFile b).walked[s.walked.length]? = some b.walked := by
  rw [beginFile, List.getElem?_append_right (Nat.le_refl _), Nat.sub_self]
  rfl

end

/-- **What comes after a stage of a file** that is no walk, and what is said in
it. -/
inductive Follows (t : Toolchain) (s : Loop) : Job → Job → Talk → Prop
  | read (path : String) : Follows t s (.start (.file path))
      (Loop.afterReading path (t.readSource s.files path)) s.talk
  | parsed (path source : String) : Follows t s (.parse path source)
      (Loop.afterParsing path source
        (t.parsed (t.request s.talk (Bridge.parseRequest source)).1))
      (t.request s.talk (Bridge.parseRequest source)).2
  | printed (path source : String) (tree : Json) (hasJsx : Bool) :
      Follows t s (.print path source tree hasJsx)
        (.settle path ((t.printed path hasJsx
          (t.request s.talk (t.printRequest source tree)).1).map .file))
        (t.request s.talk (t.printRequest source tree)).2
  | unwritten {path : String} {m : MigratedFile} {cause : Failure}
      (h : m.write s.files = .error cause) :
      Follows t s (.settle path (.ok (.file m))) (.settle path (.error cause)) s.talk
  | resumed {file : Nat} {w : Walked} (h : s.walked[file]? = some w) (failure : Option Refusal) :
      Follows t s (.resume file failure) (w.conclusion failure) s.talk

/-- **The last job of a parameter**: to be put where it cannot stand, or to get
its answer. What is inferred then, and what is said and logged for it. -/
inductive Concludes (t : Toolchain) (s : Loop) (c : Caller) (w : Walked) :
    Result Location → Job → Recorded (Option Json) → Talk → List LogEntry → Prop
  | misplaced (e : Refusal) : Concludes t s c w (.error e) (.put c) (.refuse e) s.talk []
  | unusable (location : Location) {output : Option String} (h : t.typeText output = none) :
      Concludes t s c w (.ok location) (.answer c output)
        (Migration.annotationInferred w.options location none) s.talk []
  | parsed (location : Location) (text : String) :
      Concludes t s c w (.ok location) (.parseType c text)
        (Migration.annotationInferred w.options location (t.parsedType
          (t.request s.talk (Bridge.parseRequest (Bridge.aliasSource text))).1))
        (t.request s.talk (Bridge.parseRequest (Bridge.aliasSource text))).2 [.parsed text]

/-- **How a file is over** that is settled, and the files then. -/
inductive Settles (files : Files) : Except Failure Done → Ending → Files → Prop
  | written {m : MigratedFile} {written : Files} (h : m.write files = .ok written) :
      Settles files (.ok (.file m)) (.written m) written
  | skipped : Settles files (.ok .tooLarge) .skipped files
  | failed (cause : Failure) : Settles files (.error cause) (.failed cause) files

/-- **What a step does.** -/
inductive Does (t : Toolchain) : Moment → Moment → Prop
  | opened {tasks s} (paths : List String) :
      Does t ⟨.openBatch paths ::ₘ tasks, s⟩
        ⟨tasks + Loop.starts paths, { s with outstanding := some paths.length }⟩
  | staged {tasks s} {job next : Job} {talk : Talk} (h : Follows t s job next talk) :
      Does t ⟨job ::ₘ tasks, s⟩ ⟨next ::ₘ tasks, { s with talk := talk }⟩
  | walked {tasks s} {path source : String} {tree : Json} {b : Beginning}
      (hb : b = .ofTree (t.fileOptions path) (some source) tree) :
      Does t ⟨.walk path source tree ::ₘ tasks, s⟩
        ⟨tasks + s.puts b.walked + b.next.toList, s.beginFile b⟩
  | asked {tasks s} {c : Caller} {w : Walked} {location : Location} {queue : Queue Caller}
      {next : Option (Entry Caller)} (h : s.Stands c w (.ok location))
      (hqueue : s.queue.submit ⟨c, ⟨w.options.path, location⟩⟩ = (queue, next)) :
      Does t ⟨.put c ::ₘ tasks, s⟩
        ⟨tasks + Loop.started next, { s with queue := queue, waiting := s.waiting ++ [c] }⟩
  | called {tasks s} (e : Entry Caller) :
      Does t ⟨.call e ::ₘ tasks, s⟩
        ⟨.callEnded e (t.ask s.talk e.query).1 ::ₘ tasks,
          { s with talk := (t.ask s.talk e.query).2, log := s.log ++ [.asked e.query] }⟩
  | heard {tasks s} {e : Entry Caller} {output : Option String} {queue : Queue Caller}
      {next : Option (Entry Caller)} (hactive : s.queue.active = some e)
      (hqueue : s.queue.finish = (queue, next)) (hwaits : e.caller ∈ s.waiting) :
      Does t ⟨.callEnded e output ::ₘ tasks, s⟩
        ⟨.answer e.caller output ::ₘ (tasks + Loop.started next),
          { s with queue := queue, waiting := s.waiting.filter (· ≠ e.caller) }⟩
  | texted {tasks s} (c : Caller) {output : Option String} {text : String}
      (h : t.typeText output = some text) :
      Does t ⟨.answer c output ::ₘ tasks, s⟩ ⟨.parseType c text ::ₘ tasks, s⟩
  | concluded {tasks s} {c : Caller} {w : Walked} {l : Result Location} {job : Job}
      {r : Recorded (Option Json)} {talk : Talk} {entries : List LogEntry} (h : s.Stands c w l)
      (hjob : Concludes t s c w l job r talk entries) :
      Does t ⟨job ::ₘ tasks, s⟩
        ⟨.answered c.file r.refusal? ::ₘ tasks, s.conclude c w r talk entries⟩
  | ignored {tasks s} {file : Nat} {failure : Option Refusal}
      (h : ∀ w, s.walked[file]? = some w → w.waits = false) :
      Does t ⟨.answered file failure ::ₘ tasks, s⟩ ⟨tasks, s⟩
  | missed {tasks s} {file : Nat} {w : Walked} (h : s.walked[file]? = some w)
      (hwaits : w.waits = true) (hmissing : 1 < w.missing) :
      Does t ⟨.answered file none ::ₘ tasks, s⟩
        ⟨tasks, { s with walked := s.walked.set file { w with missing := w.missing - 1 } }⟩
  | ended {tasks s} {file : Nat} {failure : Option Refusal} {w : Walked}
      (h : s.walked[file]? = some w) (hwaits : w.waits = true)
      (hend : failure.isSome ∨ w.missing ≤ 1) :
      Does t ⟨.answered file failure ::ₘ tasks, s⟩
        ⟨.resume file failure ::ₘ tasks,
          { s with
            walked := s.walked.set file { w with missing := w.missing - 1, waits := false } }⟩
  | settled {tasks s} {path : String} {r : Except Failure Done} {e : Ending} {files : Files}
      (h : Settles s.files r e files) :
      Does t ⟨.settle path r ::ₘ tasks, s⟩
        ⟨.fileOver ::ₘ tasks,
          { s with
            files := files
            past := s.past ++ [(path, e)]
            findings := s.findings ++ e.findings path
            log := s.log ++ e.entries path }⟩
  | counted {tasks s} :
      Does t ⟨.fileOver ::ₘ tasks, s⟩
        ⟨tasks + (if s.outstanding.getD 0 - 1 = 0 then [Job.batchOver] else [] : List Job),
          { s with outstanding := some (s.outstanding.getD 0 - 1) }⟩
  | closed {tasks s} : Does t ⟨.batchOver ::ₘ tasks, s⟩ ⟨.stop ::ₘ tasks, s⟩
  | stopped {tasks s} : Does t ⟨.stop ::ₘ tasks, s⟩ ⟨tasks, { s with stopped := true }⟩

/-! ## Every step does one of these things -/

section
variable {t : Toolchain} {tasks : Multiset Job} {s : Loop}

/-- A job that makes some jobs ready, or enters some stages. -/
theorem Does.of_run {tasks' : Multiset Job} {s' : Loop} {job : Job} (ready stages : List Job)
    (h : Does t ⟨job ::ₘ tasks, s⟩ ⟨tasks', s'⟩) (hready : s'.ready = []) (hstages : s'.stages = [])
    (htasks : tasks' = tasks + (ready ++ stages : List Job))
    (hrun : s.run t job = { s' with ready := ready, stages := stages }) :
    Does t ⟨job ::ₘ tasks, s⟩ ⟨tasks + (s.run t job).jobs, (s.run t job).calm⟩ := by
  obtain ⟨ready', stages', queue⟩ := s'
  obtain rfl : ready' = [] := hready
  obtain rfl : stages' = [] := hstages
  rw [hrun, htasks] at *
  exact h

/-- A task added is a list of one job added. -/
theorem cons_eq_add (job : Job) : job ::ₘ tasks = tasks + ([job] : List Job) := by
  rw [Multiset.coe_singleton, add_comm, Multiset.singleton_add]

/-- Writing back what stands at a number changes nothing. -/
theorem set_self_of_getElem? {walked : List Walked} {i : Nat} {w : Walked}
    (h : walked[i]? = some w) : walked.set i w = walked := by
  obtain ⟨hlt, rfl⟩ := List.getElem?_eq_some_iff.1 h
  exact List.set_getElem_self hlt

/-- Changing the entry at a number is writing the changed entry there. -/
theorem modify_of_getElem? {walked : List Walked} {i : Nat} {w : Walked} (f : Walked → Walked)
    (h : walked[i]? = some w) : walked.modify i f = walked.set i (f w) := by
  have : Inhabited Walked := ⟨w⟩
  rw [List.modify_eq_set, h]
  rfl

/-- A caller that is refused leaves the loop as it stands. -/
theorem Loop.conclude_refuse {c : Caller} {w : Walked} {l : Result Location} (h : s.Stands c w l)
    (e : Refusal) : s.conclude c w (.refuse e) s.talk [] = s := by
  simp [conclude, Recorded.refuse, Walked.given, set_self_of_getElem? h.1]

/-- What an answer does: the parameter has its annotation, and its file is about
to be told. -/
theorem Loop.infer_eq {c : Caller} {w : Walked} {location : Location}
    (h : s.Stands c w (.ok location)) (type : Option Json) : s.infer c type =
      let r := Migration.annotationInferred w.options location type
      (s.conclude c w r s.talk []).schedule [.answered c.file r.refusal?] := by
  have hplace : s.place? c = some (w.options, .ok location) :=
    Loop.place?_eq_some_iff.2 ⟨w, h.1, h.2, rfl⟩
  unfold infer
  rw [hplace]
  dsimp only
  rcases Migration.annotationInferred w.options location type with ⟨findings, e | given⟩
  · simp [conclude, record, Recorded.refusal?, Walked.given, set_self_of_getElem? h.1]
  · have hmodify :=
      modify_of_getElem? (fun w => { w with annotations := w.annotations.set c.param given })
      h.1
    simp [conclude, annotate, record, Recorded.refusal?, Walked.given, hmodify]

/-- What the parsing of an answer does: the same, with what is said then. -/
theorem Loop.run_parseType {c : Caller} {w : Walked} {location : Location}
    (h : s.Stands c w (.ok location)) (text : String) : s.run t (.parseType c text) =
      let reply := t.request s.talk (Bridge.parseRequest (Bridge.aliasSource text))
      let r := Migration.annotationInferred w.options location (t.parsedType reply.1)
      (s.conclude c w r reply.2 [.parsed text]).schedule [.answered c.file r.refusal?] := by
  generalize hreply : t.request s.talk (Bridge.parseRequest (Bridge.aliasSource text)) = reply
  have hrun : s.run t (.parseType c text)
      = ({ s with talk := reply.2 }.note (.parsed text)).infer c (t.parsedType reply.1) :=
    hreply ▸ rfl
  have hsaid : ({ s with talk := reply.2 }.note (.parsed text)).Stands c w (.ok location) := h
  rw [hrun, Loop.infer_eq hsaid]
  simp [Loop.conclude, Loop.note]

/-- A stage that enters the next one. -/
theorem Does.of_enter {job next : Job} {talk : Talk} (hs : Sound ⟨job ::ₘ tasks, s⟩)
    (h : Follows t s job next talk) (hrun : s.run t job = { s with talk := talk }.enter next) :
    Does t ⟨job ::ₘ tasks, s⟩ ⟨tasks + (s.run t job).jobs, (s.run t job).calm⟩ :=
  (Does.staged h).of_run [] _ hs.ready hs.stages (cons_eq_add _) (by
    rw [hrun, Loop.enter, hs.stages, hs.ready]
    rfl)

/-- A job that makes others ready. -/
theorem Does.of_schedule {tasks' : Multiset Job} {s' : Loop} {job : Job} (jobs : List Job)
    (hs : Sound ⟨job ::ₘ tasks, s⟩) (h : Does t ⟨job ::ₘ tasks, s⟩ ⟨tasks', s'⟩)
    (hready : s'.ready = s.ready) (hstages : s'.stages = s.stages)
    (htasks : tasks' = tasks + (jobs : List Job)) (hrun : s.run t job = s'.schedule jobs) :
    Does t ⟨job ::ₘ tasks, s⟩ ⟨tasks + (s.run t job).jobs, (s.run t job).calm⟩ := by
  have hready := hready.trans hs.ready
  have hstages := hstages.trans hs.stages
  refine h.of_run jobs [] hready hstages (by rw [List.append_nil, htasks]) ?_
  rw [hrun, Loop.schedule, hready, hstages, List.nil_append]

/-! ### Stages -/

/-- What a job that begins or settles a file makes of a loop in which a batch is open. -/
theorem does_settle {path : String} {r : Except Failure Done}
    (hs : Sound ⟨.settle path r ::ₘ tasks, s⟩) : Does t ⟨.settle path r ::ₘ tasks, s⟩
      ⟨tasks + (s.run t (.settle path r)).jobs, (s.run t (.settle path r)).calm⟩ := by
  obtain ⟨k, hk⟩ := Option.isSome_iff_exists.1
    (hs.opened _ (Multiset.mem_cons_self ..) (fun paths => nofun))
  have hk : s.outstanding = some k := hk
  have hrun : s.run t (.settle path r) = s.settleFile path r := by
    rw [Loop.run, Loop.settle, hk]
  have hover : ∀ {e : Ending} {files : Files}, Settles s.files r e files →
      s.settleFile path r = Loop.finishFile { s with files := files } path e →
      Does t ⟨.settle path r ::ₘ tasks, s⟩
        ⟨tasks + (s.run t (.settle path r)).jobs, (s.run t (.settle path r)).calm⟩ :=
    fun h hsettled =>
      (Does.settled h).of_schedule _ hs rfl rfl (cons_eq_add _) (hrun.trans hsettled)
  rcases r with cause | (tree | m | _)
  · exact hover (.failed cause) rfl
  · exact (hs.ofBatch _ (Multiset.mem_cons_self ..)).elim
  · cases hwrite : m.write s.files with
    | error cause =>
      exact Does.of_enter hs (.unwritten hwrite) (hrun.trans (by rw [Loop.settleFile, hwrite]))
    | ok files => exact hover (.written hwrite) (by rw [Loop.settleFile, hwrite])
  · exact hover .skipped rfl

/-- A walk of a file is a step that the account of the batch allows. -/
theorem does_walk {path source : String} {tree : Json}
    (hs : Sound ⟨.walk path source tree ::ₘ tasks, s⟩) :
    Does t ⟨.walk path source tree ::ₘ tasks, s⟩
      ⟨tasks + (s.run t (.walk path source tree)).jobs,
        (s.run t (.walk path source tree)).calm⟩ := by
  refine (Does.walked rfl).of_run (s.puts _) (Option.toList _) hs.ready hs.stages
    (by rw [← Multiset.coe_add, add_assoc]) ?_
  have hready : s.ready = [] := hs.ready
  have hstages : s.stages = [] := hs.stages
  simp [Loop.run, Loop.begin, Loop.beginFile, Loop.puts, hready, hstages]

/-- So is the moment a walked file goes on or waits. -/
theorem does_resume {file : Nat} {failure : Option Refusal}
    (hs : Sound ⟨.resume file failure ::ₘ tasks, s⟩) : Does t ⟨.resume file failure ::ₘ tasks, s⟩
      ⟨tasks + (s.run t (.resume file failure)).jobs, (s.run t (.resume file failure)).calm⟩ := by
  obtain ⟨w, hw, -⟩ := hs.resumed file failure (Multiset.mem_cons_self ..)
  have hw : s.walked[file]? = some w := hw
  exact Does.of_enter hs (.resumed hw failure) (by rw [Loop.run, Loop.resume, hw])

/-! ### Parameters -/

/-- So is a parameter's question put to the checker. -/
theorem does_put {c : Caller} (hs : Sound ⟨.put c ::ₘ tasks, s⟩) : Does t ⟨.put c ::ₘ tasks, s⟩
    ⟨tasks + (s.run t (.put c)).jobs, (s.run t (.put c)).calm⟩ := by
  obtain ⟨w, l, hstands⟩ := hs.placed c (by simp [openCallers, Job.callers])
  have hplace : s.place? c = some (w.options, l) :=
    Loop.place?_eq_some_iff.2 ⟨w, hstands.1, hstands.2, rfl⟩
  cases l with
  | error e =>
    have hdoes : Does t ⟨.put c ::ₘ tasks, s⟩ ⟨_, s.conclude c w (.refuse e) s.talk []⟩ :=
      .concluded hstands (.misplaced e)
    refine hdoes.of_schedule _ hs rfl rfl (cons_eq_add _) ?_
    rw [Loop.conclude_refuse hstands, Loop.run, Loop.put, hplace]
    rfl
  | ok location =>
    refine (Does.asked hstands (Prod.eta _).symm).of_schedule _ hs rfl rfl rfl ?_
    rw [Loop.run, Loop.put, hplace]

/-- So is the end of a call. -/
theorem does_callEnded {e : Entry Caller} {output : Option String}
    (hs : Sound ⟨.callEnded e output ::ₘ tasks, s⟩) : Does t ⟨.callEnded e output ::ₘ tasks, s⟩
      ⟨tasks + (s.run t (.callEnded e output)).jobs, (s.run t (.callEnded e output)).calm⟩ := by
  have hactive : s.queue.active = some e := by
    have hmem : e ∈ (s.queue.active.toList : Multiset (Entry Caller)) := by
      rw [← hs.inFlight]
      simp [Job.entries]
    exact Option.mem_toList.1 hmem
  have hwaits : e.caller ∈ s.waiting := by
    rw [← Multiset.mem_coe, hs.waiting]
    exact Multiset.mem_map_of_mem _ (by simp [Loop.entries, hactive])
  refine (Does.heard hactive (Prod.eta _).symm hwaits).of_schedule
    (Loop.started s.queue.finish.2 ++ [.answer e.caller output]) hs rfl rfl ?_ ?_
  · rw [cons_eq_add, ← Multiset.coe_add, add_assoc]
  · simp [Loop.run, Loop.callEnded, Loop.schedule, hwaits]

/-- So is the answer a caller reads. -/
theorem does_answer {c : Caller} {output : Option String}
    (hs : Sound ⟨.answer c output ::ₘ tasks, s⟩) : Does t ⟨.answer c output ::ₘ tasks, s⟩
      ⟨tasks + (s.run t (.answer c output)).jobs, (s.run t (.answer c output)).calm⟩ := by
  obtain ⟨w, location, hstands⟩ := hs.answers _ (Multiset.mem_cons_self ..) c rfl
  cases htext : t.typeText output with
  | none =>
    refine (Does.concluded hstands (.unusable location htext)).of_schedule _ hs rfl rfl
      (cons_eq_add _) ?_
    rw [Loop.run, Loop.answer, htext]
    exact Loop.infer_eq hstands none
  | some text =>
    refine (Does.texted c htext).of_run [] _ hs.ready hs.stages (cons_eq_add _) ?_
    have hready : s.ready = [] := hs.ready
    have hstages : s.stages = [] := hs.stages
    rw [Loop.run, Loop.answer, htext]
    simp [Loop.enter, hready, hstages]

/-- So is the parse of the type an answer names. -/
theorem does_parseType {c : Caller} {text : String}
    (hs : Sound ⟨.parseType c text ::ₘ tasks, s⟩) : Does t ⟨.parseType c text ::ₘ tasks, s⟩
      ⟨tasks + (s.run t (.parseType c text)).jobs, (s.run t (.parseType c text)).calm⟩ := by
  obtain ⟨w, location, hstands⟩ := hs.answers _ (Multiset.mem_cons_self ..) c rfl
  exact (Does.concluded hstands (.parsed location text)).of_schedule _ hs rfl rfl (cons_eq_add _)
    (Loop.run_parseType hstands text)

/-- So is the moment a file has all its answers. -/
theorem does_answered {file : Nat} {failure : Option Refusal}
    (hs : Sound ⟨.answered file failure ::ₘ tasks, s⟩) :
    Does t ⟨.answered file failure ::ₘ tasks, s⟩
      ⟨tasks + (s.run t (.answered file failure)).jobs,
        (s.run t (.answered file failure)).calm⟩ := by
  have hquiet {s' : Loop} (h : Does t ⟨.answered file failure ::ₘ tasks, s⟩ ⟨tasks, s'⟩)
      (hready : s'.ready = s.ready) (hstages : s'.stages = s.stages)
      (hrun : s.run t (.answered file failure) = s') :
      Does t ⟨.answered file failure ::ₘ tasks, s⟩ ⟨_, _⟩ :=
    h.of_schedule [] hs hready hstages (add_zero _).symm (by
      rw [hrun, Loop.schedule, List.append_nil])
  cases hw : s.walked[file]? with
  | none =>
    exact hquiet (.ignored fun w h => by simp [hw] at h) rfl rfl
      (by simp [Loop.run, Loop.answered, hw])
  | some w =>
    cases hwaits : w.waits with
    | false =>
      refine hquiet (.ignored fun w' h => ?_) rfl rfl
        (by simp [Loop.run, Loop.answered, hw, hwaits])
      rw [← Option.some.inj (hw.symm.trans h), hwaits]
    | true =>
      cases hend : (failure.isSome || decide (w.missing ≤ 1)) with
      | true =>
        refine (Does.ended hw hwaits (by simpa using hend)).of_schedule _ hs rfl rfl
          (cons_eq_add _) ?_
        simp [Loop.run, Loop.answered, hw, hwaits, hend]
      | false =>
        obtain ⟨hsome, hmissing⟩ := Bool.or_eq_false_iff.1 hend
        obtain rfl : failure = none := by simpa using hsome
        have hmissing : 1 < w.missing := by simpa using hmissing
        refine hquiet (.missed hw hwaits hmissing) rfl rfl ?_
        simp [Loop.run, Loop.answered, hw, hwaits, Nat.not_le.2 hmissing]

/-- **Every step does one of these things.** -/
theorem Step.does {m m' : Moment} (h : Step t m m') (hs : Sound m) : Does t m m' := by
  cases h with
  | run tasks s job =>
    cases job with
    | openBatch paths => exact (Does.opened paths).of_schedule _ hs rfl rfl rfl rfl
    | start work =>
      cases work with
      | tree o tree => exact (hs.ofBatch _ (Multiset.mem_cons_self ..)).elim
      | file path => exact Does.of_enter hs (.read path) rfl
    | parse path source => exact Does.of_enter hs (.parsed path source) rfl
    | walk path source tree => exact does_walk hs
    | print path source tree hasJsx => exact Does.of_enter hs (.printed path source tree hasJsx) rfl
    | settle path r => exact does_settle hs
    | giveUp e => exact (hs.ofBatch _ (Multiset.mem_cons_self ..)).elim
    | put c => exact does_put hs
    | call e => exact (Does.called e).of_schedule _ hs rfl rfl (cons_eq_add _) rfl
    | callEnded e output => exact does_callEnded hs
    | answer c output => exact does_answer hs
    | parseType c text => exact does_parseType hs
    | answered file failure => exact does_answered hs
    | resume file failure => exact does_resume hs
    | fileOver =>
      refine Does.counted.of_schedule _ hs rfl rfl rfl ?_
      simp only [Loop.run, Loop.fileOver]
      split
      · rfl
      · rw [Loop.schedule, List.append_nil]
    | batchOver => exact Does.closed.of_schedule _ hs rfl rfl (cons_eq_add _) rfl
    | stop =>
      exact Does.stopped.of_schedule [] hs rfl rfl (add_zero _).symm (by
        rw [Loop.run, Loop.schedule, List.append_nil])

end

end Retype.Batch
