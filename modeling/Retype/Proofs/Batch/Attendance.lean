import Mathlib.Tactic.Abel
import Retype.Proofs.Batch.Step
/-!
# Every file that waits is attended to

Each step takes one job away and brings some others (`Does.changes`). It keeps
the files attended to (`Does.sound`), so they are at every moment that is
reached. Whatever is left to do can then be done, and when no job is left, no
file waits.
-/

namespace Retype.Batch

open Inference (Queue Entry)

/-! ## The stages of a file -/

/-- **Stages of a file**, in a batch. -/
inductive Job.StageOf (path : String) : Job → Prop
  | parse (source : String) : StageOf path (.parse path source)
  | walk (source : String) (tree : Json) : StageOf path (.walk path source tree)
  | print (source : String) (tree : Json) (hasJsx : Bool) :
      StageOf path (.print path source tree hasJsx)
  | settle {r : Except Failure Done} (h : ∀ tree, r ≠ .ok (.tree tree)) :
      StageOf path (.settle path r)

namespace Job.StageOf

variable {path : String} {job : Job} (h : job.StageOf path)
include h

/-- A job at the end of a file belongs to a batch. -/
theorem ofBatch : job.OfBatch := by
  cases h with
  | parse | walk | print => trivial
  | @settle r hr =>
    rcases r with cause | (tree | m | _)
    · trivial
    · exact absurd rfl (hr tree)
    · trivial
    · trivial

/-- It is about no parameter. -/
@[simp] theorem callers_eq_zero : job.callers = 0 := by cases h <;> rfl

/-- It holds no question. -/
@[simp] theorem entries_eq_zero : job.entries = 0 := by cases h <;> rfl

/-- It tells no file of an answer. -/
@[simp] theorem told_eq_zero : job.told = 0 := by cases h <;> rfl

/-- It answers nobody. -/
theorem not_answers {c : Caller} : ¬ job.Answers c := by cases h <;> exact id

end Job.StageOf

/-- A file that is walked goes on to be printed. -/
theorem Walked.onward_stage {w : Walked} (h : w.source.isSome) :
    w.onward.StageOf w.options.path := by
  obtain ⟨source, hsource⟩ := Option.isSome_iff_exists.1 h
  rw [onward, hsource]
  exact .print ..

/-- A file that does not wait any more is printed or settled. -/
theorem Walked.conclusion_stage {w : Walked} (h : w.source.isSome) (failure : Option Refusal) :
    (w.conclusion failure).StageOf w.options.path := by
  cases failure with
  | none => exact w.onward_stage h
  | some e => exact .settle (fun tree => nofun)

/-- The path of the file that a stage follows another one in. -/
def Job.path? (walked : List Walked) : Job → Option String
  | .start (.file path) => some path
  | .parse path _ => some path
  | .walk path _ _ => some path
  | .print path _ _ _ => some path
  | .settle path _ => some path
  | .resume file _ => walked[file]?.map (·.options.path)
  | _ => none

/-- A stage is about its own file, whatever other files were walked. -/
theorem Job.StageOf.path? {path : String} {job : Job} (h : job.StageOf path)
    (walked : List Walked) :
    job.path? walked = some path := by cases h <;> rfl

namespace Follows

variable {t : Toolchain} {s : Loop} {job next : Job} {talk : Talk} (h : Follows t s job next talk)
include h

/-- **What follows a stage is a stage of the same file.** -/
theorem stage (hsources : ∀ w ∈ s.walked, w.source.isSome) :
    ∃ path, next.StageOf path ∧ job.path? s.walked = some path := by
  cases h with
  | read path =>
    refine ⟨path, ?_, rfl⟩
    rcases t.readSource s.files path with cause | (_ | source)
    · exact .settle (fun tree => nofun)
    · exact .settle (fun tree => nofun)
    · exact .parse source
  | parsed path source =>
    refine ⟨path, ?_, rfl⟩
    rcases t.parsed _ with cause | tree
    · exact .settle (fun tree => nofun)
    · exact .walk source tree
  | printed path =>
    refine ⟨path, .settle fun tree heq => ?_, rfl⟩
    cases hprinted : t.printed path _ _ <;> rw [hprinted] at heq <;> cases heq
  | unwritten => exact ⟨_, .settle (fun tree => nofun), rfl⟩
  | resumed hw failure =>
    exact ⟨_, Walked.conclusion_stage (hsources _ (List.mem_of_getElem? hw)) failure, by
      rw [Job.path?, hw]
      rfl⟩

/-- A stage is about no parameter. -/
theorem callers_eq_zero : job.callers = 0 := by cases h <;> rfl

theorem entries_eq_zero : job.entries = 0 := by cases h <;> rfl

theorem told_eq_zero : job.told = 0 := by cases h <;> rfl

/-- No stage opens a batch. -/
theorem ne_openBatch (paths : List String) : job ≠ .openBatch paths := by cases h <;> nofun

/-- What is said in a stage goes on from what was said before. -/
theorem continues : talk.Continues s.talk := by
  cases h with
  | read | unwritten | resumed => exact .refl _
  | parsed | printed => exact t.continues_request ..

end Follows

/-- What is next for a file that has just been walked is a stage of it. -/
theorem Begins.stage {o : Migration.FileOptions} {source : String} {b : Beginning}
    (h : Begins o (some source) b) {job : Job} (hjob : b.next = some job) : job.StageOf o.path := by
  cases h with
  | refused =>
    obtain rfl := Option.some.inj hjob
    exact .settle (fun tree => nofun)
  | settled =>
    obtain rfl := Option.some.inj hjob
    exact (Walked.ofProgress ..).onward_stage rfl
  | waiting => cases hjob

/-- Nothing is open, in flight or told because of what is next. -/
theorem Begins.bind_next {o : Migration.FileOptions} {source : String} {b : Beginning}
    (h : Begins o (some source) b) {α : Type} {f : Job → Multiset α}
    (hf : ∀ job : Job, job.StageOf o.path → f job = 0) :
    (b.next.toList : Multiset Job).bind f = 0 :=
  Job.bind_eq_zero fun job hjob => hf job (h.stage (Option.mem_toList.1 hjob))

namespace Concludes

variable {t : Toolchain} {s : Loop} {c : Caller} {w : Walked} {l : Result Location} {job : Job}
  {r : Recorded (Option Json)} {talk : Talk} {entries : List LogEntry}
  (h : Concludes t s c w l job r talk entries)
include h

/-- What is said of an answer is about one parameter. -/
theorem callers_eq : job.callers = {c} := by cases h <;> rfl

/-- It holds no question. -/
theorem entries_eq_zero : job.entries = 0 := by cases h <;> rfl

/-- It tells no file of an answer yet. -/
theorem told_eq_zero : job.told = 0 := by cases h <;> rfl

theorem ne_openBatch (paths : List String) : job ≠ .openBatch paths := by cases h <;> nofun

/-- The talk goes on with each reply. -/
theorem continues : talk.Continues s.talk := by
  cases h with
  | misplaced | unusable => exact .refl _
  | parsed => exact t.continues_request ..

end Concludes

/-! ## What a step brings -/

section
variable {t : Toolchain} {m m' : Moment}

/-- **The jobs that a step brings**, and where they come from. -/
inductive Brought (t : Toolchain) (m m' : Moment) : Job → Prop
  | start (path : String) : Brought t m m' (.start (.file path))
  | follow {path : String} {job next : Job} {talk : Talk} (hstage : next.StageOf path)
      (h : Follows t m.loop job next talk) (hpath : job.path? m.loop.walked = some path)
      (hjob : job ∈ m.tasks) (htalk : m'.loop.talk = talk) : Brought t m m' next
  | next {path source : String} {tree : Json} {b : Beginning} {job : Job}
      (hstage : job.StageOf path) (hb : b = .ofTree (t.fileOptions path) (some source) tree)
      (hwalk : .walk path source tree ∈ m.tasks) (hnext : b.next = some job) : Brought t m m' job
  | put (c : Caller) : Brought t m m' (.put c)
  | call (e : Entry Caller) : Brought t m m' (.call e)
  | callEnded (e : Entry Caller) (hcall : .call e ∈ m.tasks)
      (htalk : m'.loop.talk = (t.ask m.loop.talk e.query).2) :
      Brought t m m' (.callEnded e (t.ask m.loop.talk e.query).1)
  | answer {e : Entry Caller} {output : Option String} (hended : .callEnded e output ∈ m.tasks)
      (hactive : m.loop.queue.active = some e) : Brought t m m' (.answer e.caller output)
  | parseType {c : Caller} {output : Option String} {text : String}
      (hanswer : .answer c output ∈ m.tasks) (htext : t.typeText output = some text) :
      Brought t m m' (.parseType c text)
  | answered {c : Caller} {w : Walked} {l : Result Location} {job : Job}
      {r : Recorded (Option Json)} {talk : Talk} {entries : List LogEntry}
      (hstands : m.loop.Stands c w l) (h : Concludes t m.loop c w l job r talk entries)
      (hjob : job ∈ m.tasks) (htalk : m'.loop.talk = talk) :
      Brought t m m' (.answered c.file r.refusal?)
  | resume {file : Nat} {failure : Option Refusal} {w : Walked} {tasks : Multiset Job}
      (hold : m.tasks = .answered file failure ::ₘ tasks)
      (hnew : m'.tasks = .resume file failure ::ₘ tasks) (hw : m.loop.walked[file]? = some w)
      (hwaits : w.waits = true) (hend : failure.isSome ∨ w.missing ≤ 1)
      (hloop : m'.loop = { m.loop with
        walked := m.loop.walked.set file { w with missing := w.missing - 1, waits := false } }) :
      Brought t m m' (.resume file failure)
  | fileOver : Brought t m m' .fileOver
  | batchOver : Brought t m m' .batchOver
  | stop : Brought t m m' .stop

/-- What is started is a call. -/
theorem mem_started {job : Job} {next : Option (Entry Caller)} (h : job ∈ Loop.started next) :
    ∃ e, job = .call e := by
  cases next with
  | none => exact absurd h List.not_mem_nil
  | some e => exact ⟨e, List.mem_singleton.1 h⟩

/-- **A step takes one job away and brings some others.** -/
theorem Does.changes (h : Does t m m') (hs : Sound m) : ∃ job tasks new, m.tasks = job ::ₘ tasks ∧
    m'.tasks = new + tasks ∧ ∀ job' ∈ new, Brought t m m' job' := by
  have hone {job job' : Job} {tasks : Multiset Job} (hm : m.tasks = job ::ₘ tasks)
      (hm' : m'.tasks = job' ::ₘ tasks) (hnew : Brought t m m' job') : ∃ job tasks new,
      m.tasks = job ::ₘ tasks ∧ m'.tasks = new + tasks ∧ ∀ job' ∈ new, Brought t m m' job' :=
    ⟨job, tasks, {job'}, hm, hm'.trans (Multiset.singleton_add ..).symm, fun _ hjob =>
      Multiset.mem_singleton.1 hjob ▸ hnew⟩
  have hmore (jobs : List Job) {job : Job} {tasks : Multiset Job} (hm : m.tasks = job ::ₘ tasks)
      (hm' : m'.tasks = tasks + jobs) (hnew : ∀ job ∈ jobs, Brought t m m' job) : ∃ job tasks new,
      m.tasks = job ::ₘ tasks ∧ m'.tasks = new + tasks ∧ ∀ job' ∈ new, Brought t m m' job' :=
    ⟨job, tasks, jobs, hm, hm'.trans (add_comm ..), hnew⟩
  have hstarted {next : Option (Entry Caller)} : ∀ job ∈ Loop.started next, Brought t m m' job :=
    fun job hjob => by
    obtain ⟨e, rfl⟩ := mem_started hjob
    exact .call e
  have hsources := hs.sources
  cases h with
  | opened paths =>
    refine hmore _ rfl rfl fun job hjob => ?_
    rw [Loop.starts] at hjob
    split at hjob
    · exact List.mem_singleton.1 hjob ▸ .stop
    · obtain ⟨path, -, rfl⟩ := List.mem_map.1 hjob
      exact .start path
  | staged h =>
    obtain ⟨path, hstage, hpath⟩ := h.stage hsources
    exact hone rfl rfl (.follow hstage h hpath (Multiset.mem_cons_self ..) rfl)
  | walked hb =>
    refine hmore (Loop.puts _ _ ++ Option.toList _) rfl
      (by rw [← Multiset.coe_add, add_assoc]) (List.forall_mem_append.2 ⟨?_, ?_⟩)
    · intro job hjob
      obtain ⟨c, -, rfl⟩ := List.mem_map.1 hjob
      exact .put c
    · intro job hjob
      have hnext := Option.mem_toList.1 hjob
      exact .next ((hb ▸ Beginning.begins ..).stage hnext) hb (Multiset.mem_cons_self ..) hnext
  | asked => exact hmore _ rfl rfl hstarted
  | called e => exact hone rfl rfl (.callEnded e (Multiset.mem_cons_self ..) rfl)
  | @heard tasks s e output queue next hactive =>
    refine hmore (.answer e.caller output :: Loop.started next) rfl ?_
      (List.forall_mem_cons.2 ⟨.answer (Multiset.mem_cons_self ..) hactive, hstarted⟩)
    rw [← Multiset.cons_coe, Multiset.add_cons]
  | texted c htext => exact hone rfl rfl (.parseType (Multiset.mem_cons_self ..) htext)
  | concluded hstands h => exact hone rfl rfl (.answered hstands h (Multiset.mem_cons_self ..) rfl)
  | ignored | missed | stopped => exact hmore [] rfl (add_zero _).symm (List.forall_mem_nil _)
  | ended hw hwaits hend => exact hone rfl rfl (.resume rfl rfl hw hwaits hend rfl)
  | settled => exact hone rfl rfl .fileOver
  | counted =>
    refine hmore _ rfl rfl fun job hjob => ?_
    split at hjob
    · obtain rfl := List.mem_singleton.1 hjob
      exact .batchOver
    · exact absurd hjob List.not_mem_nil
  | closed => exact hone rfl rfl .stop

/-- **A job was there before, or a step has brought it.** -/
theorem Does.mem_tasks (h : Does t m m') (hs : Sound m) {job : Job} (hjob : job ∈ m'.tasks) :
    job ∈ m.tasks ∨ Brought t m m' job := by
  obtain ⟨done, tasks, new, hm, hm', hnew⟩ := h.changes hs
  rcases Multiset.mem_add.1 (hm' ▸ hjob) with hjob | hjob
  · exact .inr (hnew job hjob)
  · exact .inl (hm ▸ Multiset.mem_cons_of_mem hjob)

/-- The loop that a step leaves goes on from the talk before. -/
theorem Does.continues (h : Does t m m') : m'.loop.talk.Continues m.loop.talk := by
  cases h with
  | staged h => exact h.continues
  | called => exact t.continues_ask ..
  | concluded _ h => exact h.continues
  | opened | walked | asked | heard | texted | ignored | missed | ended | settled | counted
    | closed | stopped => exact .refl _

/-! ## Each step keeps the files attended to -/

/-- **A walked file stays what it was**, and does not wait again. -/
theorem Does.walkedFile (h : Does t m m') {i : Nat} {w : Walked} (hw : m.loop.walked[i]? = some w) :
    ∃ w', m'.loop.walked[i]? = some w' ∧ w'.SameFile w ∧ (w.waits = false → w'.waits = false) := by
  have hset : ∀ {walked : List Walked} {file : Nat} {old new : Walked}, walked[file]? = some old →
      new.SameFile old → (old.waits = false → new.waits = false) → walked[i]? = some w →
      ∃ w', (walked.set file new)[i]? = some w' ∧ w'.SameFile w ∧
        (w.waits = false → w'.waits = false) := by
    intro walked file old new hold hsame hwaits hw
    by_cases hi : file = i
    · subst hi
      obtain rfl := Option.some.inj (hw.symm.trans hold)
      exact ⟨new, List.getElem?_set_self (List.getElem?_eq_some_iff.1 hold).1, hsame, hwaits⟩
    · exact ⟨w, by rw [List.getElem?_set_ne hi, hw], .refl w, id⟩
  cases h with
  | opened | staged | asked | called | heard | texted | ignored | settled | counted | closed
    | stopped => exact ⟨w, hw, .refl w, id⟩
  | walked =>
    refine ⟨w, ?_, .refl w, id⟩
    rw [Loop.beginFile]
    exact List.getElem?_append_left (List.getElem?_eq_some_iff.1 hw).1 ▸ hw
  | concluded hstands => exact hset hstands.1 (Walked.sameFile_given ..) (by simp) hw
  | missed hold => exact hset hold ⟨rfl, rfl, rfl, rfl, rfl⟩ id hw
  | ended hold => exact hset hold ⟨rfl, rfl, rfl, rfl, rfl⟩ (fun _ => rfl) hw

/-- A parameter stands where it stood after each step. -/
theorem Does.stands (h : Does t m m') {c : Caller} {w : Walked} {l : Result Location}
    (hc : m.loop.Stands c w l) : ∃ w', m'.loop.Stands c w' l ∧ w'.SameFile w := by
  obtain ⟨w', hw', hsame, -⟩ := h.walkedFile hc.1
  exact ⟨w', ⟨hw', hsame.locations ▸ hc.2⟩, hsame⟩

/-! ### The open parameters -/

section
variable {tasks : Multiset Job} {s : Loop} {q q' : Queue Caller} {c : Caller} {e : Entry Caller}
  {next : Option (Entry Caller)} {job job' : Job}

/-- Jobs that open nothing. -/
theorem openCallers_congr (h : job'.callers = job.callers) :
    openCallers (job' ::ₘ tasks) q = openCallers (job ::ₘ tasks) q := by
  simp [openCallers, h]

/-- Jobs that open nothing and tell nothing. -/
theorem toward_congr (h : job'.callers = job.callers) (htold : job'.told = job.told) :
    toward (job' ::ₘ tasks) q = toward (job ::ₘ tasks) q := by
  simp [toward, openCallers_congr h, htold]

/-- A job that is about no parameter leaves the open ones as they are. -/
theorem openCallers_cons (h : job.callers = 0) :
    openCallers (job ::ₘ tasks) q = openCallers tasks q := by
  simp [openCallers, h]

/-- A job that is about no parameter and tells nobody brings no file further. -/
theorem toward_cons (h : job.callers = 0) (htold : job.told = 0) :
    toward (job ::ₘ tasks) q = toward tasks q := by
  simp [toward, openCallers_cons h, htold]

/-- A question that is put is still open. -/
theorem openCallers_asked (hqueue : q.submit e = (q', next)) :
    openCallers (tasks + Loop.started next) q' = openCallers (.put e.caller ::ₘ tasks) q := by
  simp [openCallers, Job.callers, entries_submit hqueue]

/-- A question that is put brings no file further. -/
theorem toward_asked (hqueue : q.submit e = (q', next)) :
    toward (tasks + Loop.started next) q' = toward (.put e.caller ::ₘ tasks) q := by
  simp [toward, openCallers_asked hqueue, Job.told]

/-- A question that was answered is open until the answer is read. -/
theorem openCallers_heard (hactive : q.active = some e) (hqueue : q.finish = (q', next))
    (output : Option String) :
    openCallers (.answer e.caller output ::ₘ (tasks + Loop.started next)) q'
      = openCallers (.callEnded e output ::ₘ tasks) q := by
  simp only [openCallers, Multiset.cons_bind, Multiset.add_bind, Job.callers_started, Job.callers,
    entries_finish hactive hqueue, Multiset.map_cons]
  simp only [← Multiset.singleton_add]
  abel

/-- An answer that was heard brings no file further until it is read. -/
theorem toward_heard (hactive : q.active = some e) (hqueue : q.finish = (q', next))
    (output : Option String) : toward (.answer e.caller output ::ₘ (tasks + Loop.started next)) q'
      = toward (.callEnded e output ::ₘ tasks) q := by
  rw [toward, toward, openCallers_heard hactive hqueue]
  simp [Job.told]

section
variable {t : Toolchain} {w : Walked} {l : Result Location}
  {r : Recorded (Option Json)} {talk : Talk}
  {entries : List LogEntry} (hjob : Concludes t s c w l job r talk entries)
  (failure : Option Refusal)
include hjob

/-- A parameter whose answer was read is not open any more. -/
theorem openCallers_concluded :
    openCallers (job ::ₘ tasks) q = c ::ₘ openCallers (.answered c.file failure ::ₘ tasks) q := by
  have htold : (Job.answered c.file failure).callers = 0 := rfl
  rw [openCallers_cons htold]
  simp [openCallers, hjob.callers_eq]

/-- Its file is still to be told. -/
theorem toward_concluded :
    toward (.answered c.file failure ::ₘ tasks) q = toward (job ::ₘ tasks) q := by
  rw [toward, toward, openCallers_concluded hjob failure, Multiset.cons_bind, Multiset.cons_bind,
    hjob.told_eq_zero]
  simp [Job.told]

end

section
variable {o : Migration.FileOptions} {source : String} {b : Beginning} (path text : String)
  (tree : Json) (hb : Begins o (some source) b)
include hb

/-- The parameters of a file that was walked are open. -/
theorem openCallers_walked : openCallers (tasks + s.puts b.walked + b.next.toList) q
    = openCallers (.walk path text tree ::ₘ tasks) q
      + (s.callers b.walked.locations.length : List Caller) := by
  simp [openCallers, Job.callers, hb.bind_next fun _ h => h.callers_eq_zero, add_right_comm]

/-- The file waits for as many of them as it has. -/
theorem toward_walked : toward (tasks + s.puts b.walked + b.next.toList) q
    = toward (.walk path text tree ::ₘ tasks) q
      + .replicate b.walked.locations.length s.walked.length := by
  have hfiles : (s.callers b.walked.locations.length).map (·.file)
      = .replicate b.walked.locations.length s.walked.length := by
    simp [Loop.callers, Function.comp_def]
  rw [toward, openCallers_walked path text tree hb, Multiset.map_add, Multiset.map_coe, hfiles,
    Multiset.coe_replicate]
  simp [toward, Job.told, hb.bind_next fun _ h => h.told_eq_zero, add_right_comm]

end

end

/-- **What a step opens and closes**: nothing, or a parameter that gets its
annotation, or the parameters of a file that is walked. -/
inductive Opens (t : Toolchain) (m m' : Moment) : Prop
  | nothing (hopen : openCallers m'.tasks m'.loop.queue = openCallers m.tasks m.loop.queue)
      (hlength : m'.loop.walked.length = m.loop.walked.length)
      (hannotations : ∀ (i : Nat) (w w' : Walked), m.loop.walked[i]? = some w →
        m'.loop.walked[i]? = some w' → w'.annotations = w.annotations)
  | closing {c : Caller} {w : Walked} {l : Result Location} {job : Job}
      {r : Recorded (Option Json)} {talk : Talk} {entries : List LogEntry}
      (hstands : m.loop.Stands c w l) (h : Concludes t m.loop c w l job r talk entries)
      (hjob : job ∈ m.tasks) (htold : .answered c.file r.refusal? ∈ m'.tasks)
      (hopen : openCallers m.tasks m.loop.queue = c ::ₘ openCallers m'.tasks m'.loop.queue)
      (hloop : m'.loop = m.loop.conclude c w r talk entries)
  | opening {path source : String} {tree : Json} {b : Beginning}
      (hb : b = .ofTree (t.fileOptions path) (some source) tree)
      (hwalk : .walk path source tree ∈ m.tasks)
      (hnext : ∀ job, b.next = some job → job ∈ m'.tasks)
      (hopen : openCallers m'.tasks m'.loop.queue = openCallers m.tasks m.loop.queue
        + (m.loop.callers b.walked.locations.length : List Caller))
      (hloop : m'.loop = m.loop.beginFile b)

/-- Each step opens and closes parameters in one of these ways. -/
theorem Does.opens (h : Does t m m') (hs : Sound m) : Opens t m m' := by
  have hsources := hs.sources
  have hsame {walked : List Walked} (heq : m.loop.walked = walked) (i : Nat) (w w' : Walked)
      (hw : m.loop.walked[i]? = some w) (hw' : walked[i]? = some w') :
      w'.annotations = w.annotations := by
    rw [Option.some.inj (hw'.symm.trans (heq ▸ hw))]
  have hset {walked : List Walked} {file : Nat} {old new : Walked} (hold : walked[file]? = some old)
      (hannotations : new.annotations = old.annotations) (i : Nat) (w w' : Walked)
      (hw : walked[i]? = some w) (hw' : (walked.set file new)[i]? = some w') :
      w'.annotations = w.annotations := by
    by_cases heq : file = i
    · subst heq
      rw [List.getElem?_set_self (List.getElem?_eq_some_iff.1 hold).1] at hw'
      rw [← Option.some.inj hw', ← Option.some.inj (hold.symm.trans hw), hannotations]
    · rw [List.getElem?_set_ne heq, hw] at hw'
      rw [Option.some.inj hw']
  cases h with
  | called | texted | ignored | settled | closed | stopped | opened =>
    exact .nothing (by simp [openCallers, Job.callers]) rfl (hsame rfl)
  | missed hw | ended hw =>
    exact .nothing (by simp [openCallers, Job.callers]) List.length_set (hset hw rfl)
  | staged h =>
    obtain ⟨path, hstage, -⟩ := h.stage hsources
    exact .nothing (openCallers_congr (hstage.callers_eq_zero.trans h.callers_eq_zero.symm)) rfl
      (hsame rfl)
  | counted =>
    refine .nothing ?_ rfl (hsame rfl)
    simp only [openCallers, Multiset.add_bind, Multiset.cons_bind]
    split <;> simp [Job.callers]
  | asked hstands hqueue => exact .nothing (openCallers_asked hqueue) rfl (hsame rfl)
  | heard hactive hqueue => exact .nothing (openCallers_heard hactive hqueue _) rfl (hsame rfl)
  | concluded hstands hjob =>
    exact .closing hstands hjob (Multiset.mem_cons_self ..) (Multiset.mem_cons_self ..)
      (openCallers_concluded hjob _) rfl
  | walked hb =>
    refine .opening hb (Multiset.mem_cons_self ..) (fun job hjob => ?_)
      (openCallers_walked _ _ _ (hb ▸ Beginning.begins ..)) rfl
    exact Multiset.mem_add.2 (.inr (Multiset.mem_coe.2 (Option.mem_toList.2 hjob)))

/-- What is on its way to a file has a file to go to. -/
theorem Sound.toward_lt (hs : Sound m) {file : Nat} (h : file ∈ toward m.tasks m.loop.queue) :
    file < m.loop.walked.length := by
  have hplace : ∃ w, m.loop.walked[file]? = some w := by
    rcases Multiset.mem_add.1 h with h | h
    · obtain ⟨c, hc, rfl⟩ := Multiset.mem_map.1 h
      obtain ⟨w, l, hstands⟩ := hs.placed c hc
      exact ⟨w, hstands.1⟩
    · obtain ⟨job, hjob, hmem⟩ := Multiset.mem_bind.1 h
      unfold Job.told at hmem
      split at hmem
      next other failure => exact Multiset.mem_singleton.1 hmem ▸ hs.told other failure hjob
      · exact absurd hmem (Multiset.notMem_zero _)
  obtain ⟨w, hw⟩ := hplace
  exact (List.getElem?_eq_some_iff.1 hw).1

section
variable (h : Does t m m') (hs : Sound m)
include h hs

/-- Each step makes jobs of batches only. -/
theorem Does.ofBatch {job : Job} (hjob : job ∈ m'.tasks) : job.OfBatch := by
  rcases h.mem_tasks hs hjob with hjob | hnew
  · exact hs.ofBatch job hjob
  · cases hnew with
    | follow hstage | next hstage => exact hstage.ofBatch
    | start | put | call | callEnded | answer | parseType | answered | resume | fileOver | batchOver
      | stop => trivial

/-- After a step a batch is open. -/
theorem Does.batch_open : m'.loop.outstanding.isSome := by
  have hopen {job : Job} (hjob : job ∈ m.tasks) (hne : ∀ paths, job ≠ .openBatch paths) :
      m.loop.outstanding.isSome := hs.opened job hjob hne
  cases h with
  | opened | counted => rfl
  | staged h => exact hopen (Multiset.mem_cons_self ..) h.ne_openBatch
  | concluded _ h => exact hopen (Multiset.mem_cons_self ..) h.ne_openBatch
  | walked | asked | called | heard | texted | ignored | missed | ended | settled | closed
    | stopped => exact hopen (Multiset.mem_cons_self ..) (fun _ => nofun)

/-- No parameter is open twice after a step. -/
theorem Does.distinct : (openCallers m'.tasks m'.loop.queue).Nodup := by
  cases h.opens hs with
  | nothing hopen => exact hopen ▸ hs.distinct
  | closing _ _ _ _ hopen => exact (Multiset.nodup_cons.1 (hopen ▸ hs.distinct)).2
  | @opening path source tree b _ _ _ hopen =>
    have hnew : (m.loop.callers b.walked.locations.length).Nodup :=
      List.Nodup.map (fun i j hij => (Caller.mk.inj hij).2) List.nodup_range
    rw [hopen, Multiset.nodup_add]
    refine ⟨hs.distinct, hnew, Multiset.disjoint_left.2 @fun c hc hcnew => ?_⟩
    -- those of the file that begins are new
    obtain ⟨w', l, hw', -⟩ := hs.placed c hc
    obtain ⟨i, -, rfl⟩ := List.mem_map.1 (Multiset.mem_coe.1 hcnew)
    exact absurd (List.getElem?_eq_some_iff.1 hw').1 (Nat.lt_irrefl _)

/-- Each open parameter stands in its file after a step. -/
theorem Does.placed {c : Caller} (hc : c ∈ openCallers m'.tasks m'.loop.queue) :
    ∃ w l, m'.loop.Stands c w l := by
  have hkept (hc : c ∈ openCallers m.tasks m.loop.queue) : ∃ w l, m'.loop.Stands c w l := by
    obtain ⟨w, l, hstands⟩ := hs.placed c hc
    obtain ⟨w', hstands', -⟩ := h.stands hstands
    exact ⟨w', l, hstands'⟩
  cases h.opens hs with
  | nothing hopen => exact hkept (hopen ▸ hc)
  | closing _ _ _ _ hopen => exact hkept (hopen ▸ Multiset.mem_cons_of_mem hc)
  | @opening path source tree b _ _ _ hopen hloop =>
    rcases Multiset.mem_add.1 (hopen ▸ hc) with hc | hc
    · exact hkept hc
    · obtain ⟨i, hi, rfl⟩ := List.mem_map.1 (Multiset.mem_coe.1 hc)
      refine ⟨b.walked, _, ?_, List.getElem?_eq_getElem (List.mem_range.1 hi)⟩
      rw [hloop, Loop.begun_beginFile]

/-- Whoever waits has a question in the queue, after a step too. -/
theorem Does.waiting :
    (m'.loop.waiting : Multiset Caller) = (Loop.entries m'.loop.queue).map (·.caller) := by
  have hold := hs.waiting
  cases h with
  | opened | staged | walked | called | texted | concluded | ignored | missed | ended | settled
    | counted | closed | stopped => exact hold
  | asked hstands hqueue =>
    rw [entries_submit hqueue, Multiset.map_cons, ← hold, ← Multiset.coe_add, add_comm]
    rfl
  | @heard tasks s e output queue next hactive hqueue hwaits =>
    rw [entries_finish hactive hqueue, Multiset.map_cons] at hold
    have hnew : e.caller ∉ (Loop.entries queue).map (·.caller) := by
      have hdistinct := hs.distinct
      rw [openCallers, entries_finish hactive hqueue, Multiset.map_cons] at hdistinct
      exact (Multiset.nodup_cons.1 (Multiset.nodup_add.1 hdistinct).2.1).1
    rw [← Multiset.filter_coe, hold, Multiset.filter_cons_of_neg _ (by simp)]
    exact Multiset.filter_eq_self.2 fun c hc => ne_of_mem_of_not_mem hc hnew

/-- The questions in the queue are those of their parameters, after a step too. -/
theorem Does.entries_asked {e : Entry Caller} (he : e ∈ Loop.entries m'.loop.queue) :
    ∃ w location, m'.loop.Stands e.caller w (.ok location) ∧
      e.query = ⟨w.options.path, location⟩ := by
  have hkept (he : e ∈ Loop.entries m.loop.queue) : ∃ w location,
      m'.loop.Stands e.caller w (.ok location) ∧ e.query = ⟨w.options.path, location⟩ := by
    obtain ⟨w, location, hstands, hquery⟩ := hs.asked e he
    obtain ⟨w', hstands', hsame⟩ := h.stands hstands
    exact ⟨w', location, hstands', hsame.options ▸ hquery⟩
  cases h with
  | opened | staged | walked | called | texted | concluded | ignored | missed | ended | settled
    | counted | closed | stopped => exact hkept he
  | heard hactive hqueue =>
    exact hkept (entries_finish hactive hqueue ▸ Multiset.mem_cons_of_mem he)
  | asked hstands hqueue =>
    rcases Multiset.mem_cons.1 (entries_submit hqueue ▸ he) with rfl | he
    · exact ⟨_, _, hstands, rfl⟩
    · exact hkept he

/-- One call is made at a time, and none only if the queue is empty. -/
theorem Does.inFlight :
    m'.tasks.bind Job.entries = (m'.loop.queue.active.toList : List (Entry Caller)) ∧
      (m'.loop.queue.active = none → m'.loop.queue.pending = []) := by
  have hold := hs.inFlight
  have hidle := hs.idle
  have hsources := hs.sources
  cases h with
  | opened | called | texted | ignored | missed | ended | settled | closed | stopped =>
    exact ⟨by simpa [Job.entries] using hold, hidle⟩
  | staged h =>
    obtain ⟨path, hstage, -⟩ := h.stage hsources
    refine ⟨?_, hidle⟩
    rw [Multiset.cons_bind, hstage.entries_eq_zero, ← h.entries_eq_zero, ← Multiset.cons_bind, hold]
  | walked hb =>
    refine ⟨?_, hidle⟩
    have hnext := (hb ▸ Beginning.begins .. : Begins _ _ _).bind_next fun _ h => h.entries_eq_zero
    rw [Multiset.add_bind, Multiset.add_bind, Job.entries_puts, hnext, add_zero, add_zero]
    simpa [Job.entries, Loop.beginFile] using hold
  | counted =>
    refine ⟨?_, hidle⟩
    rw [← hold, Multiset.add_bind, Multiset.cons_bind]
    split <;> simp [Job.entries]
  | concluded _ hjob =>
    refine ⟨?_, hidle⟩
    rw [Multiset.cons_bind, hjob.entries_eq_zero] at hold
    simpa [Job.entries, Loop.conclude] using hold
  | @asked tasks s c w location queue next _ hqueue =>
    obtain ⟨hactive, hsome⟩ := active_submit hidle hqueue
    refine ⟨?_, fun hnone => absurd hsome (Option.not_isSome_iff_eq_none.2 hnone)⟩
    have hold : tasks.bind Job.entries = (s.queue.active.toList : List (Entry Caller)) := by
      simpa [Job.entries] using hold
    rw [Multiset.add_bind, Job.entries_started, hold, Multiset.coe_add, hactive]
  | @heard tasks s e output queue next hactive hqueue =>
    obtain ⟨hnext, hidle'⟩ := active_finish hqueue
    refine ⟨?_, hidle'⟩
    have hrest : tasks.bind Job.entries = 0 := by
      rw [Multiset.cons_bind, hactive] at hold
      exact add_left_cancel (hold : ({e} : Multiset (Entry Caller)) + _ = {e} + 0)
    simp [hrest, Job.entries, hnext]

/-- What is answered is a parameter that stands in its file. -/
theorem Does.answers {job : Job} (hjob : job ∈ m'.tasks) {c : Caller} (hc : job.Answers c) :
    ∃ w location, m'.loop.Stands c w (.ok location) := by
  have hkept {c : Caller} (hstands : ∃ w location, m.loop.Stands c w (.ok location)) :
      ∃ w location, m'.loop.Stands c w (.ok location) := by
    obtain ⟨w, location, hstands⟩ := hstands
    obtain ⟨w', hstands', -⟩ := h.stands hstands
    exact ⟨w', location, hstands'⟩
  rcases h.mem_tasks hs hjob with hjob | hnew
  · exact hkept (hs.answers job hjob c hc)
  · cases hnew with
    | follow hstage | next hstage => exact (hstage.not_answers hc).elim
    | @answer e output _ hactive =>
      obtain ⟨w, location, hstands, -⟩ := hs.asked e (by simp [Loop.entries, hactive])
      exact hkept ⟨w, location, (hc : e.caller = c) ▸ hstands⟩
    | parseType hanswer => exact hkept (hs.answers _ hanswer c hc)
    | start | put | call | callEnded | answered | resume | fileOver | batchOver | stop =>
      exact hc.elim

/-- A file that is told of an answer was walked. -/
theorem Does.told {file : Nat} {failure : Option Refusal}
    (hjob : .answered file failure ∈ m'.tasks) : ∃ w, m'.loop.walked[file]? = some w := by
  have hkept {w : Walked} (hw : m.loop.walked[file]? = some w) : ∃ w,
      m'.loop.walked[file]? = some w :=
    (h.walkedFile hw).imp fun _ h => h.1
  rcases h.mem_tasks hs hjob with hjob | hnew
  · obtain ⟨w, hw⟩ := hs.told file failure hjob
    exact hkept hw
  · generalize hanswered : Job.answered file failure = job at hnew
    cases hnew with
    | answered hstands =>
      obtain ⟨rfl, -⟩ := Job.answered.inj hanswered
      exact hkept hstands.1
    | follow hstage | next hstage =>
      subst hanswered
      cases hstage
    | start | put | call | callEnded | answer | parseType | resume | fileOver | batchOver | stop =>
      cases hanswered

/-- A file that goes on waits no more. -/
theorem Does.resumes {file : Nat} {failure : Option Refusal}
    (hjob : .resume file failure ∈ m'.tasks) :
    ∃ w, m'.loop.walked[file]? = some w ∧ w.waits = false := by
  rcases h.mem_tasks hs hjob with hjob | hnew
  · obtain ⟨w, hw, hwaits⟩ := hs.resumed file failure hjob
    obtain ⟨w', hw', -, hwaits'⟩ := h.walkedFile hw
    exact ⟨w', hw', hwaits' hwaits⟩
  · generalize hresume : Job.resume file failure = job at hnew
    cases hnew with
    | resume _ _ hw _ _ hloop =>
      obtain ⟨rfl, -⟩ := Job.resume.inj hresume
      rw [hloop]
      exact ⟨_, List.getElem?_set_self (List.getElem?_eq_some_iff.1 hw).1, rfl⟩
    | follow hstage | next hstage =>
      subst hresume
      cases hstage
    | start | put | call | callEnded | answer | parseType | answered |
      fileOver | batchOver | stop =>
      cases hresume

/-- Each file that was walked has its source. -/
theorem Does.sources : ∀ w ∈ m'.loop.walked, w.source.isSome := by
  have hold := hs.sources
  have hset : ∀ {walked : List Walked} {file : Nat} {old new : Walked}, walked[file]? = some old →
      new.source = old.source → (∀ w ∈ walked, w.source.isSome) →
      ∀ w ∈ walked.set file new, w.source.isSome := by
    intro walked file old new hfile hsource hwalked w hw
    rcases List.mem_or_eq_of_mem_set hw with hw | rfl
    · exact hwalked w hw
    · exact hsource ▸ hwalked old (List.mem_of_getElem? hfile)
  cases h with
  | opened | staged | asked | called | heard | texted | ignored | settled | counted | closed
    | stopped => exact hold
  | walked hb =>
    refine List.forall_mem_append.2 ⟨hold, List.forall_mem_singleton.2 ?_⟩
    rw [(hb ▸ Beginning.begins .. : Begins _ _ _).source_eq]
    rfl
  | concluded hstands => exact hset hstands.1 (Walked.sameFile_given ..).source hold
  | missed hw => exact hset hw rfl hold
  | ended hw => exact hset hw rfl hold

/-- A file waits for as many answers as are on their way to it. -/
theorem Does.missing {file : Nat} {w : Walked} (hw : m'.loop.walked[file]? = some w)
    (hwaits : w.waits = true) :
    1 ≤ w.missing ∧ w.missing = (toward m'.tasks m'.loop.queue).count file := by
  have hkept (htoward : (toward m'.tasks m'.loop.queue).count file
        = (toward m.tasks m.loop.queue).count file)
      {w₀ : Walked} (hw₀ : m.loop.walked[file]? = some w₀) (hwaits₀ : w₀.waits = true)
      (hmissing : w.missing = w₀.missing) :
      1 ≤ w.missing ∧ w.missing = (toward m'.tasks m'.loop.queue).count file := by
    rw [htoward, hmissing]
    exact hs.missing file w₀ hw₀ hwaits₀
  have hold := hs.missing
  have hsources := hs.sources
  have hlt : ∀ other ∈ toward m.tasks m.loop.queue, other < m.loop.walked.length := fun _ =>
    hs.toward_lt
  cases h with
  | called | texted | settled | closed | stopped | opened =>
    exact hkept (by simp [toward, openCallers, Job.callers, Job.told]) hw hwaits rfl
  | staged h =>
    obtain ⟨path, hstage, -⟩ := h.stage hsources
    exact hkept (by rw [toward_congr (hstage.callers_eq_zero.trans h.callers_eq_zero.symm)
      (hstage.told_eq_zero.trans h.told_eq_zero.symm)]) hw hwaits rfl
  | counted =>
    refine hkept ?_ hw hwaits rfl
    simp only [toward, openCallers, Multiset.add_bind, Multiset.cons_bind]
    split <;> simp [Job.callers, Job.told]
  | asked _ hqueue => exact hkept (congrArg _ (toward_asked hqueue)) hw hwaits rfl
  | heard hactive hqueue => exact hkept (congrArg _ (toward_heard hactive hqueue _)) hw hwaits rfl
  | @concluded tasks s c w₀ l job r talk entries hstands hjob =>
    have htoward : (toward (.answered c.file r.refusal? ::ₘ tasks) s.queue).count file
        = (toward (job ::ₘ tasks) s.queue).count file := congrArg _ (toward_concluded hjob _)
    by_cases heq : c.file = file
    · rw [Loop.conclude, ← heq,
        List.getElem?_set_self (List.getElem?_eq_some_iff.1 hstands.1).1] at hw
      obtain rfl := Option.some.inj hw
      exact hkept htoward (heq ▸ hstands.1) (by simpa using hwaits) (by simp)
    · rw [Loop.conclude, List.getElem?_set_ne heq] at hw
      exact hkept htoward hw hwaits rfl
  | @ignored tasks s other failure hnone =>
    have hne : file ≠ other := by
      rintro rfl
      exact absurd hwaits (by simp [hnone w hw])
    refine hkept ?_ hw hwaits rfl
    simp [toward, openCallers, Job.callers, Job.told, hne]
  | @missed tasks s other w₀ hw₀ hwaits₀ hmissing =>
    have htoward : toward (.answered other none ::ₘ tasks) s.queue
        = other ::ₘ toward tasks s.queue := by
      simp [toward, openCallers, Job.callers, Job.told]
    by_cases heq : other = file
    · subst heq
      rw [List.getElem?_set_self (List.getElem?_eq_some_iff.1 hw₀).1] at hw
      obtain rfl := Option.some.inj hw
      obtain ⟨-, hcount⟩ := hold other w₀ hw₀ hwaits₀
      rw [htoward, Multiset.count_cons_self] at hcount
      dsimp only
      omega
    · rw [List.getElem?_set_ne heq] at hw
      exact hkept (by rw [htoward, Multiset.count_cons_of_ne (Ne.symm heq)]) hw hwaits rfl
  | @ended tasks s other failure w₀ hw₀ =>
    by_cases heq : other = file
    · subst heq
      rw [List.getElem?_set_self (List.getElem?_eq_some_iff.1 hw₀).1] at hw
      obtain rfl := Option.some.inj hw
      cases hwaits
    · rw [List.getElem?_set_ne heq] at hw
      refine hkept ?_ hw hwaits rfl
      simp [toward, openCallers, Job.callers, Job.told, Ne.symm heq]
  | @walked tasks s path source tree b hb =>
    have hbegins : Begins _ (some source) b := hb ▸ Beginning.begins ..
    have hmore : toward (tasks + s.puts b.walked + b.next.toList) s.queue
        = toward (.walk path source tree ::ₘ tasks) s.queue
          + .replicate b.walked.locations.length s.walked.length :=
      toward_walked path source tree hbegins
    rw [Loop.beginFile] at hw
    by_cases hfile : file < s.walked.length
    · rw [List.getElem?_append_left hfile] at hw
      refine hkept ?_ hw hwaits rfl
      dsimp only [Loop.beginFile]
      rw [hmore, Multiset.count_add, Multiset.count_replicate,
        if_neg (Nat.ne_of_gt hfile), add_zero]
    · -- the file that begins: all its parameters are to put their questions
      obtain ⟨rfl, rfl⟩ : file = s.walked.length ∧ b.walked = w := by
        rw [List.getElem?_append_right (Nat.le_of_not_lt hfile)] at hw
        obtain ⟨hzero, heq⟩ := List.getElem?_eq_some_iff.1 hw
        have hzero : file - s.walked.length = 0 := Nat.lt_one_iff.1 hzero
        exact ⟨by omega, by simpa [hzero] using heq⟩
      have hnew : (toward (.walk path source tree ::ₘ tasks) s.queue).count s.walked.length = 0 :=
        Multiset.count_eq_zero.2 fun hmem => Nat.lt_irrefl _ (hlt _ hmem)
      refine ⟨hbegins.one_le_missing hwaits, ?_⟩
      dsimp only [Loop.beginFile]
      rw [hmore, Multiset.count_add, hnew, Multiset.count_replicate_self, zero_add,
        hbegins.missing_eq]

/-- **Each step keeps the files attended to.** -/
theorem Does.sound : Sound m' where
  ready := by
    have hready := hs.ready
    cases h <;> exact hready
  stages := by
    have hstages := hs.stages
    cases h <;> exact hstages
  ofBatch _ := h.ofBatch hs
  opened _ _ _ := h.batch_open hs
  distinct := h.distinct hs
  placed _ := h.placed hs
  waiting := h.waiting hs
  asked _ := h.entries_asked hs
  inFlight := (h.inFlight hs).1
  idle := (h.inFlight hs).2
  answers _ hjob _ := h.answers hs hjob
  told _ _ := h.told hs
  resumed _ _ := h.resumes hs
  sources := h.sources hs
  missing _ _ := h.missing hs

end

end

/-! ## Everything that is reached -/

section
variable {t : Toolchain} {files : Files} {m : Moment}

/-- A loop begins sound. -/
theorem sound_ofFiles (files : Files) : Sound (.ofFiles files) where
  ready := rfl
  stages := rfl
  ofBatch _ hjob := absurd hjob (Multiset.notMem_zero _)
  opened _ hjob := absurd hjob (Multiset.notMem_zero _)
  distinct := Multiset.nodup_zero
  placed _ hc := absurd hc (Multiset.notMem_zero _)
  waiting := rfl
  asked _ he := absurd he (Multiset.notMem_zero _)
  inFlight := rfl
  idle _ := rfl
  answers _ hjob := absurd hjob (Multiset.notMem_zero _)
  told _ _ hjob := absurd hjob (Multiset.notMem_zero _)
  resumed _ _ hjob := absurd hjob (Multiset.notMem_zero _)
  sources := List.forall_mem_nil _
  missing file w hw := by simp [Moment.ofFiles, Moment.ofLoop, Loop.calm, Loop.ofFiles] at hw

/-- No parameter opens with a batch. -/
theorem openCallers_opening (m : Moment) (paths : List String) :
    openCallers (m.opening paths).tasks (m.opening paths).loop.queue
      = openCallers m.tasks m.loop.queue := openCallers_cons rfl

/-- A batch that begins changes nothing about the files before. -/
theorem Sound.opening (hs : Sound m) (paths : List String) : Sound (m.opening paths) := by
  have hcallers := openCallers_opening m paths
  have htoward : toward (m.opening paths).tasks m.loop.queue = toward m.tasks m.loop.queue :=
    toward_cons rfl rfl
  have hmem : ∀ {job : Job}, job ∈ (m.opening paths).tasks → job ≠ .openBatch paths →
      job ∈ m.tasks := fun h hne => (Multiset.mem_cons.1 h).resolve_left hne
  exact
    { ready := hs.ready
      stages := hs.stages
      ofBatch := fun job h => by
        rcases Multiset.mem_cons.1 h with rfl | h
        · trivial
        · exact hs.ofBatch job h
      opened := fun job h hne => hs.opened job (hmem h (hne paths)) hne
      distinct := hcallers ▸ hs.distinct
      placed := fun c hc => hs.placed c (hcallers ▸ hc)
      waiting := hs.waiting
      asked := hs.asked
      inFlight := by simpa [Moment.opening, Job.entries] using hs.inFlight
      idle := hs.idle
      answers := fun job h c hc => hs.answers job (hmem h (by rintro rfl; exact hc)) c hc
      told := fun file failure h => hs.told file failure (hmem h (by simp))
      resumed := fun file failure h => hs.resumed file failure (hmem h (by simp))
      sources := hs.sources
      missing := fun file w hw hwaits => htoward ▸ hs.missing file w hw hwaits }

/-- **Whatever is reached, the files are attended to.** -/
theorem Reached.sound {batches : List (List String)} (h : Reached t files batches m) : Sound m := by
  induction h with
  | start => exact sound_ofFiles files
  | batch _ _ paths ih => exact ih.opening paths
  | step _ hstep ih => exact (hstep.does ih).sound ih

/-- **If no job is left, no file waits.** -/
theorem Sound.waits_eq_false (hs : Sound m) (htasks : m.tasks = 0) {w : Walked}
    (hw : w ∈ m.loop.walked) : w.waits = false := by
  by_contra hne
  obtain ⟨file, hlt, rfl⟩ := List.getElem_of_mem hw
  obtain ⟨hone, hmissing⟩ := hs.missing file _ (List.getElem?_eq_getElem hlt) (by simpa using hne)
  have hactive : m.loop.queue.active = none := by
    have hinFlight := hs.inFlight
    rw [htasks, Multiset.zero_bind] at hinFlight
    exact Option.toList_eq_nil_iff.1 ((Multiset.coe_eq_zero _).1 hinFlight.symm)
  have hentries : Loop.entries m.loop.queue = 0 := by
    rw [Loop.entries, hactive, hs.idle hactive]
    rfl
  have htoward : toward m.tasks m.loop.queue = 0 := by
    rw [toward, openCallers, hentries, htasks]
    rfl
  rw [htoward, Multiset.count_zero] at hmissing
  omega

/-- **Whatever is left to do can be done.** -/
theorem exists_step (t : Toolchain) (htasks : m.tasks ≠ 0) : ∃ m', Step t m m' := by
  obtain ⟨tasks, s⟩ := m
  obtain ⟨job, hjob⟩ := Multiset.exists_mem_of_ne_zero htasks
  obtain ⟨rest, rfl⟩ := Multiset.exists_cons_of_mem hjob
  exact ⟨_, .run rest s job⟩

end

end Retype.Batch
