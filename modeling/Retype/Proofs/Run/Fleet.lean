import Retype.Proofs.Batch.Served
import Retype.Proofs.Dispatch.Completion
import Retype.Run.Fleet
/-!
# What the workers of a fleet do

Workers serve their batches side by side, on one set of files: between two calls
of the primary any of them may take a message, go on with its batch by some jobs,
reply, or be over (`Fleet.Moves`). `Fleet.Told` says where everything comes from.
The files are what the endings of all workers have made of the first ones; each
ending is in the past of a worker, and is one that its file may come to in the
files that there were; and a report that was given tells of every entry of every
batch that was sent. Every move and every call of the primary keeps this
(`told_of_run`). A pace at which all messages are dealt with at once is one of
the ways in which the workers may move (`Pace.atOnce_follows`).
-/

namespace Retype

open Relation (ReflTransGen)
open Batch (Loop Toolchain Ending Endings Prospect Serves Traced FilesOf filesAfter Step)
open Dispatch (Call Surroundings InOrder sentTo heardFrom spawnedIn)

namespace Fleet

/-! ## Moves -/

/-- **A move of a fleet**: something that a worker does, while the files are shared
by all of them. The order in which jobs are done is free. -/
inductive Moves : Fleet → Fleet → Prop
  /-- Neither the clock nor what is written for a person matters. -/
  | notes (f : Fleet) (calls : Nat) (notices : List WorkerNotice) :
      Moves f { f with calls := calls, notices := notices }
  | logs {f : Fleet} {number : Nat} {p : WorkerProcess} (h : f.workers.lookup number = some p) :
      Moves f (f.put number { p with loop := { p.loop with log := [] } })
  /-- A batch begins. -/
  | takes {f : Fleet} {number : Nat} {t : Toolchain} {loop : Loop} {paths : List String}
      {inbox replies : List Message}
      (h : f.workers.lookup number = some ⟨some t, loop, false, .batch paths :: inbox, replies⟩) :
      Moves f (f.put number ⟨some t, { loop.schedule [.openBatch paths] with stopped := false },
        true, inbox, replies⟩)
  /-- Some jobs of a batch are done. -/
  | works {f : Fleet} {number : Nat} {t : Toolchain} {loop loop' : Loop}
      {inbox replies : List Message}
      (h : f.workers.lookup number = some ⟨some t, loop, true, inbox, replies⟩)
      (hrun : ReflTransGen (Step t) (.ofLoop { loop with files := f.files }) (.ofLoop loop')) :
      Moves f ({ f with files := loop'.files }.put number ⟨some t, loop', true, inbox, replies⟩)
  /-- A batch is over. What is left to do is put into some order. -/
  | finishes {f : Fleet} {number : Nat} {t : Toolchain} {loop loop' : Loop}
      {inbox replies : List Message}
      (h : f.workers.lookup number = some ⟨some t, loop, true, inbox, replies⟩)
      (hstopped : loop.stopped = true) (hsame : Batch.Moment.ofLoop loop' = .ofLoop loop)
      (hstages : loop'.stages = []) :
      Moves f (f.put number ⟨some t, loop', false, inbox, replies ++ [.next]⟩)
  | reports {f : Fleet} {number : Nat} {t : Toolchain} {loop : Loop} {inbox replies : List Message}
      (h : f.workers.lookup number = some ⟨some t, loop, false, .reportRequest :: inbox, replies⟩) :
      Moves f (f.put number ⟨some t, { loop with files := f.files }, false, inbox,
        replies ++ [.report loop.report]⟩)
  /-- A worker may be over at any time. -/
  | dies {f : Fleet} {number : Nat} {p : WorkerProcess} (h : f.workers.lookup number = some p) :
      Moves f (f.put number { p with tools := none, busy := false, inbox := [] })

/-! ## Putting a worker into its place -/

variable {f : Fleet} {number : Nat} {p : WorkerProcess}

/-- The process put at a number is the one found there, and the others stay. -/
theorem lookup_put (f : Fleet) (number other : Nat) (p : WorkerProcess) :
    (f.put number p).workers.lookup other
      = if other = number then some p else f.workers.lookup other := by
  have hfilter : (f.workers.filter (·.1 ≠ number)).lookup other
      = if other = number then none else f.workers.lookup other := by
    induction f.workers with
    | nil => simp
    | cons w rest ih =>
      obtain ⟨m, q⟩ := w
      by_cases hm : m = number
      · rw [List.filter_cons_of_neg (by simp [hm]), ih, List.lookup_cons]
        by_cases ho : other = number
        · simp [ho]
        · simp [ho, hm, beq_false_of_ne]
      · rw [List.filter_cons_of_pos (by simpa using hm), List.lookup_cons, List.lookup_cons, ih]
        by_cases ho : other = m
        · simp [ho, hm]
        · simp [beq_false_of_ne ho]
  rw [put, List.lookup_append, hfilter]
  by_cases ho : other = number
  · simp [ho]
  · simp [ho, List.lookup_cons, beq_false_of_ne ho]

/-- The process put at a number is found there. -/
@[simp] theorem lookup_put_self (f : Fleet) (number : Nat) (p : WorkerProcess) :
    (f.put number p).workers.lookup number = some p := by
  rw [lookup_put, if_pos rfl]

/-- The others stay. -/
theorem lookup_put_of_ne {other : Nat} (h : other ≠ number) (f : Fleet) (p : WorkerProcess) :
    (f.put number p).workers.lookup other = f.workers.lookup other := by
  rw [lookup_put, if_neg h]

/-- Only the last one that is put into a place counts. -/
theorem put_put (f : Fleet) (number : Nat) (p q : WorkerProcess) :
    (f.put number p).put number q = f.put number q := by
  simp [put, List.filter_append, List.filter_filter]

/-- Also if the files change meanwhile. -/
theorem put_files_put (f : Fleet) (number : Nat) (p q : WorkerProcess) (files : Files) :
    { f.put number p with files := files }.put number q =
      { f with files := files }.put number q := by
  simp [put, List.filter_append, List.filter_filter]

/-! ## At once -/

/-- **A fleet in which nothing is left half done**: a worker that does no batch is at
rest. -/
def Sane (f : Fleet) : Prop :=
  ∀ number t loop inbox replies,
    f.workers.lookup number = some ⟨some t, loop, false, inbox, replies⟩ →
      (Batch.Moment.ofLoop loop).Rests ∧ loop.stages = []

/-- A sane fleet stays so with a process that rests while it is idle. -/
theorem Sane.put (h : f.Sane) (files : Files) (notices : List WorkerNotice)
    (hp : ∀ t loop inbox replies, p = ⟨some t, loop, false, inbox, replies⟩ →
      (Batch.Moment.ofLoop loop).Rests ∧ loop.stages = []) :
    ({ f with files := files, notices := notices }.put number p).Sane := by
  intro other t loop inbox replies hother
  rw [lookup_put] at hother
  split_ifs at hother
  · exact hp t loop inbox replies (Option.some.inj hother)
  · exact h other t loop inbox replies hother

/-- **A worker that deals with its next message at once** makes some moves. -/
theorem answerNext_moves (h : f.Sane) (number : Nat) :
    ReflTransGen Moves f (f.answerNext number) ∧ (f.answerNext number).Sane := by
  unfold answerNext
  split
  next t loop m inbox replies hp =>
    obtain ⟨hrests, hstages⟩ := h number t loop (m :: inbox) replies hp
    cases m with
    | batch paths =>
      let s : Loop := { loop with files := f.files }
      have hrests' : (Batch.Moment.ofLoop s).Rests := hrests.elsewhere f.files loop.log
      obtain ⟨hsteps, hstopped, hstages'⟩ := Batch.batch_serves hrests' hstages t paths
      rw [← Loop.ofLoop_opening] at hsteps
      have hover := (((hrests'.opening paths).run
        (s.ofLoop_opening paths ▸ hsteps)).rests hstopped).1
      refine ⟨?_, h.put _ _ ?_⟩
      · -- the batch is taken, done and answered, and its log is written out
        refine .head (.takes hp) (.head (.works (lookup_put_self ..) hsteps) (.head
          (.finishes (lookup_put_self ..) hstopped rfl hstages') (.head
            (.logs (lookup_put_self ..)) (.single ?_))))
        rw [put_put, put_put, put_files_put]
        exact .notes _ f.calls _
      · rintro _ _ _ _ ⟨⟩
        exact ⟨hover.elsewhere _ [], hstages'⟩
    | reportRequest =>
      refine ⟨.head (.reports hp) (.head (.logs (lookup_put_self ..)) (.single ?_)), h.put _ _ ?_⟩
      · rw [put_put]
        exact .notes _ f.calls _
      · rintro _ _ _ _ ⟨⟩
        exact ⟨hrests.elsewhere f.files [], hstages⟩
    | next | report =>
      refine ⟨.head (.dies hp) (.single (.notes _ f.calls _)), h.put f.files _ ?_⟩
      rintro _ _ _ _ ⟨⟩
  · exact ⟨.refl, h⟩

/-- Moves one after another lead from a sane fleet to a sane one. -/
theorem foldl_moves {α : Type} {g : Fleet → α → Fleet}
    (hg : ∀ f : Fleet, f.Sane → ∀ a, ReflTransGen Moves f (g f a) ∧ (g f a).Sane) (as : List α)
    {f : Fleet} (h : f.Sane) : ReflTransGen Moves f (as.foldl g f) ∧ (as.foldl g f).Sane := by
  induction as generalizing f with
  | nil => exact ⟨.refl, h⟩
  | cons a rest ih =>
    obtain ⟨hfirst, hsane⟩ := hg f h a
    exact ⟨hfirst.trans (ih hsane).1, (ih hsane).2⟩

/-- **Workers that catch up** make some moves. -/
theorem catchUp_moves (h : f.Sane) : ReflTransGen Moves f f.catchUp := by
  refine (foldl_moves (fun f hf w => ?_) f.workers h).1
  exact foldl_moves (fun f hf _ => answerNext_moves hf w.1) w.2.inbox hf

/-- **A pace of the workers**: what happens while the primary does something is what
they do. -/
def Pace.Follows (pace : Pace) : Prop :=
  ∀ f : Fleet, f.Sane → ReflTransGen Moves f (pace.meanwhile f)

/-- Workers that answer at once follow the rules. -/
theorem Pace.atOnce_follows : Pace.atOnce.Follows := fun _ => catchUp_moves

end Fleet

/-! ## What a worker does -/

/-- The entries of the batches among some messages. -/
def entriesIn (messages : List Message) : List String :=
  (messages.flatMap Worker.batchIn).flatten

/-- The files in joined messages are joined. -/
@[simp] theorem entriesIn_append (messages messages' : List Message) :
    entriesIn (messages ++ messages') = entriesIn messages ++ entriesIn messages' := by
  simp [entriesIn]

/-- A file is in a message when it is in a batch. -/
theorem mem_entriesIn {messages : List Message} {path : String} :
    path ∈ entriesIn messages ↔ ∃ paths, .batch paths ∈ messages ∧ path ∈ paths := by
  rw [entriesIn, List.mem_flatten]
  refine exists_congr fun paths => and_congr_left fun _ => ?_
  rw [List.mem_flatMap]
  refine ⟨fun ⟨m, hm, hpaths⟩ => ?_, fun h => ⟨_, h, List.mem_singleton_self _⟩⟩
  cases m with
  | batch paths' =>
    obtain rfl := List.mem_singleton.1 hpaths
    exact hm
  | next | reportRequest | report => exact absurd hpaths List.not_mem_nil

/-- Messages that are no batches hand over no files. -/
theorem entriesIn_of_no_batch {messages : List Message}
    (h : ∀ m ∈ messages, ∀ paths, m ≠ .batch paths) : entriesIn messages = [] := by
  refine List.eq_nil_iff_forall_not_mem.2 fun path hpath => ?_
  obtain ⟨paths, hpaths, -⟩ := mem_entriesIn.1 hpath
  exact h _ hpaths paths rfl

/-- **What a loop has brought about**: an ending in its past, which the file may come
to in some files, given all that was replied. -/
def Brings (t : Toolchain) (loop : Loop) : Prospect := fun F path e =>
  (path, e) ∈ loop.past ∧ t.MayComeTo (loop.talk.since .none) F path e

/-- What brought a file to its end is there later too. -/
theorem Brings.mono {t : Toolchain} {loop loop' : Loop} {F : Files → Prop} {path : String}
    {e : Ending} (h : Brings t loop F path e) (hpast : loop.past ⊆ loop'.past)
    (htalk : loop'.talk.Continues loop.talk) : Brings t loop' F path e :=
  ⟨hpast h.1, h.2.mono htalk.since_le fun _ => id⟩

/-- The tools that a worker may have that reads its configuration from some files. -/
def Environment.Equips (e : Environment) (root : String) (configPath : Option String) (number : Nat)
    (t : Toolchain) : Prop :=
  ∃ files c, e.config files root root configPath [] = .ok c ∧ t = e.toolchain number c

/-- A moment of the work on other files. -/
def Batch.Moment.amid (m : Batch.Moment) (files : Files) : Batch.Moment :=
  { m with loop := { m.loop with files := files } }

/-- **A worker that is not over**: its tools, what it has found about the files that
are over with it, and where its jobs come from. -/
structure Active (T : Nat → Toolchain → Prop) (number : Nat) (t : Toolchain) (F : Files → Prop)
    (m : Batch.Moment) : Prop where
  tools : T number t
  found : ∀ path ending, (path, ending) ∈ m.loop.past →
    ∀ finding ∈ ending.findings path, finding ∈ m.loop.findings
  traced : ∃ files, Traced t (.ofFiles files) F m

/-- **What a batch has gained** by some of its jobs, in files that some endings have
left: more endings, and the files that they leave. -/
structure Gains (T : Nat → Toolchain → Prop) (number : Nat) (t : Toolchain)
    (C : Prospect) (files₀ : Files)
    (ends : List (String × Ending)) (m m' : Batch.Moment)
      (more : List (String × Ending)) : Prop where
  past : m'.loop.past = m.loop.past ++ more
  talk : m'.loop.talk.Continues m.loop.talk
  disk : m'.loop.files = filesAfter files₀ (ends ++ more)
  endings : Endings (fun F path ending => C F path ending ∨ Brings t m'.loop F path ending) files₀
    (ends ++ more)
  active : Active T number t (FilesOf files₀ (ends ++ more)) m'

section
variable {T : Nat → Toolchain → Prop} {number : Nat} {t : Toolchain} {C : Prospect} {files₀ : Files}
  {ends more : List (String × Ending)} {m m' m'' start : Batch.Moment} {paths : List String}

/-- The files in between are in the directories of the last ones. -/
theorem directories_of_filesOf {files : Files} (h : FilesOf files₀ ends files) :
    files.directories = (filesAfter files₀ ends).directories := by
  obtain ⟨before, -, rfl⟩ := h
  rw [(Batch.filesAfter_differOnlyAt files₀ before).directories,
    (Batch.filesAfter_differOnlyAt files₀ ends).directories]

/-- The files after some endings are those that the endings leave. -/
theorem filesOf_self (files₀ : Files) (ends : List (String × Ending)) :
    FilesOf files₀ ends (filesAfter files₀ ends) := ⟨ends, List.prefix_refl _, rfl⟩

/-- **Others may go on meanwhile.** -/
theorem Active.elsewhere (h : Active T number t (FilesOf files₀ ends) m)
    (more : List (String × Ending)) : Active T number t (FilesOf files₀ (ends ++ more))
      (m.amid (filesAfter files₀ (ends ++ more))) where
  tools := h.tools
  found := h.found
  traced := h.traced.imp fun _ ht => ht.elsewhere (fun _ hf => hf.mono (List.prefix_append ..))
    (filesOf_self ..) fun _ => directories_of_filesOf

/-- A batch begins. -/
theorem Active.opening {F : Files → Prop} (h : Active T number t F m) (paths : List String) :
    Active T number t F (m.opening paths) where
  tools := h.tools
  found := h.found
  traced := h.traced.imp fun _ ht => ht.opening paths

/-- What is done is not about the log. -/
theorem Active.logged {F : Files → Prop} (h : Active T number t F m) (log : List Batch.LogEntry) :
    Active T number t F ⟨m.tasks, { m.loop with log := log }⟩ where
  tools := h.tools
  found := h.found
  traced := h.traced.imp fun _ ht => { ht with }

/-- **Each step gains something**, or nothing. -/
theorem Gains.step (h : Gains T number t C files₀ ends m m' more) (hs : Batch.Sound m')
    (hstep : Step t m' m'') : ∃ more', Gains T number t C files₀ ends m m'' (more ++ more') := by
  have hdoes := hstep.does hs
  obtain ⟨new, findings, entries, hsays, hpast, hfiles, hfindings, -⟩ := hdoes.says
  obtain ⟨files, htraced⟩ := h.active.traced
  have hdisk : m''.loop.files = filesAfter files₀ (ends ++ (more ++ new)) := by
    rw [hfiles, h.disk, ← List.append_assoc, Batch.filesAfter_append _ (ends ++ more)]
  have htalk : m''.loop.talk.Continues m'.loop.talk := hdoes.continues
  have hendings : Endings (fun F path ending => C F path ending ∨ Brings t m''.loop F path ending)
      files₀ (ends ++ more) := h.endings.mono fun _ _ _ hC => hC.imp_right fun hbrings =>
    hbrings.mono (hpast ▸ List.subset_append_left ..) htalk
  refine ⟨new,
    ⟨by rw [hpast, h.past, List.append_assoc], htalk.trans h.talk, hdisk, ?_,
      h.active.tools, ?_, files, ?_⟩⟩
  · cases hsays with
    | nothing | asked | walked | inferred =>
      rw [List.append_nil]
      exact hendings
    | @past path r ending _ hjob hsettles =>
      rw [← List.append_assoc]
      refine hendings.snoc (.inr ⟨?_, ?_⟩) ?_
      · rw [hpast]
        exact List.mem_append_right _ (List.mem_singleton_self _)
      · exact (htraced.settled hjob hsettles).mono htalk.since_le fun _ => id
      · rintro mf rfl
        cases hsettles with
        | written hwrite => exact ⟨_, h.disk ▸ hwrite⟩
  · rw [hpast, hfindings]
    intro path ending hmem finding hfinding
    rcases List.mem_append.1 hmem with hmem | hmem
    · exact List.mem_append_left _ (h.active.found path ending hmem finding hfinding)
    · cases hsays with
      | nothing | asked | walked | inferred => exact absurd hmem List.not_mem_nil
      | past =>
        obtain ⟨rfl, rfl⟩ := Prod.mk.inj (List.mem_singleton.1 hmem)
        exact List.mem_append_right _ hfinding
  · exact hdoes.traced hs htraced
      (fun _ hf => hf.mono (List.append_assoc ends more new ▸ List.prefix_append ..))
      (hdisk ▸ filesOf_self ..) fun _ hf => hdisk ▸ directories_of_filesOf hf

/-- **So does each run of a batch.** -/
theorem Active.gains (h : Active T number t (FilesOf files₀ ends) m) (hs : Serves start paths m)
    (hdisk : m.loop.files = filesAfter files₀ ends) (hends : Endings C files₀ ends)
    (hrun : ReflTransGen (Step t) m m') : ∃ more, Gains T number t C files₀ ends m m' more := by
  induction hrun with
  | refl =>
    refine ⟨[], (List.append_nil _).symm, .refl _, ?_, ?_, ?_⟩
    · rw [List.append_nil, hdisk]
    · rw [List.append_nil]
      exact hends.mono fun _ _ _ => .inl
    · rw [List.append_nil]
      exact h
  | tail hrun hstep ih =>
    obtain ⟨more, hgains⟩ := ih
    obtain ⟨more', hgains'⟩ := hgains.step (hs.run hrun).sound hstep
    exact ⟨_, hgains'⟩

end

/-! ## What a worker has done -/

/-- **What a worker is doing**, given what was sent to it: it is over, or it has done
some batches and waits for the next message, or does the next batch. -/
inductive Doing (T : Nat → Toolchain → Prop) (number : Nat) (F : Files → Prop) (files : Files)
    (sent : List Message) : WorkerProcess → Prop
  | gone (loop : Loop) (replies : List Message) :
      Doing T number F files sent ⟨none, loop, false, [], replies⟩
  | idle {t : Toolchain} {loop : Loop} {inbox replies done : List Message}
      (active : Active T number t F ((Batch.Moment.ofLoop loop).amid files))
      (rests : (Batch.Moment.ofLoop loop).Rests) (stages : loop.stages = [])
      (sent_eq : sent = done ++ inbox) (past : (loop.past.map (·.1)).Perm (entriesIn done)) :
      Doing T number F files sent ⟨some t, loop, false, inbox, replies⟩
  | busy {t : Toolchain} {loop : Loop} {inbox replies done : List Message} {paths : List String}
      {start : Batch.Moment} (active : Active T number t F ((Batch.Moment.ofLoop loop).amid files))
      (serves : Serves start paths (.ofLoop loop)) (sent_eq : sent = done ++ .batch paths :: inbox)
      (past : (start.loop.past.map (·.1)).Perm (entriesIn done)) :
      Doing T number F files sent ⟨some t, loop, true, inbox, replies⟩

/-- **What a report tells** of the entries of some batches: all of them are over, and
it has those that are not written. -/
def Report.Tells (data : Report) (past : List (String × Ending)) (entries : List String) : Prop :=
  ∀ path ∈ entries, ∃ ending, (path, ending) ∈ past ∧
    ((∃ m, ending = .written m) ∨ path ∈ data.unmigrated)

/-- **What a worker has done**, given what was sent to it and heard from it. -/
structure Works (T : Nat → Toolchain → Prop) (number : Nat) (files₀ : Files)
    (ends : List (String × Ending))
    (files : Files) (sent heard : List Message) (p : WorkerProcess) : Prop where
  recorded : p.loop.past ⊆ ends
  asked : ∀ path ∈ p.loop.past.map (·.1), path ∈ entriesIn sent
  reported : ∀ data, .report data ∈ heard ++ p.replies →
    .reportRequest ∈ sent ∧ data.Tells p.loop.past (entriesIn sent)
  doing : Doing T number (FilesOf files₀ ends) files sent p

section
variable {T : Nat → Toolchain → Prop} {number : Nat} {files₀ files : Files}
  {ends more : List (String × Ending)} {sent heard : List Message} {p p' : WorkerProcess}

/-- **A report tells of everything that is over**, if everything was found that is to be. -/
theorem Report.tells_of_found {loop : Loop} {entries : List String}
    (hfound : ∀ path ending, (path, ending) ∈ loop.past →
      ∀ finding ∈ ending.findings path, finding ∈ loop.findings)
    (hpast : (loop.past.map (·.1)).Perm entries) : loop.report.Tells loop.past entries := by
  intro path hpath
  obtain ⟨⟨path, ending⟩, hmem, rfl⟩ := List.mem_map.1 (hpast.mem_iff.2 hpath)
  refine ⟨ending, hmem, ?_⟩
  have hfile : ∀ category, .file category path ∈ loop.findings →
      path ∈ loop.report.files category := fun category h =>
    List.mem_filterMap.2 ⟨_, h, if_pos rfl⟩
  cases ending with
  | written m => exact .inl ⟨m, rfl⟩
  | skipped =>
    have hfound := hfile _ (hfound path _ hmem _ (List.mem_singleton_self _))
    exact .inr (List.mem_append_right _ hfound)
  | failed cause =>
    have hfound := hfile _ (hfound path _ hmem _ (List.mem_singleton_self _))
    exact .inr (List.mem_append_left _ hfound)

/-- A report goes on telling of what has ended. -/
theorem Report.Tells.mono {data : Report} {past past' : List (String × Ending)}
    {entries : List String} (h : data.Tells past entries) (hpast : past ⊆ past') :
    data.Tells past' entries := fun path hpath =>
  (h path hpath).imp fun _ h => ⟨hpast h.1, h.2⟩

/-- **Others may go on meanwhile.** -/
theorem Works.elsewhere (h : Works T number files₀ ends files sent heard p)
    (more : List (String × Ending)) :
    Works T number files₀ (ends ++ more) (filesAfter files₀ (ends ++ more)) sent heard p where
  recorded := List.Subset.trans h.recorded (List.subset_append_left ..)
  asked := h.asked
  reported := h.reported
  doing := by
    cases h.doing with
    | gone loop replies => exact .gone loop replies
    | idle active rests stages sent_eq past =>
      exact .idle (active.elsewhere more) rests stages sent_eq past
    | busy active serves sent_eq past => exact .busy (active.elsewhere more) serves sent_eq past

/-- A worker that does something else, but has brought about the same. -/
theorem Works.doing_of (h : Works T number files₀ ends files sent heard p)
    (hpast : p'.loop.past = p.loop.past)
    (hreplies : ∀ data, .report data ∈ p'.replies → .report data ∈ p.replies)
    (hdoing : Doing T number (FilesOf files₀ ends) files sent p') :
    Works T number files₀ ends files sent heard p' where
  recorded := hpast ▸ h.recorded
  asked := hpast ▸ h.asked
  reported data hdata := by
    rw [hpast]
    refine h.reported data (List.mem_append.2 ?_)
    exact (List.mem_append.1 hdata).imp_right (hreplies data)
  doing := hdoing

/-- **A message more for a worker**, and no batch where a report has been asked for. -/
theorem Works.addressed (h : Works T number files₀ ends files sent heard p) {m : Message}
    (hbatch : .reportRequest ∈ sent → ∀ paths, m ≠ .batch paths) (inbox : List Message)
    (hdoing : Doing T number (FilesOf files₀ ends) files (sent ++ [m]) { p with inbox := inbox }) :
    Works T number files₀ ends files (sent ++ [m]) heard { p with inbox := inbox } where
  recorded := h.recorded
  asked path hpath := by
    rw [entriesIn_append]
    exact List.mem_append_left _ (h.asked path hpath)
  reported data hdata := by
    obtain ⟨hrequest, htells⟩ := h.reported data hdata
    refine ⟨List.mem_append_left _ hrequest, ?_⟩
    rw [entriesIn_append, entriesIn_of_no_batch (List.forall_mem_singleton.2 (hbatch hrequest)),
      List.append_nil]
    exact htells
  doing := hdoing

/-- What a worker is doing is not about its log. -/
theorem Doing.logged (h : Doing T number (FilesOf files₀ ends) files sent p) :
    Doing T number (FilesOf files₀ ends) files sent
      { p with loop := { p.loop with log := [] } } := by
  cases h with
  | gone loop replies => exact .gone _ replies
  | idle active rests stages sent_eq past =>
    exact .idle (active.logged []) (rests.elsewhere _ []) stages sent_eq past
  | busy active serves sent_eq past =>
    exact .busy (active.logged []) (serves.elsewhere _ []) sent_eq past

end

/-! ## What a fleet has done -/

namespace Fleet

/-- What the workers of a fleet have brought about. -/
def Brings (T : Nat → Toolchain → Prop) (f : Fleet) : Prospect := fun F path ending =>
  ∃ number p t, f.workers.lookup number = some p ∧ T number t ∧ Retype.Brings t p.loop F path ending

/-- **Where everything comes from** in a fleet, after some calls: the files are what
the endings have made of the first ones, and each worker has done what it should. -/
structure Told (T : Nat → Toolchain → Prop) (files₀ : Files) (log : List Call) (f : Fleet)
    (ends : List (String × Ending)) : Prop where
  disk : f.files = filesAfter files₀ ends
  endings : Endings (f.Brings T) files₀ ends
  spawned : ∀ number, number ∈ spawnedIn log ↔ (f.workers.lookup number).isSome
  works : ∀ number p, f.workers.lookup number = some p →
    Works T number files₀ ends f.files (sentTo number log) (heardFrom number log) p

section
variable {T : Nat → Toolchain → Prop} {files₀ : Files} {log log' : List Call} {f f' : Fleet}
  {ends more : List (String × Ending)} {number : Nat} {p p' : WorkerProcess}

/-- Nobody has been told anything at the start. -/
theorem told_ofFiles (T : Nat → Toolchain → Prop) (files : Files) :
    Told T files [] (.ofFiles files) [] where
  disk := rfl
  endings := .nil
  spawned _ := ⟨fun h => absurd h List.not_mem_nil, nofun⟩
  works _ _ h := by cases h

/-- Nothing is lost when a worker is replaced by one that has brought about as much. -/
theorem Brings.put {F : Files → Prop} {path : String} {ending : Ending}
    (h : f.Brings T F path ending) (hp : f.workers.lookup number = some p)
    (hpast : p.loop.past ⊆ p'.loop.past)
    (htalk : p'.loop.talk.Continues p.loop.talk) (files : Files) :
    ({ f with files := files }.put number p').Brings T F path ending := by
  obtain ⟨other, q, t, hq, htools, hbrings⟩ := h
  by_cases hother : other = number
  · subst hother
    obtain rfl := Option.some.inj (hp.symm.trans hq)
    exact ⟨other, p', t, lookup_put_self .., htools, hbrings.mono hpast htalk⟩
  · exact ⟨other, q, t, (lookup_put_of_ne hother _ _).trans hq, htools, hbrings⟩

/-- **A worker that goes on** while the others do nothing. -/
theorem Told.put (h : Told T files₀ log f ends) (hp : f.workers.lookup number = some p)
    (hends : Endings (({ f with files := filesAfter files₀ (ends ++ more) }.put number p').Brings T)
      files₀ (ends ++ more))
    (hworks : Works T number files₀ (ends ++ more) (filesAfter files₀ (ends ++ more))
      (sentTo number log) (heardFrom number log) p') :
    Told T files₀ log ({ f with files := filesAfter files₀ (ends ++ more) }.put number p')
      (ends ++ more) where
  disk := rfl
  endings := hends
  spawned other := by
    rw [h.spawned, lookup_put]
    split_ifs with hother
    · rw [hother, hp]
      simp
    · rfl
  works other q hq := by
    rw [lookup_put] at hq
    split_ifs at hq with hother
    · obtain rfl := Option.some.inj hq
      exact hother ▸ hworks
    · exact (h.works other q hq).elsewhere more

/-- **Only one worker is concerned**, which has brought about the same afterwards. -/
theorem Told.only (h : Told T files₀ log f ends) (number : Nat) (hfiles : f'.files = f.files)
    (hspawned : spawnedIn log' = spawnedIn log)
    (hothers : ∀ m, m ≠ number → f'.workers.lookup m = f.workers.lookup m ∧
      sentTo m log' = sentTo m log ∧ heardFrom m log' = heardFrom m log)
    (hone : Option.Rel (fun p p' => p'.loop.past = p.loop.past ∧
        p'.loop.talk.Continues p.loop.talk ∧
        Works T number files₀ ends f.files (sentTo number log') (heardFrom number log') p')
      (f.workers.lookup number) (f'.workers.lookup number)) :
    Told T files₀ log' f' ends := by
  refine ⟨hfiles.trans h.disk, h.endings.mono ?_, fun m => ?_, fun m q hq => ?_⟩
  · rintro F path ending ⟨m, p, t, hp, htools, hbrings⟩
    by_cases hm : m = number
    · subst hm
      rw [hp] at hone
      cases hone' : f'.workers.lookup m with
      | none => rw [hone'] at hone; cases hone
      | some p' =>
        rw [hone'] at hone
        cases hone with
        | some hone =>
          exact ⟨m, p', t, hone', htools, hbrings.mono (hone.1 ▸ List.Subset.refl _) hone.2.1⟩
    · exact ⟨m, p, t, (hothers m hm).1.trans hp, htools, hbrings⟩
  · rw [hspawned, h.spawned]
    by_cases hm : m = number
    · subst hm
      generalize f.workers.lookup m = before, f'.workers.lookup m = after at hone
      cases hone <;> rfl
    · rw [(hothers m hm).1]
  · rw [hfiles]
    by_cases hm : m = number
    · subst hm
      rw [hq] at hone
      generalize f.workers.lookup m = found at hone
      cases hone with
      | some hone => exact hone.2.2
    · obtain ⟨hlookup, hsent, hheard⟩ := hothers m hm
      rw [hsent, hheard]
      exact h.works m q (hlookup ▸ hq)

/-- A worker that is replaced by one that has brought about the same. -/
theorem Told.replace (h : Told T files₀ log f ends) (hp : f.workers.lookup number = some p)
    (hpast : p'.loop.past = p.loop.past) (htalk : p'.loop.talk.Continues p.loop.talk)
    (hworks : Works T number files₀ ends f.files (sentTo number log) (heardFrom number log) p') :
    Told T files₀ log (f.put number p') ends := by
  refine h.only number rfl rfl (fun m hm => ⟨lookup_put_of_ne hm f p', rfl, rfl⟩) ?_
  rw [hp, lookup_put_self]
  exact .some ⟨hpast, htalk, hworks⟩

/-- **A fleet of which everything is told is sane.** -/
theorem Told.sane (h : Told T files₀ log f ends) : f.Sane := by
  intro number t loop inbox replies hp
  cases (h.works number _ hp).doing with
  | idle _ rests stages => exact ⟨rests, stages⟩

section
variable {t : Toolchain} {loop loop' : Loop} {inbox replies : List Message} {paths : List String}

/-- A worker takes the batch in front of it. -/
theorem Told.takes (h : Told T files₀ log f ends)
    (hp : f.workers.lookup number = some ⟨some t, loop, false, .batch paths :: inbox, replies⟩) :
    Told T files₀ log
      (f.put number ⟨some t, { loop.schedule [.openBatch paths] with stopped := false },
      true, inbox, replies⟩) ends := by
  have hworks := h.works _ _ hp
  refine h.replace hp rfl (.refl _) (hworks.doing_of rfl (fun _ => id) ?_)
  cases hworks.doing with
  | @idle _ _ _ _ done active rests stages sent_eq past =>
    have hopening := (loop.ofLoop_opening paths).symm
    exact .busy (hopening ▸ active.opening paths) (hopening ▸ rests.opening paths) sent_eq past

/-- It goes on with the batch. -/
theorem Told.goesOn (h : Told T files₀ log f ends)
    (hp : f.workers.lookup number = some ⟨some t, loop, true, inbox, replies⟩)
    (hrun : ReflTransGen (Step t) (.ofLoop { loop with files := f.files }) (.ofLoop loop')) :
    ∃ more, Told T files₀ log
      ({ f with files := loop'.files }.put number ⟨some t, loop', true, inbox, replies⟩)
      (ends ++ more) := by
  have hworks := h.works _ _ hp
  cases hworks.doing with
  | @busy _ _ _ _ done paths start active serves sent_eq past =>
    have hserves := serves.elsewhere f.files loop.log
    obtain ⟨more, hgains⟩ := active.gains hserves h.disk h.endings hrun
    have hpast : loop'.past = loop.past ++ more := hgains.past
    have hgrows : loop.past ⊆ loop'.past := hpast ▸ List.subset_append_left ..
    have hdisk : loop'.files = filesAfter files₀ (ends ++ more) := hgains.disk
    refine ⟨more, ?_⟩
    rw [hdisk]
    refine h.put hp (hgains.endings.mono ?_) ⟨?_, fun path hpath => ?_, fun data hdata => ?_, ?_⟩
    · rintro F path ending (hbrings | hbrings)
      · exact hbrings.put hp hgrows hgains.talk _
      · exact ⟨number, _, t, lookup_put_self .., active.tools, hbrings⟩
    · show loop'.past ⊆ ends ++ more
      rw [hpast]
      exact List.append_subset.2
        ⟨List.Subset.trans hworks.recorded (List.subset_append_left ..),
          List.subset_append_right ..⟩
    · rw [sent_eq, mem_entriesIn]
      rcases (hserves.run hrun).mem_of_past hpath with hstart | hpaths
      · obtain ⟨paths', hmem, hpath'⟩ := mem_entriesIn.1 (past.mem_iff.1 hstart)
        exact ⟨paths', List.mem_append_left _ hmem, hpath'⟩
      · exact ⟨paths, List.mem_append_right _ List.mem_cons_self, hpaths⟩
    · obtain ⟨hrequest, htells⟩ := hworks.reported data hdata
      exact ⟨hrequest, htells.mono hgrows⟩
    · exact hdisk ▸ .busy hgains.active (hserves.run hrun) sent_eq past

/-- It finishes the batch. -/
theorem Told.finishes (h : Told T files₀ log f ends)
    (hp : f.workers.lookup number = some ⟨some t, loop, true, inbox, replies⟩)
    (hstopped : loop.stopped = true) (hsame : Batch.Moment.ofLoop loop' = .ofLoop loop)
    (hstages : loop'.stages = []) :
    Told T files₀ log (f.put number ⟨some t, loop', false, inbox, replies ++ [.next]⟩) ends := by
  have hworks := h.works _ _ hp
  have hpast : loop'.past = loop.past := congrArg (fun m : Batch.Moment => m.loop.past) hsame
  have htalk : loop'.talk = loop.talk := congrArg (fun m : Batch.Moment => m.loop.talk) hsame
  refine h.replace hp hpast (htalk ▸ .refl _) (hworks.doing_of hpast (fun data hdata => ?_) ?_)
  · exact (List.mem_append.1 hdata).resolve_right (by simp)
  · cases hworks.doing with
    | @busy _ _ _ _ done paths start active serves sent_eq past =>
      obtain ⟨hrests, hperm⟩ := serves.rests hstopped
      refine .idle (hsame ▸ active) (hsame ▸ hrests) hstages
        (sent_eq.trans (List.append_cons ..)) ?_
      rw [entriesIn_append]
      exact hpast ▸ hperm.trans (past.append (.of_eq (by simp [entriesIn, Worker.batchIn])))

/-- **A report that is given** tells of everything that was sent. -/
theorem Told.reports (h : Told T files₀ log f ends) (hlog : InOrder log)
    (hp : f.workers.lookup number = some ⟨some t, loop, false, .reportRequest :: inbox, replies⟩) :
    Told T files₀ log (f.put number ⟨some t, { loop with files := f.files }, false, inbox,
      replies ++ [.report loop.report]⟩) ends := by
  have hworks := h.works _ _ hp
  refine h.replace hp rfl (.refl _) ?_
  cases hworks.doing with
  | @idle _ _ _ _ done active rests stages sent_eq past =>
    have hentries : entriesIn (sentTo number log) = entriesIn done := by
      have hrequest := hlog.request number
      rw [sent_eq, List.pairwise_append, List.pairwise_cons] at hrequest
      rw [sent_eq, entriesIn_append,
        entriesIn_of_no_batch
          (List.forall_mem_cons.2 ⟨by simp, fun m hm => hrequest.2.1.1 m hm rfl⟩),
        List.append_nil]
    refine ⟨hworks.recorded, hworks.asked, fun data hdata => ?_, ?_⟩
    · rw [← List.append_assoc] at hdata
      rcases List.mem_append.1 hdata with hdata | hdata
      · exact hworks.reported data hdata
      · obtain rfl := Message.report.inj (List.mem_singleton.1 hdata)
        refine ⟨sent_eq ▸ List.mem_append_right _ List.mem_cons_self, ?_⟩
        rw [hentries]
        exact Report.tells_of_found active.found past
    · refine .idle active (rests.elsewhere f.files loop.log) stages
        (sent_eq.trans (List.append_cons ..)) ?_
      rw [entriesIn_append]
      exact past.trans (.of_eq (List.append_nil _).symm)

end

/-- **Each move goes on with what is told.** -/
theorem Told.move (h : Told T files₀ log f ends) (hlog : InOrder log) (hmove : Moves f f') :
    ∃ more, Told T files₀ log f' (ends ++ more) := by
  have hsame {f' : Fleet} (htold : Told T files₀ log f' ends) :
      ∃ more, Told T files₀ log f' (ends ++ more) := ⟨[], (List.append_nil ends).symm ▸ htold⟩
  cases hmove with
  | notes calls notices => exact hsame ⟨h.disk, h.endings, h.spawned, h.works⟩
  | logs hp =>
    have hworks := h.works _ _ hp
    exact hsame (h.replace hp rfl (.refl _) (hworks.doing_of rfl (fun _ => id) hworks.doing.logged))
  | dies hp =>
    have hworks := h.works _ _ hp
    exact hsame (h.replace hp rfl (.refl _) (hworks.doing_of rfl (fun _ => id) (.gone _ _)))
  | takes hp => exact hsame (h.takes hp)
  | works hp hrun => exact h.goesOn hp hrun
  | finishes hp hstopped hsame' hstages => exact hsame (h.finishes hp hstopped hsame' hstages)
  | reports hp => exact hsame (h.reports hlog hp)

/-- **And so does what the workers do while the primary does something.** -/
theorem Told.moves (h : Told T files₀ log f ends) (hlog : InOrder log)
    (hmoves : ReflTransGen Moves f f') : ∃ more, Told T files₀ log f' (ends ++ more) := by
  induction hmoves with
  | refl => exact ⟨[], (List.append_nil ends).symm ▸ h⟩
  | tail _ hmove ih =>
    obtain ⟨more, htold⟩ := ih
    obtain ⟨more', htold'⟩ := htold.move hlog hmove
    exact ⟨more ++ more', List.append_assoc .. ▸ htold'⟩

/-- What is told of a fleet after some calls, if these are in order. -/
def IsTold (T : Nat → Toolchain → Prop) (files₀ : Files) (u : Fleet × List Call) : Prop :=
  InOrder u.2 → ∃ ends, Told T files₀ u.2 u.1 ends

/-- While the primary waits, the fleet does what was told. -/
theorem Told.pass {pace : Pace} (hpace : pace.Follows) (h : Told T files₀ log f ends)
    (hlog : InOrder log) : ∃ ends, Told T files₀ log (f.pass pace) ends := by
  have hcalls : Told T files₀ log { f with calls := f.calls + 1 } ends :=
    ⟨h.disk, h.endings, h.spawned, h.works⟩
  obtain ⟨more, htold⟩ := hcalls.moves hlog (hpace _ hcalls.sane)
  exact ⟨_, htold⟩

/-! ### The calls of the primary -/

/-- **A worker that is there from now on.** -/
theorem Told.enters (h : Told T files₀ log f ends) (hlog : InOrder (log ++ [.spawned number none]))
    (hpast : p.loop.past = []) (hreplies : p.replies = [])
    (hdoing : Doing T number (FilesOf files₀ ends) f.files [] p) :
    Told T files₀ (log ++ [.spawned number none]) (f.put number p) ends := by
  obtain ⟨hsent, hheard, hspawned⟩ := hlog.of_spawned
  have hnew : f.workers.lookup number = none := by
    rwa [h.spawned, Option.not_isSome_iff_eq_none] at hspawned
  have hsame : ∀ m : Nat, sentTo m (log ++ [.spawned number none]) = sentTo m log ∧
      heardFrom m (log ++ [.spawned number none]) = heardFrom m log := fun m => by
    simp [sentTo, heardFrom, Dispatch.Call.sentTo?, Dispatch.Call.heardFrom?]
  refine ⟨h.disk, h.endings.mono ?_, fun other => ?_, fun other q hq => ?_⟩
  · rintro F path ending ⟨other, q, t, hq, hbrings⟩
    have hother : other ≠ number := by
      rintro rfl
      cases hnew.symm.trans hq
    exact ⟨other, q, t, (lookup_put_of_ne hother f p).trans hq, hbrings⟩
  · rw [Dispatch.spawnedIn_append, List.mem_append, h.spawned, lookup_put]
    by_cases hother : other = number
    · simp [hother, spawnedIn]
    · simp [hother, spawnedIn]
  · rw [(hsame other).1, (hsame other).2]
    rw [lookup_put] at hq
    split_ifs at hq with hother
    · subst hother
      obtain rfl := Option.some.inj hq
      rw [hsent, hheard]
      refine ⟨hpast ▸ List.nil_subset _, fun path hpath => ?_, fun data hdata => ?_, hdoing⟩
      · rw [hpast] at hpath
        exact absurd hpath List.not_mem_nil
      · rw [hreplies] at hdata
        exact absurd hdata List.not_mem_nil
    · exact h.works other q hq

/-- A worker that is spawned has been told nothing. -/
theorem Told.spawn {e : Environment} {root : String} {configPath : Option String}
    (h : Told (e.Equips root configPath) files₀ log f ends)
    (hlog : InOrder (log ++ [.spawned number none])) :
    Told (e.Equips root configPath) files₀ (log ++ [.spawned number none])
      (f.spawn e root configPath number) ends := by
  have hnotes (notices : List WorkerNotice) :
      Told (e.Equips root configPath) files₀ log { f with notices := notices } ends :=
    ⟨h.disk, h.endings, h.spawned, h.works⟩
  unfold Fleet.spawn
  cases hconfig : e.config f.files root root configPath [] with
  | error cause => exact (hnotes _).enters hlog rfl rfl (.gone _ _)
  | ok c =>
    have hrests := Batch.rests_ofFiles f.files
    have hactive : Active (e.Equips root configPath) number (e.toolchain number c)
        (FilesOf files₀ ends) ((Batch.Moment.ofLoop (.ofFiles f.files)).amid f.files) :=
      ⟨⟨_, c, hconfig, rfl⟩, fun _ _ hmem => absurd hmem List.not_mem_nil, f.files,
        hrests.traced.elsewhere
        (by rintro _ rfl; exact h.disk ▸ filesOf_self files₀ ends)
          (h.disk ▸ filesOf_self files₀ ends)
        fun _ hf => h.disk ▸ directories_of_filesOf hf⟩
    exact h.enters hlog rfl rfl (.idle hactive hrests rfl (List.nil_append []).symm (.refl _))

/-- **A message that is sent to a worker.** No batch is sent after the request for its
report. -/
theorem Told.send (h : Told T files₀ log f ends) {m : Message}
    (hlog : InOrder (log ++ [.sent number m none])) :
    Told T files₀ (log ++ [.sent number m none]) (f.send number m) ends := by
  have hsent : sentTo number (log ++ [.sent number m none]) = sentTo number log ++ [m] := by
    simp [sentTo, Dispatch.Call.sentTo?]
  have hheard (other : Nat) :
      heardFrom other (log ++ [.sent number m none]) = heardFrom other log := by
    simp [heardFrom, Dispatch.Call.heardFrom?]
  -- once a report has been asked for, the message is no batch
  have hbatch (hrequest : .reportRequest ∈ sentTo number log) : ∀ paths, m ≠ .batch paths := by
    have horder := hlog.request number
    rw [hsent, List.pairwise_append] at horder
    exact horder.2.2 _ hrequest m (List.mem_singleton_self m) rfl
  have hothers (other : Nat) (hother : other ≠ number) :
      sentTo other (log ++ [.sent number m none]) = sentTo other log := by
    simp [sentTo, Dispatch.Call.sentTo?, hother.symm]
  have hspawned : spawnedIn (log ++ [.sent number m none]) = spawnedIn log := by simp [spawnedIn]
  unfold Fleet.send
  cases hp : f.workers.lookup number with
  | none =>
    refine h.only number rfl hspawned
      (fun other hother => ⟨rfl, hothers other hother, hheard other⟩) ?_
    rw [hp]
    exact .none
  | some p =>
    have hdoing := (h.works number p hp).doing
    dsimp only
    split_ifs with htools
    · refine h.only number rfl hspawned
        (fun other hother => ⟨lookup_put_of_ne hother .., hothers other hother, hheard other⟩) ?_
      rw [hp, lookup_put_self, hsent, hheard]
      refine .some ⟨rfl, .refl _, (h.works number p hp).addressed hbatch _ ?_⟩
      cases hdoing with
      | gone => exact absurd htools Bool.false_ne_true
      | idle active rests stages sent_eq past =>
        exact .idle active rests stages (by rw [sent_eq, List.append_assoc]) past
      | busy active serves sent_eq past =>
        exact .busy active serves (by rw [sent_eq, List.append_assoc]; rfl) past
    · refine h.only number rfl hspawned
        (fun other hother => ⟨rfl, hothers other hother, hheard other⟩) ?_
      rw [hp, hsent, hheard]
      refine .some ⟨rfl, .refl _, (h.works number p hp).addressed hbatch p.inbox ?_⟩
      cases hdoing with
      | gone loop replies => exact .gone loop replies
      | idle | busy => exact absurd rfl htools

/-- Receiving an answer changes nothing on disk. -/
theorem Told.receive (h : Told T files₀ log f ends) (number : Nat) :
    Told T files₀ (log ++ [.received number (.ok (f.receive number).2)])
      (f.receive number).1 ends := by
  have hothers (answer : Except ProtocolError (Option Message)) (other : Nat)
      (hother : other ≠ number) :
      sentTo other (log ++ [.received number answer]) = sentTo other log ∧
        heardFrom other (log ++ [.received number answer]) = heardFrom other log := by
    simp [sentTo, heardFrom, Dispatch.Call.sentTo?, Dispatch.Call.heardFrom?, hother.symm]
  have hsent (answer : Except ProtocolError (Option Message)) :
      sentTo number (log ++ [.received number answer]) = sentTo number log := by
    simp [sentTo, Dispatch.Call.sentTo?]
  have hheard (m : Option Message) : heardFrom number (log ++ [.received number (.ok m)])
      = heardFrom number log ++ m.toList := by
    cases m <;> simp [heardFrom, Dispatch.Call.heardFrom?, Except.toOption]
  have hspawned (answer : Except ProtocolError (Option Message)) :
      spawnedIn (log ++ [.received number answer]) = spawnedIn log := by simp [spawnedIn]
  -- nothing has come
  have hnone : Told T files₀ (log ++ [.received number (.ok none)]) f ends := by
    refine h.only number rfl (hspawned _) (fun other hother => ⟨rfl, hothers _ other hother⟩) ?_
    rw [hsent, hheard, Option.toList, List.append_nil]
    cases hp : f.workers.lookup number with
    | none => exact .none
    | some p => exact .some ⟨rfl, .refl _, h.works number p hp⟩
  unfold Fleet.receive
  cases hp : f.workers.lookup number with
  | none => exact hnone
  | some p =>
    obtain ⟨tools, loop, busy, inbox, replies⟩ := p
    cases replies with
    | nil => exact hnone
    | cons reply replies =>
      refine h.only number rfl (hspawned _)
        (fun other hother => ⟨lookup_put_of_ne hother .., hothers _ other hother⟩) ?_
      rw [hp, lookup_put_self, hsent, hheard]
      have hold := h.works number _ hp
      refine .some ⟨rfl, .refl _, hold.recorded, hold.asked, fun data hdata => ?_, ?_⟩
      · exact hold.reported data (by simpa using hdata)
      · cases hold.doing with
        | gone => exact .gone _ _
        | idle active rests stages sent_eq past => exact .idle active rests stages sent_eq past
        | busy active serves sent_eq past => exact .busy active serves sent_eq past

/-- **A worker that is ended.** One that does a batch is cut off, any other one has
nothing more to do with any file. -/
theorem Told.terminate (h : Told T files₀ log f ends) (number : Nat) :
    Told T files₀ (log ++ [.terminated number]) (f.terminate number) ends := by
  have hlog (m : Nat) : sentTo m (log ++ [.terminated number]) = sentTo m log ∧
      heardFrom m (log ++ [.terminated number]) = heardFrom m log := by
    simp [sentTo, heardFrom, Dispatch.Call.sentTo?, Dispatch.Call.heardFrom?]
  have hspawned : spawnedIn (log ++ [.terminated number]) = spawnedIn log := by simp [spawnedIn]
  have hended {p : WorkerProcess} (hp : f.workers.lookup number = some p) {files : Files}
      (hfiles : files = f.files) (notices : List WorkerNotice) {loop : Loop}
      (hpast : loop.past = p.loop.past) (htalk : loop.talk.Continues p.loop.talk) :
      Told T files₀ (log ++ [.terminated number]) ({ f with files := files, notices := notices }.put
        number ⟨none, loop, false, [], p.replies⟩) ends := by
    refine h.only number hfiles hspawned (fun m hm => ⟨lookup_put_of_ne hm .., hlog m⟩) ?_
    rw [hp, lookup_put_self, (hlog number).1, (hlog number).2]
    exact .some ⟨hpast, htalk, (h.works number p hp).doing_of hpast (fun _ => id) (.gone _ _)⟩
  unfold Fleet.terminate
  split
  next t loop inbox replies hp =>
    have hdoing := (h.works number _ hp).doing
    cases hdoing with
    | idle active rests stages sent_eq past =>
      have hcloses := Loop.closes_close (s := { loop with files := f.files })
        (rests.elsewhere f.files loop.log) stages t
      exact hended hp hcloses.files _ hcloses.past hcloses.talk
  next p _ hp => exact hended hp rfl f.notices rfl (.refl _)
  next hp =>
    refine h.only number rfl hspawned (fun m _ => ⟨rfl, hlog m⟩) ?_
    rw [hp]
    exact .none

/-- **Where everything comes from after a run** of the workers, whatever their pace. -/
theorem told_of_run (e : Environment) {pace : Pace} (hpace : pace.Follows) (root : String)
    (configPath : Option String) (files : Files) (o : Dispatch.Settings) (n : Nat)
    (queue : List String) {s : Dispatch.RunState (Fleet × List Call)}
    (hs : ((Dispatch.RunState.ofFiles (.ofFiles files, []) queue).run
      (surroundings e pace root configPath).recorded o n).2 = s) (hlog : InOrder s.surroundings.2) :
    ∃ ends, Told (e.Equips root configPath) files s.surroundings.2 s.surroundings.1 ends := by
  have hkeeps := Dispatch.RunState.run_keeps (w := (surroundings e pace root configPath).recorded)
    (P := IsTold (e.Equips root configPath) files) (u := (.ofFiles files, []))
      (fun u number hu hlog => ?_)
    (fun u number m hu hlog => ?_) (fun u numbers t hu hlog => ?_) (fun u number hu hlog => ?_)
    (fun u number hu hlog => ?_) (fun _ => ⟨[], told_ofFiles _ files⟩) o n queue
  · rw [hs] at hkeeps
    exact hkeeps hlog
  · obtain ⟨ends, htold⟩ := hu hlog.of_append
    exact (htold.spawn hlog).pass hpace hlog
  · obtain ⟨ends, htold⟩ := hu hlog.of_append
    exact (htold.send hlog).pass hpace hlog
  · obtain ⟨ends, htold⟩ := hu hlog
    exact htold.pass hpace hlog
  · obtain ⟨ends, htold⟩ := hu hlog.of_append
    exact ⟨ends, htold.receive number⟩
  · obtain ⟨ends, htold⟩ := hu hlog.of_append
    exact ⟨ends, htold.terminate number⟩

end

end Fleet

end Retype
