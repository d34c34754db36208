import Retype.Proofs.Batch.Turnover
/-!
# What comes of a file

Whatever a stage of a file leads to, given what was replied since some moment,
the file may come to that was read in files that there have been since
(`Moment.Underway`). `Traced` carries this through the steps: an annotation is
given to the parameter that it was inferred for, and a file that goes on has all
of them. Nothing else of the other files counts, and the files may meanwhile be
changed by others (`Traced.elsewhere`).
-/

namespace Retype.Batch

open Inference (Queue Entry)

/-- **How a file may be over** that was read in some files. -/
def Toolchain.MayComeTo (t : Toolchain) (R : Replies) (F : Files → Prop) (path : String)
    (e : Ending) : Prop :=
  ∃ files, F files ∧ t.ComesTo R files path e

theorem Toolchain.MayComeTo.mono {t : Toolchain} {R R' : Replies} {F F' : Files → Prop}
    {path : String} {e : Ending} (h : t.MayComeTo R F path e) (hR : R ≤ R')
    (hF : ∀ files, F files → F' files) : t.MayComeTo R' F' path e :=
  h.imp fun _ h => ⟨hF _ h.1, h.2.mono hR⟩

section
variable (t : Toolchain) (m start : Moment) (F : Files → Prop)

/-- What was replied since the start. -/
def Moment.replies : Replies := m.loop.talk.since start.loop.talk

/-- **A stage on the way of a file**: the file may come to whatever the stage
leads to, given what was replied and what is still to be. -/
def Moment.Underway (path : String) (job : Job) : Prop :=
  ∀ R, m.replies start ≤ R → ∀ e, Leads t R m.loop.files job e → t.MayComeTo R F path e

/-- **How far a parameter is** whose file waits: it is open, or it has the
annotation that was inferred for it, or the file is about to be told that it was
refused. -/
def Moment.Attended (i : Nat) (w : Walked) (j : Nat) (l : Result Location) : Prop :=
  ⟨i, j⟩ ∈ openCallers m.tasks m.loop.queue ∨
    (∃ type, Infers t (m.replies start) w.options l type ∧ w.annotations[j]? = some type) ∨
    ∃ e, .answered i (some e) ∈ m.tasks

end

/-- **Where everything comes from** since a start. Nothing is said of files that
were walked before: they do not wait, and what is left of them comes from then. -/
structure Traced (t : Toolchain) (start : Moment) (F : Files → Prop) (m : Moment) : Prop where
  continues : m.loop.talk.Continues start.loop.talk
  here : F m.loop.files
  directories : ∀ files, F files → files.directories = m.loop.files.directories
  stages : ∀ job ∈ m.tasks, ∀ path, job.StageOf path → m.Underway t start F path job
  length_le : start.loop.walked.length ≤ m.loop.walked.length
  recent : ∀ (i : Nat) (w : Walked), m.loop.walked[i]? = some w → w.waits = true →
    start.loop.walked.length ≤ i
  waiting : ∀ (i : Nat) (w : Walked), m.loop.walked[i]? = some w → w.waits = true →
    ∀ R, m.replies start ≤ R → ∀ job, w.GoesOn t R job →
      ∀ e, Leads t R m.loop.files job e → t.MayComeTo R F w.options.path e
  length : ∀ (i : Nat) (w : Walked), m.loop.walked[i]? = some w → w.waits = true →
    w.annotations.length = w.locations.length
  given : ∀ (i : Nat) (w : Walked), m.loop.walked[i]? = some w → w.waits = true →
    ∀ (j : Nat) (l : Result Location), w.locations[j]? = some l → m.Attended t start i w j l
  ended : ∀ e output, .callEnded e output ∈ m.tasks → start.loop.walked.length ≤ e.caller.file →
    (m.replies start).answer e.query output
  answers : ∀ c output, .answer c output ∈ m.tasks → start.loop.walked.length ≤ c.file →
    ∀ w location, m.loop.Stands c w (.ok location) →
      (m.replies start).answer ⟨w.options.path, location⟩ output
  texts : ∀ c text, .parseType c text ∈ m.tasks → start.loop.walked.length ≤ c.file →
    ∀ w location, m.loop.Stands c w (.ok location) →
      ∃ output, (m.replies start).answer ⟨w.options.path, location⟩ output ∧
        t.typeText output = some text
  refused : ∀ i e, .answered i (some e) ∈ m.tasks → ∀ w, m.loop.walked[i]? = some w →
    w.waits = true → ∃ l ∈ w.locations, ∃ r, Inferred t (m.replies start) w.options l r ∧
      r.result = .error e
  resumes : ∀ i failure, .resume i failure ∈ m.tasks → ∀ w, m.loop.walked[i]? = some w →
    m.Underway t start F w.options.path (w.conclusion failure) ∧
      (failure = none → ∀ c ∈ openCallers m.tasks m.loop.queue, c.file ≠ i)

/-! ## A file at two times -/

section
variable {t : Toolchain} {start m m' : Moment} {F F' : Files → Prop}

/-- **What a walked file was before a step**: the same file, which waited if it
waits now. -/
theorem Does.walkedBefore (h : Does t m m') {i : Nat} {w w' : Walked}
    (hw : m.loop.walked[i]? = some w) (hw' : m'.loop.walked[i]? = some w') :
    w'.SameFile w ∧ (w'.waits = true → w.waits = true) := by
  obtain ⟨w'', hw'', hsame, hwaits⟩ := h.walkedFile hw
  obtain rfl := Option.some.inj (hw''.symm.trans hw')
  refine ⟨hsame, fun hwaits' => ?_⟩
  by_contra hnot
  exact absurd ((hwaits (eq_false_of_ne_true hnot)).symm.trans hwaits') Bool.false_ne_true

theorem Does.stoodBefore (h : Does t m m') {c : Caller} {w w' : Walked} {l l' : Result Location}
    (hc : m.loop.Stands c w l) (hc' : m'.loop.Stands c w' l') :
    l = l' ∧ w'.SameFile w ∧ (w'.waits = true → w.waits = true) := by
  obtain ⟨hsame, hwaits⟩ := h.walkedBefore hc.1 hc'.1
  exact ⟨Option.some.inj (hc.2.symm.trans (hsame.locations ▸ hc'.2)), hsame, hwaits⟩

/-- **A walked file was walked before, or has just been walked.** -/
theorem Does.walked_inv (h : Does t m m') (hs : Sound m) {i : Nat} {w' : Walked}
    (hw' : m'.loop.walked[i]? = some w') :
    (∃ w, m.loop.walked[i]? = some w ∧ w'.SameFile w ∧ (w'.waits = true → w.waits = true)) ∨
      ∃ path source tree b, b = Beginning.ofTree (t.fileOptions path) (some source) tree ∧
        .walk path source tree ∈ m.tasks ∧ i = m.loop.walked.length ∧ w' = b.walked := by
  have hlt' := (List.getElem?_eq_some_iff.1 hw').1
  by_cases hlt : i < m.loop.walked.length
  · have hw := List.getElem?_eq_getElem hlt
    exact .inl ⟨_, hw, h.walkedBefore hw hw'⟩
  · cases h.opens hs with
    | nothing _ hlength => exact absurd (hlength ▸ hlt') hlt
    | closing _ _ _ _ _ hloop =>
      rw [hloop, Loop.conclude, List.length_set] at hlt'
      exact absurd hlt' hlt
    | @opening path source tree b hb hwalk _ _ hloop =>
      rw [hloop, Loop.beginFile, List.length_append, List.length_singleton] at hlt'
      obtain rfl : i = m.loop.walked.length := by omega
      rw [hloop, Loop.begun_beginFile] at hw'
      exact .inr ⟨path, source, tree, b, hb, hwalk, rfl, (Option.some.inj hw').symm⟩

theorem Does.length_le (h : Does t m m') (hs : Sound m) :
    m.loop.walked.length ≤ m'.loop.walked.length := by
  cases h.opens hs with
  | nothing _ hlength => exact Nat.le_of_eq hlength.symm
  | closing _ _ _ _ _ hloop => exact Nat.le_of_eq (hloop ▸ List.length_set.symm)
  | opening _ _ _ _ hloop =>
    rw [hloop, Loop.beginFile, List.length_append]
    exact Nat.le_add_right ..

/-- The question whose call is in flight is in the queue. -/
theorem Sound.mem_entries (hs : Sound m) {job : Job} (hjob : job ∈ m.tasks) {e : Entry Caller}
    (he : e ∈ job.entries) : e ∈ Loop.entries m.loop.queue := by
  refine Multiset.mem_coe.2 (List.mem_append_left _ (Multiset.mem_coe.1 ?_))
  rw [← hs.inFlight]
  exact Multiset.mem_bind.2 ⟨job, hjob, he⟩

/-- Where the question of a call that has ended is from. -/
theorem Sound.stands_of_callEnded (hs : Sound m) {e : Entry Caller} {output : Option String}
    (h : .callEnded e output ∈ m.tasks) : ∃ w location,
      m.loop.Stands e.caller w (.ok location) ∧ e.query = ⟨w.options.path, location⟩ :=
  hs.asked e (hs.mem_entries h (Multiset.mem_singleton_self e))

/-- A file that is about to be told of a refusal is told, or does not wait any more. -/
theorem Does.told_refusal (h : Does t m m') {i : Nat} {e : Refusal}
    (htold : .answered i (some e) ∈ m.tasks) : .answered i (some e) ∈ m'.tasks ∨
      ∀ w, m'.loop.walked[i]? = some w → w.waits = false := by
  have hcons : ∀ {job : Job} {tasks tasks' : Multiset Job},
      .answered i (some e) ∈ job ::ₘ tasks → job ≠ .answered i (some e) →
      tasks ≤ tasks' → .answered i (some e) ∈ tasks' := fun hmem hne hle =>
    Multiset.mem_of_le hle ((Multiset.mem_cons.1 hmem).resolve_left (Ne.symm hne))
  cases h with
  | opened | asked | counted => exact .inl (hcons htold (by simp) (Multiset.le_add_right ..))
  | heard =>
    exact .inl (hcons htold (by simp) ((Multiset.le_add_right ..).trans (Multiset.le_cons_self ..)))
  | walked =>
    exact .inl (hcons htold (by simp) ((Multiset.le_add_right ..).trans (Multiset.le_add_right ..)))
  | called | settled | closed | texted =>
    exact .inl (hcons htold (by simp) (Multiset.le_cons_self ..))
  | stopped | missed => exact .inl (hcons htold (by simp) le_rfl)
  | staged h => exact .inl (hcons htold (by cases h <;> simp) (Multiset.le_cons_self ..))
  | concluded _ hjob => exact .inl (hcons htold (by cases hjob <;> simp) (Multiset.le_cons_self ..))
  | ignored hnone =>
    rcases Multiset.mem_cons.1 htold with heq | hmem
    · obtain ⟨rfl, rfl⟩ := Job.answered.inj heq
      exact .inr hnone
    · exact .inl hmem
  | ended hw =>
    rcases Multiset.mem_cons.1 htold with heq | hmem
    · obtain ⟨rfl, rfl⟩ := Job.answered.inj heq
      refine .inr fun w' hw' => ?_
      rw [List.getElem?_set_self (List.getElem?_eq_some_iff.1 hw).1] at hw'
      exact Option.some.inj hw' ▸ rfl
    · exact .inl (Multiset.mem_cons_of_mem hmem)

/-- A file that does not wait and has no open parameter stays as it is. -/
theorem Does.walked_still (h : Does t m m') (hs : Sound m) {i : Nat} {w w' : Walked}
    (hw : m.loop.walked[i]? = some w)
    (hw' : m'.loop.walked[i]? = some w')
    (hclosed : ∀ c ∈ openCallers m.tasks m.loop.queue, c.file ≠ i) :
    w'.annotations = w.annotations := by
  cases h.opens hs with
  | nothing _ _ hannotations => exact hannotations i w w' hw hw'
  | @closing c _ _ _ _ _ _ hstands _ _ _ hopen hloop =>
    have hne : c.file ≠ i := hclosed c (hopen ▸ Multiset.mem_cons_self ..)
    rcases Loop.walked_conclude hstands hw (hloop ▸ hw') with ⟨heq, -⟩ | ⟨-, rfl⟩
    · exact absurd heq hne
    · rfl
  | opening _ _ _ _ hloop =>
    rw [hloop] at hw'
    rw [Loop.walked_beginFile hw hw']

/-! ## A file that goes on -/

/-- What a file does next depends on what was walked, and on its annotations. -/
theorem Walked.SameFile.onward {w w₀ : Walked} (h : w.SameFile w₀) (types : List (Option Json)) :
    { w with annotations := types }.onward = { w₀ with annotations := types }.onward := by
  obtain ⟨options, source, tree, hasJsx, locations, annotations, missing, waits⟩ := w
  obtain ⟨rfl, rfl, rfl, rfl, rfl⟩ := h
  rfl

theorem Walked.SameFile.goesOn {w w₀ : Walked} (h : w.SameFile w₀) {R : Replies} {job : Job}
    (hjob : w.GoesOn t R job) : w₀.GoesOn t R job := by
  cases hjob with
  | @refused l r e hl hr herror =>
    have hconclusion : w.conclusion (some e) = w₀.conclusion (some e) :=
      congrArg (fun o : Migration.FileOptions => Job.settle o.path _) h.options
    exact hconclusion ▸ .refused (h.locations ▸ hl) (h.options ▸ hr) herror
  | @finished types htypes =>
    exact h.onward types ▸ .finished (h.locations ▸ h.options ▸ htypes)

/-- What a file that waits does next is to be printed or settled. -/
theorem Walked.GoesOn.stage {w : Walked} {R : Replies} {job : Job} (h : w.GoesOn t R job)
    (hsource : w.source.isSome) : job.StageOf w.options.path ∧ job.depth < 4 := by
  cases h with
  | refused => exact ⟨w.conclusion_stage hsource _, by simp [Walked.conclusion, Job.depth]⟩
  | @finished types =>
    obtain ⟨source, hsome⟩ := Option.isSome_iff_exists.1 hsource
    refine ⟨Walked.onward_stage (w := { w with annotations := types }) hsource, ?_⟩
    unfold Walked.onward
    rw [hsome]
    simp [Job.depth]

/-- **What a parameter gets was inferred for it.** -/
theorem Traced.inferred (ht : Traced t start F m) {c : Caller} {w : Walked} {l : Result Location}
    {job : Job} {r : Recorded (Option Json)} {talk : Talk} {entries : List LogEntry}
    (hstands : m.loop.Stands c w l) (hrecent : start.loop.walked.length ≤ c.file)
    (hjob : job ∈ m.tasks) (h : Concludes t m.loop c w l job r talk entries) :
    Inferred t (talk.since start.loop.talk) w.options l r := by
  cases h with
  | misplaced e => exact .misplaced e
  | unusable location h =>
    exact .answered (ht.answers c _ hjob hrecent w location hstands) (.unusable h)
  | parsed location text =>
    obtain ⟨output, hanswer, htext⟩ := ht.texts c text hjob hrecent w location hstands
    exact .answered ((t.continues_request ..).since_le.2 _ _ hanswer)
      (.parsed htext (Toolchain.exchange_request ht.continues _))

/-- What is not on its way to a file cannot be open in it or tell it. -/
theorem not_toward {tasks : Multiset Job} {q : Queue Caller} {file : Nat}
    (h : (toward tasks q).count file = 0) :
    (∀ c ∈ openCallers tasks q, c.file ≠ file) ∧ ∀ failure, .answered file failure ∉ tasks := by
  have hnot := Multiset.count_eq_zero.1 h
  refine ⟨fun c hc heq => hnot ?_, fun failure htold => hnot ?_⟩
  · exact Multiset.mem_add.2 (.inl (Multiset.mem_map.2 ⟨c, hc, heq⟩))
  · exact Multiset.mem_add.2
      (.inr (Multiset.mem_bind.2 ⟨_, htold, Multiset.mem_singleton_self file⟩))

/-- With the last answer to a file no parameter of it is open. -/
theorem Sound.last_answer {tasks : Multiset Job} {file : Nat} {w : Walked} (hs : Sound m)
    (htasks : m.tasks = .answered file none ::ₘ tasks) (hw : m.loop.walked[file]? = some w)
    (hwaits : w.waits = true) (hmissing : w.missing ≤ 1) :
    (∀ c ∈ openCallers tasks m.loop.queue, c.file ≠ file) ∧
      ∀ failure, .answered file failure ∉ tasks := by
  obtain ⟨-, hcount⟩ := hs.missing file w hw hwaits
  have htoward : toward (.answered file none ::ₘ tasks) m.loop.queue
      = file ::ₘ toward tasks m.loop.queue := by
    simp [toward, openCallers, Job.callers, Job.told]
  rw [htasks, htoward, Multiset.count_cons_self] at hcount
  exact not_toward (by omega)

/-- **A file whose waiting ends goes on as its parameters say.** -/
theorem Traced.goesOn {tasks : Multiset Job} {file : Nat} {failure : Option Refusal} {w : Walked}
    (ht : Traced t start F m) (hs : Sound m) (htasks : m.tasks = .answered file failure ::ₘ tasks)
    (hw : m.loop.walked[file]? = some w) (hwaits : w.waits = true)
    (hend : failure.isSome ∨ w.missing ≤ 1) :
    w.GoesOn t (m.replies start) (w.conclusion failure) ∧
      (failure = none → ∀ c ∈ openCallers tasks m.loop.queue, c.file ≠ file) := by
  have hmem : .answered file failure ∈ m.tasks := htasks ▸ Multiset.mem_cons_self ..
  cases failure with
  | some e =>
    obtain ⟨l, hl, r, hr, herror⟩ := ht.refused file e hmem w hw hwaits
    exact ⟨.refused hl hr herror, fun h => by cases h⟩
  | none =>
    obtain ⟨hclosed, hquiet⟩ :=
      hs.last_answer htasks hw hwaits (hend.resolve_left Bool.false_ne_true)
    refine ⟨?_, fun _ => hclosed⟩
    -- so every parameter has its annotation
    have hgiven : ∀ (j : Nat) (l : Result Location), w.locations[j]? = some l → ∃ type,
        Infers t (m.replies start) w.options l type ∧ w.annotations[j]? = some type := by
      intro j l hl
      rcases ht.given file w hw hwaits j l hl with hopen | hok | ⟨e, he⟩
      · have hopen : ⟨file, j⟩ ∈ openCallers tasks m.loop.queue := by
          rwa [htasks, openCallers_cons rfl] at hopen
        exact absurd rfl (hclosed _ hopen)
      · exact hok
      · exact absurd ((Multiset.mem_cons.1 (htasks ▸ he)).resolve_left (by simp)) (hquiet _)
    have htypes : List.Forall₂ (Infers t (m.replies start) w.options)
        w.locations w.annotations := by
      refine List.forall₂_iff_get.2 ⟨(ht.length file w hw hwaits).symm, fun j hj hj' => ?_⟩
      obtain ⟨type, hinfers, htype⟩ := hgiven j _ (List.getElem?_eq_getElem hj)
      rw [List.getElem?_eq_getElem hj'] at htype
      rw [List.get_eq_getElem, List.get_eq_getElem, Option.some.inj htype]
      exact hinfers
    exact .finished htypes

/-! ## Each step keeps the traces -/

section
variable (h : Does t m m') (hs : Sound m) (ht : Traced t start F m)
include h

theorem Does.replies_le : m.replies start ≤ m'.replies start := h.continues.since_le

include hs ht

/-- A walked file has as many annotations as parameters. -/
theorem Does.annotations_length {i : Nat} {w' : Walked} (hw' : m'.loop.walked[i]? = some w')
    (hwaits' : w'.waits = true) : w'.annotations.length = w'.locations.length := by
  rcases h.walked_inv hs hw' with ⟨w, hw, hsame, hwaits⟩ | ⟨path, source, tree, b, hb, -, -, rfl⟩
  · rw [hsame.locations, ← ht.length i w hw (hwaits hwaits')]
    cases h.opens hs with
    | nothing _ _ hannotations => rw [hannotations i w w' hw hw']
    | closing hstands _ _ _ _ hloop =>
      rcases Loop.walked_conclude hstands hw (hloop ▸ hw') with ⟨-, rfl, rfl⟩ | ⟨-, rfl⟩
      · exact Walked.length_given ..
      · rfl
    | opening _ _ _ _ hloop =>
      rw [hloop] at hw'
      rw [Loop.walked_beginFile hw hw']
  · rw [(hb ▸ Beginning.begins .. : Begins _ _ b).annotations_eq, List.length_map]

omit hs in
/-- A parameter whose annotation stays is attended to if it was, and is open if it was. -/
theorem Does.attended_still {i j : Nat} {w w' : Walked} {l : Result Location}
    (hw' : m'.loop.walked[i]? = some w') (hwaits' : w'.waits = true)
    (hl : w'.locations[j]? = some l) (hw : m.loop.walked[i]? = some w) (hsame : w'.SameFile w)
    (hwaits : w.waits = true) (hannotations : w'.annotations[j]? = w.annotations[j]?)
    (hopen : ⟨i, j⟩ ∈ openCallers m.tasks m.loop.queue →
      ⟨i, j⟩ ∈ openCallers m'.tasks m'.loop.queue) : m'.Attended t start i w' j l := by
  rcases ht.given i w hw hwaits j l (hsame.locations ▸ hl) with hparam |
    ⟨type, hinfers, htype⟩ | ⟨e, he⟩
  · exact .inl (hopen hparam)
  · exact .inr (.inl ⟨type, hsame.options ▸ hinfers.mono h.replies_le, hannotations.trans htype⟩)
  · rcases h.told_refusal he with he | hnone
    · exact .inr (.inr ⟨e, he⟩)
    · exact absurd ((hnone w' hw').symm.trans hwaits') Bool.false_ne_true

/-- Each step attends to the parameters. -/
theorem Does.attended {i j : Nat} {w' : Walked} {l : Result Location}
    (hw' : m'.loop.walked[i]? = some w') (hwaits' : w'.waits = true)
    (hl : w'.locations[j]? = some l) : m'.Attended t start i w' j l := by
  rcases h.walked_inv hs hw' with ⟨w, hw, hsame, hwaits⟩ | ⟨path, source, tree, b, -, -, rfl, rfl⟩
  · replace hwaits := hwaits hwaits'
    have hkept := h.attended_still ht hw' hwaits' hl hw hsame hwaits
    cases h.opens hs with
    | nothing hopen _ hannotations =>
      exact hkept (by rw [hannotations i w w' hw hw']) fun hc => hopen ▸ hc
    | @closing c w₀ l₀ job r talk entries hstands hconcludes hjob htold hopen hloop =>
      have hwalked := Loop.walked_conclude hstands hw (hloop ▸ hw')
      by_cases hc : c = ⟨i, j⟩
      · -- the parameter that gets its annotation, or is refused
        subst hc
        obtain ⟨-, rfl, rfl⟩ := hwalked.resolve_right fun hne => hne.1 rfl
        obtain rfl : l₀ = l := Option.some.inj (hstands.2.symm.trans (hsame.locations ▸ hl))
        have hinferred := ht.inferred hstands (ht.recent _ _ hw hwaits) hjob hconcludes
        have htalk : m'.loop.talk = talk := congrArg Loop.talk hloop
        rw [← htalk] at hinferred
        cases hresult : r.result with
        | error e => exact .inr (.inr ⟨e, Recorded.refusal?_of_result hresult ▸ htold⟩)
        | ok type =>
          refine .inr (.inl ⟨type, ⟨r, hinferred, hresult⟩, List.getElem?_set_self ?_⟩)
          rw [ht.length i w hw hwaits]
          exact (List.getElem?_eq_some_iff.1 hstands.2).1
      · have hstill (hmem : ⟨i, j⟩ ∈ openCallers m.tasks m.loop.queue) :
            ⟨i, j⟩ ∈ openCallers m'.tasks m'.loop.queue :=
          (Multiset.mem_cons.1 (hopen ▸ hmem)).resolve_left (Ne.symm hc)
        refine hkept ?_ hstill
        rcases hwalked with ⟨heq, rfl, rfl⟩ | ⟨-, rfl⟩
        · exact Walked.given_of_ne _ _ fun hparam => hc (by rw [← heq, ← hparam])
        · rfl
    | opening _ _ _ hopen hloop =>
      refine hkept ?_ fun hc => hopen ▸ Multiset.mem_add.2 (.inl hc)
      rw [hloop] at hw'
      rw [Loop.walked_beginFile hw hw']
  · -- all parameters of a file that begins are to put their questions
    cases h.opens hs with
    | nothing _ hlength =>
      exact absurd (hlength ▸ (List.getElem?_eq_some_iff.1 hw').1) (Nat.lt_irrefl _)
    | closing _ _ _ _ _ hloop =>
      have hlt := (List.getElem?_eq_some_iff.1 hw').1
      rw [hloop, Loop.conclude, List.length_set] at hlt
      exact absurd hlt (Nat.lt_irrefl _)
    | opening _ _ _ hopen hloop =>
      rw [hloop, Loop.begun_beginFile] at hw'
      refine .inl (hopen ▸ Multiset.mem_add.2 (.inr (List.mem_map.2 ⟨j, ?_, rfl⟩)))
      exact List.mem_range.2 (Option.some.inj hw' ▸ (List.getElem?_eq_some_iff.1 hl).1)

variable (hF : ∀ files, F files → F' files)
  (hdirectories : ∀ files, F' files → files.directories = m'.loop.files.directories)
include hF hdirectories

omit hs in
/-- What was on the way of a file stays so. -/
theorem Does.underway {path : String} {job : Job} (hjob : m.Underway t start F path job) :
    m'.Underway t start F' path job := fun R hR e he =>
  (hjob R (Replies.le_trans h.replies_le hR) e
    (he.congr (hdirectories _ (hF _ ht.here)).symm)).mono (Replies.le_refl R) hF

theorem Does.resumes_underway {file : Nat} {failure : Option Refusal} {w' : Walked}
    (hjob : .resume file failure ∈ m'.tasks) (hw' : m'.loop.walked[file]? = some w') :
    m'.Underway t start F' w'.options.path (w'.conclusion failure) ∧
      (failure = none → ∀ c ∈ openCallers m'.tasks m'.loop.queue, c.file ≠ file) := by
  have hconclusion : ∀ {w : Walked}, w'.SameFile w →
      (failure = none → w'.annotations = w.annotations) →
      w'.conclusion failure = w.conclusion failure := by
    intro w hsame hannotations
    cases failure with
    | some e => exact congrArg (fun o : Migration.FileOptions => Job.settle o.path _) hsame.options
    | none =>
      have honward : w'.onward = { w with annotations := w'.annotations }.onward :=
        hsame.onward w'.annotations
      rwa [hannotations rfl] at honward
  rcases h.mem_tasks hs hjob with hjob | hnew
  · obtain ⟨w, hw, -⟩ := hs.resumed file failure hjob
    obtain ⟨hunderway, hclosed⟩ := ht.resumes file failure hjob w hw
    obtain ⟨hsame, -⟩ := h.walkedBefore hw hw'
    refine ⟨?_, fun hnone c hc => ?_⟩
    · rw [hsame.options, hconclusion hsame fun hnone => h.walked_still hs hw hw' (hclosed hnone)]
      exact h.underway ht hF hdirectories hunderway
    · cases h.opens hs with
      | nothing hopen => exact hclosed hnone c (hopen ▸ hc)
      | closing _ _ _ _ hopen => exact hclosed hnone c (hopen ▸ Multiset.mem_cons_of_mem hc)
      | opening _ _ _ hopen =>
        rcases Multiset.mem_add.1 (hopen ▸ hc) with hc | hc
        · exact hclosed hnone c hc
        · obtain ⟨j, -, rfl⟩ := List.mem_map.1 (Multiset.mem_coe.1 hc)
          exact (Nat.ne_of_lt (List.getElem?_eq_some_iff.1 hw).1).symm
  · generalize hresume : Job.resume file failure = job at hnew
    cases hnew with
    | @resume _ _ w tasks hold hnew hw hwaits hend hloop =>
      obtain ⟨rfl, rfl⟩ := Job.resume.inj hresume
      obtain ⟨hgoes, hclosed⟩ := ht.goesOn hs hold hw hwaits hend
      obtain ⟨hsame, -⟩ := h.walkedBefore hw hw'
      have hannotations : w'.annotations = w.annotations := by
        rw [hloop, List.getElem?_set_self (List.getElem?_eq_some_iff.1 hw).1] at hw'
        rw [← Option.some.inj hw']
      refine ⟨fun R hR e he => ?_, fun hnone c hc => ?_⟩
      · rw [hconclusion hsame fun _ => hannotations] at he
        have hle := Replies.le_trans h.replies_le hR
        rw [hsame.options]
        exact (ht.waiting file w hw hwaits R hle _ (hgoes.mono hle) e
          (he.congr (hdirectories _ (hF _ ht.here)).symm)).mono (Replies.le_refl R) hF
      · refine hclosed hnone c ?_
        rwa [hnew, hloop, openCallers_cons rfl] at hc
    | follow hstage | next hstage =>
      subst hresume
      cases hstage
    | start | put | call | callEnded | answer | parseType | answered |
      fileOver | batchOver | stop =>
      cases hresume

/-- **Each stage that a step brings is on the way of its file.** -/
theorem Does.stages_underway {path : String} {job : Job} (hjob : job ∈ m'.tasks)
    (hstage : job.StageOf path) : m'.Underway t start F' path job := by
  have hkept {job : Job} (hmem : job ∈ m.tasks) (hstage : job.StageOf path) :
      m'.Underway t start F' path job :=
    h.underway ht hF hdirectories (ht.stages job hmem path hstage)
  rcases h.mem_tasks hs hjob with hjob | hnew
  · exact hkept hjob hstage
  · cases hnew with
    | @follow path' done next talk hstage' hfollows hpath hdone htalk =>
      obtain rfl : path' = path := Option.some.inj ((hstage'.path? []).symm.trans (hstage.path? []))
      cases hfollows with
      | read other =>
        obtain rfl := Option.some.inj hpath
        exact fun R _ e he =>
          ⟨m.loop.files, hF _ ht.here, he.congr (hdirectories _ (hF _ ht.here)).symm⟩
      | parsed other source =>
        obtain rfl := Option.some.inj hpath
        refine fun R hR e he => hkept hdone (.parse source) R hR e (.parsed (hR.1 _ _ ?_) he)
        rw [Moment.replies, htalk]
        exact Toolchain.exchange_request ht.continues _
      | printed other source tree hasJsx =>
        obtain rfl := Option.some.inj hpath
        refine fun R hR e he =>
          hkept hdone (.print source tree hasJsx) R hR e (.printed (hR.1 _ _ ?_) he)
        rw [Moment.replies, htalk]
        exact Toolchain.exchange_request ht.continues _
      | @unwritten other mf cause hwrite =>
        obtain rfl := Option.some.inj hpath
        intro R hR e he
        cases he
        exact hkept hdone (.settle fun _ => nofun) R hR _
          (.unwritten _ (hdirectories _ (hF _ ht.here)) hwrite)
      | @resumed file w hw failure =>
        rw [Job.path?, hw, Option.map_some] at hpath
        obtain rfl := Option.some.inj hpath
        exact h.underway ht hF hdirectories (ht.resumes file failure hdone w hw).1
    | @next other source tree b job hstage' hb hwalk hnext =>
      obtain rfl : other = path := Option.some.inj ((hstage'.path? []).symm.trans (hstage.path? []))
      exact fun R hR e he =>
        hkept hwalk (.walk source tree) R hR e (.walked (hb ▸ .atOnce hnext) he)
    | start | put | call | callEnded | answer | parseType | answered | resume | fileOver | batchOver
      | stop => cases hstage

/-- **A file that waits may go on.** -/
theorem Does.waiting_underway {i : Nat} {w' : Walked} (hw' : m'.loop.walked[i]? = some w')
    (hwaits' : w'.waits = true) {R : Replies} (hR : m'.replies start ≤ R) {job : Job}
    (hjob : w'.GoesOn t R job) {e : Ending} (he : Leads t R m'.loop.files job e) :
    t.MayComeTo R F' w'.options.path e := by
  rcases h.walked_inv hs hw' with ⟨w, hw, hsame, hwaits⟩ |
    ⟨path, source, tree, b, hb, hwalk, -, rfl⟩
  · rw [hsame.options]
    exact (ht.waiting i w hw (hwaits hwaits') R (Replies.le_trans h.replies_le hR) job
      (hsame.goesOn hjob) e (he.congr (hdirectories _ (hF _ ht.here)).symm)).mono
        (Replies.le_refl R) hF
  · have hbegins : Begins (t.fileOptions path) (some source) b := hb ▸ Beginning.begins ..
    have hnone : b.next = none := Option.isNone_iff_eq_none.1 (hbegins.waits_eq ▸ hwaits')
    rw [hbegins.options_eq]
    exact h.underway ht hF hdirectories (ht.stages _ hwalk path (.walk source tree)) R hR e
      (.walked (hb ▸ .later hnone hjob) he)

omit hF hdirectories

/-- What a call that has ended has answered. -/
theorem Does.ended_traced {e : Entry Caller} {output : Option String}
    (hjob : .callEnded e output ∈ m'.tasks) (hrecent : start.loop.walked.length ≤ e.caller.file) :
    (m'.replies start).answer e.query output := by
  rcases h.mem_tasks hs hjob with hjob | hnew
  · exact h.replies_le.2 _ _ (ht.ended e output hjob hrecent)
  · generalize hended : Job.callEnded e output = job at hnew
    cases hnew with
    | callEnded e' hcall htalk =>
      obtain ⟨rfl, rfl⟩ := Job.callEnded.inj hended
      rw [Moment.replies, htalk]
      exact Toolchain.answer_ask ht.continues _
    | follow hstage | next hstage =>
      subst hended
      cases hstage
    | start | put | call | answer | parseType | answered | resume | fileOver | batchOver | stop =>
      cases hended

/-- What has reached a parameter was answered to its question. -/
theorem Does.answers_traced {c : Caller} {output : Option String}
    (hjob : .answer c output ∈ m'.tasks) (hrecent : start.loop.walked.length ≤ c.file)
    {w' : Walked} {location : Location} (hstands' : m'.loop.Stands c w' (.ok location)) :
    (m'.replies start).answer ⟨w'.options.path, location⟩ output := by
  rcases h.mem_tasks hs hjob with hjob | hnew
  · obtain ⟨w, location', hstands⟩ := hs.answers _ hjob c rfl
    obtain ⟨hlocation, hsame, -⟩ := h.stoodBefore hstands hstands'
    obtain rfl := Except.ok.inj hlocation
    rw [hsame.options]
    exact h.replies_le.2 _ _ (ht.answers c output hjob hrecent w location' hstands)
  · generalize hanswer : Job.answer c output = job at hnew
    cases hnew with
    | @answer e output' hended hactive =>
      obtain ⟨rfl, rfl⟩ := Job.answer.inj hanswer
      obtain ⟨w, location', hstands, hquery⟩ := hs.stands_of_callEnded hended
      obtain ⟨hlocation, hsame, -⟩ := h.stoodBefore hstands hstands'
      obtain rfl := Except.ok.inj hlocation
      have hreplied := ht.ended e output hended hrecent
      rw [hquery] at hreplied
      rw [hsame.options]
      exact h.replies_le.2 _ _ hreplied
    | follow hstage | next hstage =>
      subst hanswer
      cases hstage
    | start | put | call | callEnded | parseType | answered | resume |
      fileOver | batchOver | stop =>
      cases hanswer

/-- The text that is parsed for a parameter is that of an answer to its question. -/
theorem Does.texts_traced {c : Caller} {text : String} (hjob : .parseType c text ∈ m'.tasks)
    (hrecent : start.loop.walked.length ≤ c.file) {w' : Walked} {location : Location}
    (hstands' : m'.loop.Stands c w' (.ok location)) : ∃ output,
      (m'.replies start).answer ⟨w'.options.path, location⟩ output ∧
        t.typeText output = some text := by
  rcases h.mem_tasks hs hjob with hjob | hnew
  · obtain ⟨w, location', hstands⟩ := hs.answers _ hjob c rfl
    obtain ⟨hlocation, hsame, -⟩ := h.stoodBefore hstands hstands'
    obtain rfl := Except.ok.inj hlocation
    obtain ⟨output, hreplied, htext⟩ := ht.texts c text hjob hrecent w location' hstands
    exact ⟨output, hsame.options ▸ h.replies_le.2 _ _ hreplied, htext⟩
  · generalize hparse : Job.parseType c text = job at hnew
    cases hnew with
    | @parseType c' output text' hanswer htext =>
      obtain ⟨rfl, rfl⟩ := Job.parseType.inj hparse
      obtain ⟨w, location', hstands⟩ := hs.answers _ hanswer c rfl
      obtain ⟨hlocation, hsame, -⟩ := h.stoodBefore hstands hstands'
      obtain rfl := Except.ok.inj hlocation
      exact ⟨output, hsame.options ▸ h.replies_le.2 _ _
        (ht.answers c output hanswer hrecent w location' hstands), htext⟩
    | follow hstage | next hstage =>
      subst hparse
      cases hstage
    | start | put | call | callEnded | answer | answered | resume | fileOver | batchOver | stop =>
      cases hparse

/-- A file is told of the refusal of one of its parameters. -/
theorem Does.refused_traced {i : Nat} {e : Refusal} (hjob : .answered i (some e) ∈ m'.tasks)
    {w' : Walked} (hw' : m'.loop.walked[i]? = some w') (hwaits' : w'.waits = true) :
    ∃ l ∈ w'.locations, ∃ r, Inferred t (m'.replies start) w'.options l r ∧
      r.result = .error e := by
  rcases h.mem_tasks hs hjob with hjob | hnew
  · obtain ⟨w, hw⟩ := hs.told i _ hjob
    obtain ⟨hsame, hwaits⟩ := h.walkedBefore hw hw'
    obtain ⟨l, hl, r, hr, herror⟩ := ht.refused i e hjob w hw (hwaits hwaits')
    exact ⟨l, hsame.locations ▸ hl, r, hsame.options ▸ hr.mono h.replies_le, herror⟩
  · generalize htold : Job.answered i (some e) = job at hnew
    cases hnew with
    | @answered c w l done r talk entries hstands hconcludes hdone htalk =>
      obtain ⟨rfl, hrefusal⟩ := Job.answered.inj htold
      obtain ⟨hsame, hwaits⟩ := h.walkedBefore hstands.1 hw'
      have hinferred :=
        ht.inferred hstands (ht.recent _ _ hstands.1 (hwaits hwaits')) hdone hconcludes
      rw [← htalk] at hinferred
      exact ⟨l, hsame.locations ▸ List.mem_of_getElem? hstands.2, r, hsame.options ▸ hinferred,
        Recorded.result_of_refusal? hrefusal.symm⟩
    | follow hstage | next hstage =>
      subst htold
      cases hstage
    | start | put | call | callEnded | answer | parseType | resume | fileOver | batchOver | stop =>
      cases htold

/-- **Each step keeps the traces**, if it leads to files that are counted. -/
theorem Does.traced (hF : ∀ files, F files → F' files) (hhere : F' m'.loop.files)
    (hdirectories : ∀ files, F' files → files.directories = m'.loop.files.directories) :
    Traced t start F' m' where
  continues := h.continues.trans ht.continues
  here := hhere
  directories := hdirectories
  stages _ hjob _ hstage := h.stages_underway hs ht hF hdirectories hjob hstage
  length_le := Nat.le_trans ht.length_le (h.length_le hs)
  recent i w hw hwaits := by
    rcases h.walked_inv hs hw with ⟨w₀, hw₀, -, hwaits₀⟩ | ⟨-, -, -, -, -, -, rfl, -⟩
    · exact ht.recent i w₀ hw₀ (hwaits₀ hwaits)
    · exact ht.length_le
  waiting _ _ hw hwaits _ hR _ hjob _ he :=
    h.waiting_underway hs ht hF hdirectories hw hwaits hR hjob he
  length _ _ hw hwaits := h.annotations_length hs ht hw hwaits
  given _ _ hw hwaits _ _ hl := h.attended hs ht hw hwaits hl
  ended _ _ hjob hrecent := h.ended_traced hs ht hjob hrecent
  answers _ _ hjob hrecent _ _ hstands := h.answers_traced hs ht hjob hrecent hstands
  texts _ _ hjob hrecent _ _ hstands := h.texts_traced hs ht hjob hrecent hstands
  refused _ _ hjob _ hw hwaits := h.refused_traced hs ht hjob hw hwaits
  resumes _ _ hjob _ hw := h.resumes_underway hs ht hF hdirectories hjob hw

end

/-- What a file is over as that is settled, it may come to. -/
theorem Traced.settled (ht : Traced t start F m) {path : String} {r : Except Failure Done}
    (hjob : .settle path r ∈ m.tasks) {e : Ending} {files : Files}
    (h : Settles m.loop.files r e files) :
    t.MayComeTo (m.replies start) F path e := by
  refine ht.stages _ hjob path (.settle ?_) _ (Replies.le_refl _) e ?_
  · rintro tree rfl
    cases h
  · cases h with
    | written h => exact .written path rfl h
    | skipped => exact .skipped path
    | failed cause => exact .failed path cause

/-- **Others may change the files meanwhile.** -/
theorem Traced.elsewhere {files : Files} (ht : Traced t start F m)
    (hF : ∀ files, F files → F' files)
    (hhere : F' files)
    (hdirectories : ∀ files', F' files' → files'.directories = files.directories) :
    Traced t start F' ⟨m.tasks, { m.loop with files := files }⟩ := by
  have hsame : files.directories = m.loop.files.directories := (hdirectories _ (hF _ ht.here)).symm
  have hway : ∀ {path job}, m.Underway t start F path job →
      Moment.Underway t ⟨m.tasks, { m.loop with files := files }⟩ start F' path job :=
    fun hjob R hR e he => (hjob R hR e (he.congr hsame)).mono (Replies.le_refl R) hF
  exact {
    continues := ht.continues
    here := hhere
    directories := hdirectories
    stages := fun job hjob path hstage => hway (ht.stages job hjob path hstage)
    length_le := ht.length_le
    recent := ht.recent
    waiting := fun i w hw hwaits R hR job hjob e he =>
      (ht.waiting i w hw hwaits R hR job hjob e (he.congr hsame)).mono (Replies.le_refl R) hF
    length := ht.length
    given := ht.given
    ended := ht.ended
    answers := ht.answers
    texts := ht.texts
    refused := ht.refused
    resumes := fun i failure hjob w hw => (ht.resumes i failure hjob w hw).imp_left hway }

/-- A batch that begins changes nothing about the files before. -/
theorem Traced.opening (ht : Traced t start F m) (paths : List String) :
    Traced t start F (m.opening paths) := by
  have hopen := openCallers_opening m paths
  have hmem : ∀ {job : Job}, job ∈ (m.opening paths).tasks → job ≠ .openBatch paths →
      job ∈ m.tasks := fun h hne => (Multiset.mem_cons.1 h).resolve_left hne
  exact {
    continues := ht.continues
    here := ht.here
    directories := ht.directories
    stages := fun job hjob path hstage =>
      ht.stages job (hmem hjob (by rintro rfl; cases hstage)) path hstage
    length_le := ht.length_le
    recent := ht.recent
    waiting := ht.waiting
    length := ht.length
    given := fun i w hw hwaits j l hl => by
      rcases ht.given i w hw hwaits j l hl with hparam | htype | ⟨e, he⟩
      · exact .inl (hopen ▸ hparam)
      · exact .inr (.inl htype)
      · exact .inr (.inr ⟨e, Multiset.mem_cons_of_mem he⟩)
    ended := fun e output hjob => ht.ended e output (hmem hjob (by simp))
    answers := fun c output hjob => ht.answers c output (hmem hjob (by simp))
    texts := fun c text hjob => ht.texts c text (hmem hjob (by simp))
    refused := fun i e hjob => ht.refused i e (hmem hjob (by simp))
    resumes := fun i failure hjob w hw =>
      (ht.resumes i failure (hmem hjob (by simp)) w hw).imp_right fun hclosed hnone =>
        hopen ▸ hclosed hnone }

/-- **The traces may begin at rest**: nothing that is left then is traced. -/
theorem Moment.Rests.traced (h : m.Rests) : Traced t m (· = m.loop.files) m := by
  have hnot : ∀ {path}, path ∈ m.underWay → False := fun hpath =>
    Multiset.notMem_zero _ (h.underWay ▸ hpath)
  have hwaiting : ∀ {i : Nat} {w : Walked}, m.loop.walked[i]? = some w → w.waits = true → False :=
    fun hw hwaits => hnot (Moment.mem_underWay_of_waits hw hwaits)
  have hbefore : ∀ {c : Caller} {w : Walked} {l : Result Location}, m.loop.Stands c w l →
      m.loop.walked.length ≤ c.file → False := fun hstands hle =>
    absurd (List.getElem?_eq_some_iff.1 hstands.1).1 (Nat.not_lt.2 hle)
  exact {
    continues := .refl _
    here := rfl
    directories := fun _ hfiles => by rw [hfiles]
    stages := fun job hjob path hstage => (hnot (Moment.mem_underWay_of_stage hjob hstage)).elim
    length_le := Nat.le_refl _
    recent := fun _ _ hw hwaits => (hwaiting hw hwaits).elim
    waiting := fun _ _ hw hwaits => (hwaiting hw hwaits).elim
    length := fun _ _ hw hwaits => (hwaiting hw hwaits).elim
    given := fun _ _ hw hwaits => (hwaiting hw hwaits).elim
    ended := fun _ _ hjob hrecent => by
      obtain ⟨w, location, hstands, -⟩ := h.sound.stands_of_callEnded hjob
      exact (hbefore hstands hrecent).elim
    answers := fun _ _ _ hrecent _ _ hstands => (hbefore hstands hrecent).elim
    texts := fun _ _ _ hrecent _ _ hstands => (hbefore hstands hrecent).elim
    refused := fun _ _ _ _ hw hwaits => (hwaiting hw hwaits).elim
    resumes := fun _ _ hjob _ hw => (hnot (Moment.mem_underWay_of_resume hjob hw)).elim }

end

end Retype.Batch
