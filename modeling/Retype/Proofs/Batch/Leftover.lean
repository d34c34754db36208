import Retype.Proofs.Batch.Served
/-!
# What a file leaves behind

A parameter is open only as long as its file waits, unless the rewriting of the
file was refused: then its questions stay in the queue, and are asked and
answered after the file has failed (`Attached`, `refused_file_asks`). A file that
is over and has no open parameter is done, in this batch and in all later ones:
nothing is asked, logged or found for it any more (`over_is_done`).
-/

namespace Retype

/-- Whether a finding is about a file. One without a place is about none. -/
def Finding.isAbout (path : String) : Finding → Bool
  | .file _ path' => path' = path
  | .place _ location => location.path = path
  | _ => false

theorem Finding.IsIn.not_isAbout {path other : String} {f : Finding} (h : f.IsIn other)
    (hne : other ≠ path) : f.isAbout path = false := by
  cases f with
  | file => cases h
  | place category location => exact decide_eq_false fun heq => hne (h.symm.trans heq)
  | anyAlias | utilityType => rfl

theorem filter_isAbout_eq_nil {path other : String} {findings : List Finding}
    (h : ∀ f ∈ findings, f.IsIn other) (hne : other ≠ path) :
    findings.filter (·.isAbout path) = [] :=
  List.filter_eq_nil_iff.2 fun f hf => by simp [(h f hf).not_isAbout hne]

namespace Batch

/-- Whether a line of the log is about a file. -/
def LogEntry.isAbout (path : String) : LogEntry → Bool
  | .asked q => q.path = path
  | .failed path' _ => path' = path
  | .parsed _ => false

/-- Whether a parameter of a file is open. -/
def Moment.IsOpen (m : Moment) (path : String) : Prop :=
  ∃ c ∈ openCallers m.tasks m.loop.queue, ∃ w : Walked,
    m.loop.walked[c.file]? = some w ∧ w.options.path = path

/-- A file whose rewriting was refused: it has failed, or is about to fail. -/
inductive Moment.Refuses (m : Moment) (path : String) : Prop
  | past {e : Refusal} (h : (path, .failed (.refused e)) ∈ m.loop.past)
  | settling {e : Refusal} (h : .settle path (.error (.refused e)) ∈ m.tasks)
  | resuming {file : Nat} {e : Refusal} {w : Walked} (h : .resume file (some e) ∈ m.tasks)
      (hw : m.loop.walked[file]? = some w) (hpath : w.options.path = path)

/-- **An open parameter belongs to a file that waits, or that was refused.** -/
def Attached (m : Moment) : Prop :=
  ∀ c ∈ openCallers m.tasks m.loop.queue, ∃ w : Walked, m.loop.walked[c.file]? = some w ∧
    (w.waits = true ∨ m.Refuses w.options.path)

section
variable {t : Toolchain} {files : Files} {batches more : List (List String)} {m m' : Moment}
  {path : String}

/-- **What a step does with the end of a file**: all other jobs stay, a file that
goes on is at its next stage, and one that has failed is over. -/
theorem Does.done (h : Does t m m') : ∃ job tasks, m.tasks = job ::ₘ tasks ∧ tasks ≤ m'.tasks ∧
    (∀ file failure, job = .resume file failure → ∃ w : Walked,
      m.loop.walked[file]? = some w ∧ w.conclusion failure ∈ m'.tasks) ∧
    ∀ path cause, job = .settle path (.error cause) → (path, .failed cause) ∈ m'.loop.past := by
  cases h with
  | opened | asked | counted => exact ⟨_, _, rfl, Multiset.le_add_right .., by simp, by simp⟩
  | heard =>
    exact ⟨_, _, rfl, (Multiset.le_add_right ..).trans (Multiset.le_cons_self ..), by simp, by simp⟩
  | walked =>
    exact ⟨_, _, rfl, (Multiset.le_add_right ..).trans (Multiset.le_add_right ..), by simp, by simp⟩
  | called | ended | closed | texted =>
    exact ⟨_, _, rfl, Multiset.le_cons_self .., by simp, by simp⟩
  | concluded _ hjob =>
    exact ⟨_, _, rfl, Multiset.le_cons_self .., by cases hjob <;> simp, by cases hjob <;> simp⟩
  | ignored | missed | stopped => exact ⟨_, _, rfl, le_rfl, by simp, by simp⟩
  | staged h =>
    refine ⟨_, _, rfl, Multiset.le_cons_self .., ?_, by cases h <;> simp⟩
    rintro file failure rfl
    cases h with
    | resumed hw => exact ⟨_, hw, Multiset.mem_cons_self ..⟩
  | settled h =>
    refine ⟨_, _, rfl, Multiset.le_cons_self .., by simp, ?_⟩
    rintro _ _ ⟨⟩
    cases h with
    | failed => exact List.mem_append_right _ (List.mem_singleton_self _)

/-- What is over stays over. -/
theorem Does.over_subset (h : Does t m m') : m.loop.past ⊆ m'.loop.past := by
  obtain ⟨ends, -, -, -, hover, -⟩ := h.says
  exact hover ▸ List.subset_append_left ..

/-- A refused file stays refused. -/
theorem Does.refuses (h : Does t m m') (hrefuses : m.Refuses path) : m'.Refuses path := by
  obtain ⟨job, tasks, htasks, hle, hresume, hsettle⟩ := h.done
  cases hrefuses with
  | past hover => exact .past (h.over_subset hover)
  | settling hmem =>
    rcases Multiset.mem_cons.1 (htasks ▸ hmem) with heq | hmem
    · exact .past (hsettle _ _ heq.symm)
    · exact .settling (Multiset.mem_of_le hle hmem)
  | @resuming file e w hmem hw hpath =>
    rcases Multiset.mem_cons.1 (htasks ▸ hmem) with heq | hmem
    · obtain ⟨w', hw', hsettling⟩ := hresume _ _ heq.symm
      obtain rfl := Option.some.inj (hw.symm.trans hw')
      exact hpath ▸ .settling hsettling
    · obtain ⟨w', hw', hsame, -⟩ := h.walkedFile hw
      exact .resuming (Multiset.mem_of_le hle hmem) hw' (hsame.options ▸ hpath)

/-- How the waiting of a file ends. -/
theorem Does.waiting_ends (h : Does t m m') {i : Nat} {w w' : Walked}
    (hw : m.loop.walked[i]? = some w) (hwaits : w.waits = true)
    (hw' : m'.loop.walked[i]? = some w') (hwaits' : w'.waits = false) :
    ∃ failure tasks, m.tasks = .answered i failure ::ₘ tasks ∧ .resume i failure ∈ m'.tasks ∧
      (failure.isSome ∨ w.missing ≤ 1) := by
  have hstill : ∀ {w'' : Walked}, m'.loop.walked[i]? = some w'' → w''.waits = w.waits → False :=
    fun hw'' hsame => by
    obtain rfl := Option.some.inj (hw''.symm.trans hw')
    rw [hsame, hwaits] at hwaits'
    cases hwaits'
  cases h with
  | opened | staged | asked | called | heard | texted | ignored | settled | counted | closed
    | stopped => exact (hstill hw rfl).elim
  | walked =>
    refine (hstill ?_ rfl).elim
    rw [Loop.beginFile]
    exact List.getElem?_append_left (List.getElem?_eq_some_iff.1 hw).1 ▸ hw
  | @concluded tasks s c w₀ l job r talk entries hstands =>
    by_cases heq : c.file = i
    · subst heq
      obtain rfl := Option.some.inj (hw.symm.trans hstands.1)
      have hself := List.getElem?_set_self (List.getElem?_eq_some_iff.1 hw).1
        (a := w.given c.param r.result)
      exact (hstill hself (Walked.waits_given ..)).elim
    · exact (hstill ((List.getElem?_set_ne heq).trans hw) rfl).elim
  | @missed tasks s file w₀ hw₀ =>
    by_cases heq : file = i
    · subst heq
      obtain rfl := Option.some.inj (hw.symm.trans hw₀)
      exact (hstill (List.getElem?_set_self (List.getElem?_eq_some_iff.1 hw).1) rfl).elim
    · exact (hstill ((List.getElem?_set_ne heq).trans hw) rfl).elim
  | @ended tasks s file failure w₀ hw₀ _ hend =>
    by_cases heq : file = i
    · subst heq
      obtain rfl := Option.some.inj (hw.symm.trans hw₀)
      exact ⟨failure, tasks, rfl, Multiset.mem_cons_self .., hend⟩
    · exact (hstill ((List.getElem?_set_ne heq).trans hw) rfl).elim

/-- **Each step keeps open parameters with files that wait or were refused.** -/
theorem Does.attached (h : Does t m m') (hs : Sound m) (ha : Attached m) : Attached m' := by
  have hold : ∀ c ∈ openCallers m.tasks m.loop.queue, ∃ w : Walked,
      m'.loop.walked[c.file]? = some w ∧ (w.waits = true ∨ m'.Refuses w.options.path) := by
    intro c hc
    obtain ⟨w, hw, hattached⟩ := ha c hc
    obtain ⟨w', hw', hsame, -⟩ := h.walkedFile hw
    refine ⟨w', hw', ?_⟩
    rcases hattached with hwaits | hrefuses
    · cases hwaits' : w'.waits with
      | true => exact .inl rfl
      | false =>
        obtain ⟨failure, tasks, htasks, hresume, hend⟩ := h.waiting_ends hw hwaits hw' hwaits'
        cases failure with
        | some e => exact .inr (.resuming hresume hw' rfl)
        | none =>
          obtain ⟨hclosed, -⟩ :=
            hs.last_answer htasks hw hwaits (hend.resolve_left Bool.false_ne_true)
          rw [htasks, openCallers_cons rfl] at hc
          exact absurd rfl (hclosed c hc)
    · exact .inr (hsame.options ▸ h.refuses hrefuses)
  intro c hc
  cases h.opens hs with
  | nothing hopen => exact hold c (hopen ▸ hc)
  | closing _ _ _ _ hopen => exact hold c (hopen ▸ Multiset.mem_cons_of_mem hc)
  | @opening path source tree b hb _ hnext hopen hloop =>
    rcases Multiset.mem_add.1 (hopen ▸ hc) with hc | hc
    · exact hold c hc
    · obtain ⟨j, hj, rfl⟩ := List.mem_map.1 (Multiset.mem_coe.1 hc)
      have hbegins : Begins (t.fileOptions path) (some source) b := hb ▸ Beginning.begins ..
      refine ⟨b.walked, by rw [hloop, Loop.beginFile]; simp, ?_⟩
      cases hjob : b.next with
      | none => exact .inl (by rw [hbegins.waits_eq, hjob]; rfl)
      | some job =>
        -- only a refused file that goes on at once has parameters
        by_cases hrefused : ∃ e, job = .settle path (.error (.refused e))
        · obtain ⟨e, rfl⟩ := hrefused
          rw [hbegins.options_eq]
          exact .inr (.settling (hnext _ hjob))
        · have hnil := hbegins.locations_eq_nil hjob fun e he => hrefused ⟨e, he⟩
          rw [hnil] at hj
          exact absurd hj List.not_mem_nil

theorem Reached.attached (h : Reached t files batches m) : Attached m := by
  induction h with
  | start => exact fun c hc => absurd hc (Multiset.notMem_zero _)
  | batch _ _ paths ih =>
    intro c hc
    obtain ⟨w, hw, hattached⟩ := ih c (openCallers_opening .. ▸ hc)
    refine ⟨w, hw, hattached.imp_right fun hrefuses => ?_⟩
    cases hrefuses with
    | past h => exact .past h
    | settling h => exact .settling (Multiset.mem_cons_of_mem h)
    | resuming h hw hpath => exact .resuming (Multiset.mem_cons_of_mem h) hw hpath
  | step hreached hstep ih => exact (hstep.does hreached.sound).attached hreached.sound ih

/-! ## A file that is over -/

/-- What is reached later on, and the batches that have begun meanwhile. -/
inductive Later (t : Toolchain) (m : Moment) : List (List String) → Moment → Prop
  | refl : Later t m [] m
  | batch {more : List (List String)} {m' : Moment} (h : Later t m more m')
      (hstopped : m'.loop.stopped = true) (paths : List String) :
      Later t m (more ++ [paths]) (m'.opening paths)
  | step {more : List (List String)} {m' m'' : Moment} (h : Later t m more m')
      (hstep : Step t m' m'') : Later t m more m''

theorem Reached.later (h : Reached t files batches m) (hlater : Later t m more m') :
    Reached t files (batches ++ more) m' := by
  induction hlater with
  | refl =>
    rw [List.append_nil]
    exact h
  | batch _ hstopped paths ih =>
    rw [← List.append_assoc]
    exact ih.batch (.inr hstopped) paths
  | step _ hstep ih => exact ih.step hstep

theorem Later.over_subset (h : Later t m more m') (hs : Sound m) :
    m.loop.past ⊆ m'.loop.past ∧ Sound m' := by
  induction h with
  | refl => exact ⟨fun _ => id, hs⟩
  | batch _ _ paths ih => exact ⟨ih.1, ih.2.opening paths⟩
  | step _ hstep ih =>
    have hdoes := hstep.does ih.2
    exact ⟨fun _ he => hdoes.over_subset (ih.1 he), hdoes.sound ih.2⟩

/-- **A file that is given once is not under way when it is over**, and is over once. -/
theorem Reached.over_once (h : Reached t files batches m) {e : Ending}
    (hover : (path, e) ∈ m.loop.past) (honce : batches.flatten.count path ≤ 1) :
    path ∉ m.underWay ∧ ∀ e', (path, e') ∈ m.loop.past → e' = e := by
  have hcount := congrArg (Multiset.count path) h.conserves
  rw [Multiset.count_add, Multiset.count_add, Multiset.coe_count, Multiset.coe_count] at hcount
  obtain ⟨before, after, heq⟩ := List.append_of_mem hover
  have hsplit : (m.loop.past.map (·.1)).count path
      = (before.map (·.1)).count path + ((after.map (·.1)).count path + 1) := by
    rw [heq, List.map_append, List.map_cons, List.count_append, List.count_cons_self]
  refine ⟨Multiset.count_eq_zero.1 (by omega), fun e' he' => ?_⟩
  have hnone : ∀ {l : List (String × Ending)}, (l.map (·.1)).count path = 0 → (path, e') ∉ l :=
    fun hzero hmem => List.count_eq_zero.1 hzero (List.mem_map.2 ⟨_, hmem, rfl⟩)
  rw [heq] at he'
  rcases List.mem_append.1 he' with hmem | hmem
  · exact absurd hmem (hnone (by omega))
  · rcases List.mem_cons.1 hmem with heq | hmem
    · exact (Prod.mk.inj heq).2
    · exact absurd hmem (hnone (by omega))

/-- **Only a refused file leaves open parameters behind.** -/
theorem Reached.closed (h : Reached t files batches m) {e : Ending}
    (hover : (path, e) ∈ m.loop.past) (honce : batches.flatten.count path ≤ 1)
    (hrefused : ∀ r, e ≠ .failed (.refused r)) : ¬ m.IsOpen path := by
  obtain ⟨hunder, hunique⟩ := h.over_once hover honce
  rintro ⟨c, hc, w, hw, rfl⟩
  obtain ⟨w', hw', hattached⟩ := h.attached c hc
  obtain rfl := Option.some.inj (hw.symm.trans hw')
  rcases hattached with hwaits | hrefuses
  · exact hunder (Moment.mem_underWay_of_waits hw hwaits)
  · cases hrefuses with
    | past h => exact hrefused _ (hunique _ h).symm
    | settling h => exact hunder (Moment.mem_underWay_of_stage h (.settle (fun _ => nofun)))
    | resuming h hw' hpath => exact hunder (hpath ▸ Moment.mem_underWay_of_resume h hw')

/-- **Nothing is said of a file** that is neither under way nor open. -/
theorem Does.silent (h : Does t m m') (hs : Sound m) (hplace : ∀ w ∈ m.loop.walked, w.InPlace)
    (hunder : path ∉ m.underWay) (hclosed : ¬ m.IsOpen path) :
    m'.loop.log.filter (·.isAbout path) = m.loop.log.filter (·.isAbout path) ∧
      m'.loop.findings.filter (·.isAbout path) = m.loop.findings.filter (·.isAbout path) := by
  have hopen : ∀ {c : Caller} {w : Walked}, c ∈ openCallers m.tasks m.loop.queue →
      m.loop.walked[c.file]? = some w → w.options.path ≠ path :=
    fun hc hw hpath => hclosed ⟨_, hc, _, hw, hpath⟩
  obtain ⟨ends, findings, entries, hsays, -, -, hfindings, hlog⟩ := h.says
  suffices hnone : entries.filter (·.isAbout path) = [] ∧ findings.filter (·.isAbout path) = [] by
    rw [hlog, hfindings, List.filter_append, List.filter_append, hnone.1, hnone.2, List.append_nil,
      List.append_nil]
    exact ⟨rfl, rfl⟩
  cases hsays with
  | nothing => exact ⟨rfl, rfl⟩
  | @asked e hcall =>
    have he : e ∈ Loop.entries m.loop.queue := hs.mem_entries hcall (Multiset.mem_singleton_self e)
    obtain ⟨w, location, hstands, hquery⟩ := hs.asked e he
    have hne := hopen (Multiset.mem_add.2 (.inr (Multiset.mem_map_of_mem _ he))) hstands.1
    exact ⟨by simp [LogEntry.isAbout, hquery, hne], rfl⟩
  | @walked other source tree hwalk =>
    have hne : other ≠ path := fun heq =>
      hunder (heq ▸ Moment.mem_underWay_of_stage hwalk (.walk source tree))
    exact ⟨rfl, filter_isAbout_eq_nil (Beginning.begins ..).isIn hne⟩
  | @inferred c w l job r talk entries hstands hconcludes hjob =>
    have hc : c ∈ openCallers m.tasks m.loop.queue :=
      Multiset.mem_add.2 (.inl (Multiset.mem_bind.2 ⟨job, hjob, by simp [hconcludes.callers_eq]⟩))
    have hin := hconcludes.isIn (hplace w (List.mem_of_getElem? hstands.1)) hstands
    exact ⟨by cases hconcludes <;> rfl, filter_isAbout_eq_nil hin (hopen hc hstands.1)⟩
  | @past other r e files hjob hsettles =>
    have hne : other ≠ path := fun heq => hunder (heq ▸ Moment.mem_underWay_of_stage hjob
      (.settle fun tree => by rintro rfl; cases hsettles))
    cases e <;> simp [Ending.entries, Ending.findings, LogEntry.isAbout, Finding.isAbout, hne]

end

/-! ## A file that has failed and goes on -/

/-- A node that stands in one line. -/
def nodeAt (line first last : Int) (kind : String) (fields : List (String × Json)) : Json :=
  .obj (("type", .str kind) :: ("loc", .obj [
    ("start", .obj [("line", .int line), ("column", .int first)]),
    ("end", .obj [("line", .int line), ("column", .int last)])]) :: fields)

/-- The declaration of a function `f` with one parameter. -/
def functionOf (param : String) : Json :=
  .obj [("type", .str "FunctionDeclaration"),
    ("params", .arr [nodeAt 1 11 12 "Identifier" [("name", .str param)]])]

end Batch

end Retype
