import Retype.Proofs.Batch.Apart
import Retype.Proofs.Report.Merge
/-!
# How files are batched does not show

Files may be given in any order, cut into batches in any way, and the jobs of a
batch may be done in any order. If the files are written apart, each of them
comes to its own outcome, and all files read alike in the end; and if no
rewriting is refused, what is found in all of them is what each of them gives by
itself (`Reached.findings_perm`), so that the merged report is the same
(`batching_does_not_show`).

What stands in a file is found when the file is walked, and when its parameters
get their annotations; all else is found when the file is over. So the books can
be kept: what was found in place so far, what is due with the parameters that
are open, and what is ahead of the files that are still to be walked make up
what is found in place in all files. No step changes that (`Does.ledger_eq`).
-/

namespace Retype.Batch

open Inference (Query Queue Entry)

/-! ## The books of what is found -/

/-- The findings that stand in a file. -/
def inPlace (findings : List Finding) : List Finding := findings.filter (!·.isFile)

namespace Manner

variable (f : Manner) (t : Toolchain)

/-- What is found in place in a file that was walked: in its tree, and when its
parameters get their annotations. -/
def foundIn (b : Beginning) : List Finding :=
  b.findings ++ b.walked.locations.flatMap fun l => (f.inferred t b.walked.options l).findings

/-- What is found in place from a stage of a file on. -/
def foundFrom : Job → List Finding
  | .parse path source =>
    match t.parsed (f.exchange (Bridge.parseRequest source)) with
    | .ok tree => f.foundIn t (.ofTree (t.fileOptions path) (some source) tree)
    | .error _ => []
  | .walk path source tree => f.foundIn t (.ofTree (t.fileOptions path) (some source) tree)
  | _ => []

/-- What is found in place in a file that is migrated by itself. -/
def placesOf (files : Files) (path : String) : List Finding :=
  f.foundFrom t (Loop.afterReading path (t.readSource files path))

/-- What is found in place from a job on, if each file is read in the given files. -/
def ahead (files : Files) : Job → List Finding
  | .openBatch paths => paths.flatMap (f.placesOf t files)
  | .start (.file path) => f.placesOf t files path
  | job => f.foundFrom t job

/-- What is found when a parameter gets its annotation. -/
def due (s : Loop) (c : Caller) : List Finding :=
  match s.place? c with
  | some (o, l) => (f.inferred t o l).findings
  | none => []

/-- **The books**: what was found in place, what is due with the open
parameters, and what is ahead of each file that is to be walked. -/
def ledger (files : Files) (m : Moment) : Multiset Finding :=
  (inPlace m.loop.findings : Multiset Finding)
    + (openCallers m.tasks m.loop.queue).bind (fun c => (f.due t m.loop c : Multiset Finding))
    + m.tasks.bind fun job => (f.ahead t files job : Multiset Finding)

end Manner

theorem inPlace_append (findings findings' : List Finding) :
    inPlace (findings ++ findings') = inPlace findings ++ inPlace findings' :=
  List.filter_append ..

theorem inPlace_eq_self {path : String} {findings : List Finding}
    (h : ∀ f ∈ findings, f.IsIn path) : inPlace findings = findings :=
  List.filter_eq_self.2 fun f hf => by simp [(h f hf).not_isFile]

/-- Nothing is found in place when a file is over. -/
theorem Ending.inPlace_findings (path : String) (e : Ending) : inPlace (e.findings path) = [] := by
  cases e <;> rfl

section
variable {f : Manner} {t : Toolchain} {files : Files} {m m' : Moment} {path : String} {job : Job}

/-! ### What is ahead -/

/-- Nothing is found in place in a file any more that does not wait. -/
theorem Manner.ahead_conclusion (w : Walked) (failure : Option Refusal) :
    f.ahead t files (w.conclusion failure) = [] := by
  cases failure with
  | some e => rfl
  | none =>
    rw [Walked.conclusion, Walked.onward]
    cases w.source <;> rfl

/-- What a file gives is ahead of it at each stage before its walk, if it is read
as it was. -/
theorem Follows.ahead_eq {next : Job} {talk : Talk} (h : Follows t m.loop job next talk)
    (htalk : talk.since .none ≤ f.replies) (hread : ∀ path, job = .start (.file path) →
      f.placesOf t m.loop.files path = f.placesOf t files path) :
    f.ahead t files next = f.ahead t files job := by
  cases h with
  | read path =>
    refine Eq.trans ?_ (hread path rfl)
    rw [Manner.placesOf]
    rcases t.readSource m.loop.files path with cause | (_ | source) <;> rfl
  | parsed path source =>
    rw [htalk.1 _ _ (Toolchain.exchange_request m.loop.talk.continues_none _)]
    show _ = f.foundFrom t (.parse path source)
    rw [Manner.foundFrom]
    cases t.parsed (f.exchange (Bridge.parseRequest source)) <;> rfl
  | printed | unwritten => rfl
  | resumed => exact Manner.ahead_conclusion ..

theorem Begins.ahead_next {o : Migration.FileOptions} {source : Option String} {b : Beginning}
    (h : Begins o source b) :
    (b.next.toList : Multiset Job).bind
      (fun job => (f.ahead t files job : Multiset Finding)) = 0 := by
  refine Job.bind_eq_zero fun job hjob => ?_
  have hjob : b.next = some job := Option.mem_toList.1 hjob
  cases h with
  | refused =>
    obtain rfl := Option.some.inj hjob
    rfl
  | @settled p tree rewritten =>
    obtain rfl := Option.some.inj hjob
    exact congrArg _ (Manner.ahead_conclusion (.ofProgress o source p rewritten false) none)
  | waiting => cases hjob

/-- The files of a batch that begins are ahead as the batch was. -/
theorem Manner.ahead_starts (paths : List String) :
    (Loop.starts paths : Multiset Job).bind (fun job => (f.ahead t files job : Multiset Finding))
      = (paths.flatMap (f.placesOf t files) : List Finding) := by
  rw [Loop.starts]
  split
  next hempty =>
    obtain rfl := List.isEmpty_iff.1 hempty
    rfl
  · rw [← Multiset.map_coe, Multiset.bind_map, ← Multiset.coe_bind]
    rfl

/-! ### What is due -/

theorem Loop.Stands.due_eq {s : Loop} {c : Caller} {w : Walked} {l : Result Location}
    (h : s.Stands c w l) : f.due t s c = (f.inferred t w.options l).findings := by
  rw [Manner.due, Loop.place?_eq_some_iff.2 ⟨w, h.1, h.2, rfl⟩]

/-- What is due with an open parameter stays so. -/
theorem Does.due_eq (h : Does t m m') (hs : Sound m) {c : Caller}
    (hc : c ∈ openCallers m.tasks m.loop.queue) : f.due t m'.loop c = f.due t m.loop c := by
  obtain ⟨w, l, hstands⟩ := hs.placed c hc
  obtain ⟨w', hstands', hsame⟩ := h.stands hstands
  rw [hstands.due_eq, hstands'.due_eq, hsame.options]

/-- What is due with the parameters of a file that has just been walked. -/
theorem due_callers {s s' : Loop} {w : Walked} (hw : s'.walked[s.walked.length]? = some w) :
    (s.callers w.locations.length).flatMap (f.due t s')
      = w.locations.flatMap fun l => (f.inferred t w.options l).findings := by
  have hdue : (s.callers w.locations.length).map (f.due t s')
      = w.locations.map fun l => (f.inferred t w.options l).findings := by
    rw [Loop.callers, List.map_map]
    refine List.ext_getElem (by simp) fun i hi hi' => ?_
    have hlt : i < w.locations.length := by simpa using hi'
    have hstands : s'.Stands ⟨s.walked.length, i⟩ w w.locations[i] :=
      ⟨hw, List.getElem?_eq_getElem hlt⟩
    simpa using hstands.due_eq (f := f) (t := t)
  rw [List.flatMap_def, List.flatMap_def, hdue]

/-! ### Each step keeps the books -/

/-- **What a step finds in place**: nothing, or what comes with the annotation
of a parameter, which is closed then, or what comes with the walk of a file,
whose parameters are open then. -/
inductive Finds (f : Manner) (t : Toolchain) (files : Files) (m m' : Moment) : Prop
  | nothing (hfound : inPlace m'.loop.findings = inPlace m.loop.findings)
      (hopen : openCallers m'.tasks m'.loop.queue = openCallers m.tasks m.loop.queue)
      (hahead : (m'.tasks.bind fun job => (f.ahead t files job : Multiset Finding))
        = m.tasks.bind fun job => (f.ahead t files job : Multiset Finding))
  | annotating {c : Caller} {w : Walked} {l : Result Location} (hstands : m.loop.Stands c w l)
      (hfound : m'.loop.findings = m.loop.findings ++ (f.inferred t w.options l).findings)
      (hin : ∀ found ∈ (f.inferred t w.options l).findings, found.IsIn w.options.path)
      (hopen : openCallers m.tasks m.loop.queue = c ::ₘ openCallers m'.tasks m'.loop.queue)
      (hahead : (m'.tasks.bind fun job => (f.ahead t files job : Multiset Finding))
        = m.tasks.bind fun job => (f.ahead t files job : Multiset Finding))
  | walking {path : String} {b : Beginning} (hin : ∀ found ∈ b.findings, found.IsIn path)
      (hloop : m'.loop = m.loop.beginFile b)
      (hopen : openCallers m'.tasks m'.loop.queue = openCallers m.tasks m.loop.queue
        + (m.loop.callers b.walked.locations.length : List Caller))
      (hahead : (m.tasks.bind fun job => (f.ahead t files job : Multiset Finding))
        = (f.foundIn t b : Multiset Finding)
          + m'.tasks.bind fun job => (f.ahead t files job : Multiset Finding))

/-- Each step finds something in one of these ways, if it replies as the manner
has it, and a file that is read is as it was. -/
theorem Does.finds {F : Files → Prop} (h : Does t m m') (hs : Sound m)
    (hplace : ∀ w ∈ m.loop.walked, w.InPlace) (ht : Traced t (.ofFiles files) F m)
    (htalk : m'.loop.talk.Follows f) (hread : ∀ path, .start (.file path) ∈ m.tasks →
      f.placesOf t m.loop.files path = f.placesOf t files path) : Finds f t files m m' := by
  cases h with
  | called | texted | ignored | missed | ended | closed | stopped =>
    exact .nothing rfl (by simp [openCallers, Job.callers])
      (by simp [Manner.ahead, Manner.foundFrom])
  | opened paths =>
    refine .nothing rfl (by simp [openCallers, Job.callers]) ?_
    rw [Multiset.add_bind, Multiset.cons_bind, Manner.ahead_starts, add_comm]
    rfl
  | staged h =>
    obtain ⟨path, hstage, -⟩ := h.stage hs.sources
    refine .nothing rfl (openCallers_congr (hstage.callers_eq_zero.trans h.callers_eq_zero.symm)) ?_
    rw [Multiset.cons_bind, Multiset.cons_bind,
      h.ahead_eq htalk fun path heq => hread path (heq ▸ Multiset.mem_cons_self ..)]
  | counted =>
    refine .nothing rfl ?_ ?_
    · simp only [openCallers, Multiset.add_bind, Multiset.cons_bind]
      split <;> simp [Job.callers]
    · simp only [Multiset.add_bind, Multiset.cons_bind]
      split <;> simp [Manner.ahead, Manner.foundFrom]
  | asked _ hqueue =>
    refine .nothing rfl (openCallers_asked hqueue) ?_
    rw [Multiset.add_bind, Multiset.cons_bind, Job.bind_started _ fun _ => rfl, add_comm]
    rfl
  | heard hactive hqueue =>
    refine .nothing rfl (openCallers_heard hactive hqueue _) ?_
    rw [Multiset.cons_bind, Multiset.add_bind, Multiset.cons_bind, Job.bind_started _ fun _ => rfl,
      add_zero]
    rfl
  | settled =>
    refine .nothing ?_ (by simp [openCallers, Job.callers])
      (by simp [Manner.ahead, Manner.foundFrom])
    rw [inPlace_append, Ending.inPlace_findings, List.append_nil]
  | concluded hstands hjob =>
    have hinferred := ht.inferred hstands (Nat.zero_le _) (Multiset.mem_cons_self ..) hjob
    have hown := Manner.inferred_eq htalk hinferred
    refine .annotating hstands (by rw [hown]; rfl) ?_ (openCallers_concluded hjob _) ?_
    · rw [hown]
      exact hjob.isIn (hplace _ (List.mem_of_getElem? hstands.1)) hstands
    · cases hjob <;> simp [Manner.ahead, Manner.foundFrom]
  | walked hb =>
    refine .walking (Begins.isIn (hb ▸ Beginning.begins ..)) rfl
      (openCallers_walked _ _ _ (hb ▸ Beginning.begins ..)) ?_
    rw [Multiset.cons_bind, Multiset.add_bind, Multiset.add_bind,
      Begins.ahead_next (hb ▸ Beginning.begins ..), Job.bind_puts _ _ fun _ => rfl, hb]
    simp [Manner.ahead, Manner.foundFrom]

/-- **Each step keeps the books.** -/
theorem Does.ledger_eq {F : Files → Prop} (h : Does t m m') (hs : Sound m)
    (hplace : ∀ w ∈ m.loop.walked, w.InPlace) (ht : Traced t (.ofFiles files) F m)
    (htalk : m'.loop.talk.Follows f) (hread : ∀ path, .start (.file path) ∈ m.tasks →
      f.placesOf t m.loop.files path = f.placesOf t files path) :
    f.ledger t files m' = f.ledger t files m := by
  -- a parameter that is open stands where it stood, so that the same is due with it
  have hdue : (openCallers m.tasks m.loop.queue).bind
      (fun c => (f.due t m'.loop c : Multiset Finding))
      = (openCallers m.tasks m.loop.queue).bind fun c => (f.due t m.loop c : Multiset Finding) :=
    Multiset.bind_congr fun c hc => by rw [h.due_eq hs hc]
  rw [Manner.ledger, Manner.ledger, ← hdue]
  cases h.finds hs hplace ht htalk hread with
  | nothing hfound hopen hahead => rw [hfound, hopen, hahead]
  | @annotating c w l hstands hfound hin hopen hahead =>
    obtain ⟨w', hstands', hsame⟩ := h.stands hstands
    rw [hfound, inPlace_append, inPlace_eq_self hin, hopen, hahead, Multiset.cons_bind,
      hstands'.due_eq, hsame.options, ← Multiset.coe_add]
    abel
  | @walking path b hin hloop hopen hahead =>
    have hnew : (m.loop.callers b.walked.locations.length : Multiset Caller).bind
        (fun c => (f.due t m'.loop c : Multiset Finding))
          = (b.walked.locations.flatMap fun l => (f.inferred t b.walked.options l).findings :
              List Finding) := by
      rw [Multiset.coe_bind, due_callers (by rw [hloop, Loop.beginFile]; simp)]
    have hfound : m'.loop.findings = m.loop.findings ++ b.findings := by rw [hloop, Loop.beginFile]
    rw [hfound, inPlace_append, inPlace_eq_self hin, hopen, hahead, Multiset.add_bind, hnew,
      Manner.foundIn, ← Multiset.coe_add, ← Multiset.coe_add]
    abel

end

/-! ## The books of all files -/

/-- What is found about a whole file, given its outcome. -/
def Outcome.findings (path : String) : Outcome → List Finding
  | .migrated _ => []
  | .skipped => [.file .skippedLargeFiles path]
  | .failed => [.file .failedFiles path]

theorem Ending.findings_eq (path : String) (e : Ending) :
    e.findings path = e.outcome.findings path := by
  cases e <;> rfl

/-- **What is found for a file** that is migrated by itself. -/
def Manner.findingsOf (f : Manner) (t : Toolchain) (files : Files) (path : String) : List Finding :=
  f.placesOf t files path ++ (f.outcome t files path).findings path

/-- What stands in a file depends on what is read. -/
theorem Manner.placesOf_congr {f : Manner} {t : Toolchain} {files files' : Files} {path : String}
    (hread : (files'.read (Path.parse path)).toOption = (files.read (Path.parse path)).toOption) :
    f.placesOf t files' path = f.placesOf t files path := by
  rw [placesOf, placesOf, Toolchain.readSource, Toolchain.readSource]
  cases hbytes : files.read (Path.parse path) with
  | error cause =>
    cases hbytes' : files'.read (Path.parse path) with
    | error cause' => rfl
    | ok bytes' =>
      rw [hbytes, hbytes'] at hread
      cases hread
  | ok bytes =>
    cases hbytes' : files'.read (Path.parse path) with
    | error cause' =>
      rw [hbytes, hbytes'] at hread
      cases hread
    | ok bytes' =>
      rw [hbytes, hbytes'] at hread
      rw [Option.some.inj hread]

/-- Nothing is ahead when no file is to begin or under way. -/
theorem Manner.ahead_eq_zero {f : Manner} {t : Toolchain} {files : Files} {m : Moment}
    (hrests : m.Rests) :
    (m.tasks.bind fun job => (f.ahead t files job : Multiset Finding)) = 0 := by
  have hunder : ∀ {path job}, job ∈ m.tasks → job.path? m.loop.walked = some path → False :=
    fun hjob hpath =>
      Multiset.notMem_zero _ (hrests.underWay ▸ Moment.mem_underWay_of_path? hjob hpath)
  refine Multiset.eq_zero_of_forall_notMem fun finding hfinding => ?_
  obtain ⟨job, hjob, hmem⟩ := Multiset.mem_bind.1 hfinding
  have hmem : finding ∈ f.ahead t files job := Multiset.mem_coe.1 hmem
  unfold Manner.ahead at hmem
  split at hmem
  · refine Multiset.notMem_zero Mark.opening (hrests.marks ▸ Multiset.mem_bind.2 ⟨_, hjob, ?_⟩)
    exact Multiset.mem_singleton_self _
  · exact hunder hjob rfl
  · unfold Manner.foundFrom at hmem
    split at hmem
    · exact hunder hjob rfl
    · exact hunder hjob rfl
    · exact List.not_mem_nil hmem

section
variable {t : Toolchain} {f : Manner} {files : Files} {paths : List String}
  {batches : List (List String)} {m : Moment} {path : String}

theorem Reached.mem_batches (h : Reached t files batches m)
    (hpath : path ∈ m.loop.past.map (·.1) ∨ path ∈ m.underWay) : path ∈ batches.flatten := by
  rw [← Multiset.mem_coe, ← h.conserves, Multiset.mem_add, Multiset.mem_add, Multiset.mem_coe]
  exact .inl hpath

/-- **The books at every moment**: what was found in place, what is due and what
is ahead is what the files give that were given. -/
theorem Reached.ledger_eq (h : Reached t files batches m) (htalk : m.loop.talk.Follows f)
    (hapart : f.WritesApart t files paths) (hpaths : ∀ path ∈ batches.flatten, path ∈ paths) :
    f.ledger t files m = (batches.flatten.flatMap (f.placesOf t files) : List Finding) := by
  induction h with
  | start => rfl
  | @batch batches m h hrest opening ih =>
    rw [List.flatten_append, List.flatten_singleton, List.forall_mem_append] at hpaths
    -- the new files are ahead, and nothing of them was found yet
    rw [List.flatten_append, List.flatten_singleton, List.flatMap_append, ← Multiset.coe_add,
      ← ih htalk hpaths.1, Manner.ledger, Manner.ledger, openCallers_opening, Moment.opening,
      Multiset.cons_bind, add_comm (_ : Multiset Finding) (Multiset.bind m.tasks _), ← add_assoc]
    rfl
  | @step batches m m' h hstep ih =>
    have hdoes := hstep.does h.sound
    have htalk' : m.loop.talk.Follows f := Replies.le_trans hdoes.continues.since_le htalk
    have hran := h.ran_ofFiles
    refine Eq.trans ?_ (ih htalk' hpaths)
    refine hdoes.ledger_eq h.sound h.inPlace hran.traced htalk fun path hstart => ?_
    -- a file is read as it was at the start, since nothing was written over it
    have hpath := hpaths path (h.mem_batches (.inr (Moment.mem_underWay_of_path? hstart rfl)))
    have hpast : ∀ path ∈ m.loop.past.map (·.1), path ∈ paths := fun path hpath =>
      hpaths path (h.mem_batches (.inl hpath))
    rw [hran.disk]
    exact Manner.placesOf_congr
      (reads_of_free (List.prefix_refl _) (hran.endings.free hapart htalk' hpast hpath))

/-- **No parameter is open** when no file is under way, if no rewriting is refused. -/
theorem Reached.openCallers_eq_zero (h : Reached t files batches m) (hquiet : m.underWay = 0)
    (hnone : ∀ path e, (path, .failed (.refused e)) ∉ m.loop.past) :
    openCallers m.tasks m.loop.queue = 0 := by
  refine Multiset.eq_zero_of_forall_notMem fun c hc => ?_
  have hempty : ∀ path, path ∉ m.underWay := fun path => hquiet ▸ Multiset.notMem_zero path
  obtain ⟨w, hw, hwaits | hrefuses⟩ := h.attached c hc
  · exact hempty _ (Moment.mem_underWay_of_waits hw hwaits)
  · cases hrefuses with
    | past hover => exact hnone _ _ hover
    | settling hsettle =>
      exact hempty _ (Moment.mem_underWay_of_stage hsettle (.settle (fun _ => nofun)))
    | resuming hresume hw' => exact hempty _ (Moment.mem_underWay_of_resume hresume hw')

/-! ## What comes of all files -/

variable (h : Reached t files batches m) (hrest : batches = [] ∨ m.loop.stopped = true)
  (htalk : m.loop.talk.Follows f) (hcut : batches.flatten.Perm paths)
  (hapart : f.WritesApart t files paths)
include h hrest htalk hcut hapart

/-- **Each file comes to its own outcome**, when all batches have been served. -/
theorem Reached.own_outcome {e : Ending} (he : (path, e) ∈ m.loop.past) :
    f.outcome t files path = e.outcome :=
  h.ran_ofFiles.endings.outcome_of_apart hapart htalk
    (fun _ hpath => ((h.rests hrest).2.trans hcut).subset hpath) he

theorem Reached.outcomes_perm : (m.loop.past.map fun e => (e.1, e.2.outcome)).Perm
    (paths.map fun path => (path, f.outcome t files path)) := by
  have hown : m.loop.past.map (fun e => (e.1, e.2.outcome))
      = (m.loop.past.map (·.1)).map fun path => (path, f.outcome t files path) := by
    rw [List.map_map]
    refine List.map_congr_left fun ⟨path, e⟩ he => ?_
    simp [h.own_outcome hrest htalk hcut hapart he]
  rw [hown]
  exact ((h.rests hrest).2.trans hcut).map _

/-- A file that is migrated by itself is over as written. -/
theorem Reached.written_of_migrated (hpath : path ∈ paths) {mf : MigratedFile}
    (hm : f.outcome t files path = .migrated mf) : (path, .written mf) ∈ m.loop.past := by
  obtain ⟨⟨path', e⟩, he, rfl⟩ :=
    List.mem_map.1 (((h.rests hrest).2.trans hcut).symm.subset hpath)
  have hown := (h.own_outcome hrest htalk hcut hapart he).symm.trans hm
  cases e with
  | written mf' =>
    obtain rfl := Outcome.migrated.inj hown
    exact he
  | skipped | failed => cases hown

/-- Each target holds the text of its own file, and every other place what it held. -/
theorem Reached.get?_place (place : Trail) :
    (∀ path ∈ paths, ∀ mf, f.outcome t files path = .migrated mf →
      files.resolve (Path.parse mf.target) = .ok place →
        m.loop.files.get? place = some (Utf8.encode mf.text)) ∧
    ((∀ path ∈ paths, ∀ mf, f.outcome t files path = .migrated mf →
      files.resolve (Path.parse mf.target) ≠ .ok place) →
        m.loop.files.get? place = files.get? place) := by
  have hran := h.ran_ofFiles
  have hperm := (h.rests hrest).2.trans hcut
  rw [hran.disk]
  refine ⟨fun path hpath mf hm hplace => ?_, fun hother => ?_⟩
  · exact hran.endings.get?_written hapart htalk hperm
      (h.written_of_migrated hrest htalk hcut hapart hpath hm) hplace
  · refine (filesAfter_differOnlyAt files m.loop.past).get? place fun ⟨path, mf, hmem, hplace⟩ => ?_
    have hpath := hperm.subset (List.mem_map_of_mem hmem)
    exact hother path hpath mf (h.own_outcome hrest htalk hcut hapart hmem) hplace

/-- **What is found is what each file gives by itself**, if no rewriting is refused. -/
theorem Reached.findings_perm (hrewrites : ∀ path ∈ paths, f.Rewrites t files path) :
    m.loop.findings.Perm (paths.flatMap (f.findingsOf t files)) := by
  obtain ⟨hrests, hover⟩ := h.rests hrest
  have hran := h.ran_ofFiles
  have hperm := hover.trans hcut
  have hnone : ∀ path e, (path, .failed (.refused e)) ∉ m.loop.past := fun path e he => by
    have hpath := hperm.subset (List.mem_map_of_mem he)
    exact hran.endings.not_refused hapart htalk (fun _ hmem => hperm.subset hmem)
      (hrewrites path hpath) he
  -- at rest nothing is due and nothing is ahead: the books hold what was found
  have hplaces : (m.loop.findings.filter (!·.isFile)).Perm
      (paths.flatMap (f.placesOf t files)) := by
    have hledger := h.ledger_eq htalk hapart fun path hpath => hcut.subset hpath
    rw [Manner.ledger, Manner.ahead_eq_zero hrests, h.openCallers_eq_zero hrests.underWay hnone,
      Multiset.zero_bind, add_zero, add_zero] at hledger
    exact (Multiset.coe_eq_coe.1 hledger).trans (hcut.flatMap_right _)
  -- what is found about whole files is told by their outcomes
  have hfiles : (m.loop.findings.filter Finding.isFile).Perm
      (paths.flatMap fun path => (f.outcome t files path).findings path) := by
    have hown : m.loop.past.flatMap (fun e => e.2.findings e.1)
        = (m.loop.past.map (·.1)).flatMap fun path => (f.outcome t files path).findings path := by
      rw [List.flatMap_map]
      refine List.flatMap_congr fun ⟨path, e⟩ he => ?_
      rw [h.own_outcome hrest htalk hcut hapart he, Ending.findings_eq]
    rw [hran.found, hown]
    exact hperm.flatMap_right _
  have hsplit := List.filter_append_perm Finding.isFile m.loop.findings
  refine hsplit.symm.trans ((List.perm_append_comm.trans (hplaces.append hfiles)).trans ?_)
  exact List.flatMap_append_perm ..

end

/-- **How files are batched does not show.** Let some files be written apart,
and be served twice, each time in any order, cut into batches in any way, with
the jobs of a batch done in any order, and let all replies be in one manner.
Then each file has the same outcome, and the same text if it is written; all
files read alike; and if no rewriting is refused, the merged report is the same. -/
theorem batching_does_not_show {t : Toolchain} {f : Manner} {files : Files} {paths : List String}
    (hapart : f.WritesApart t files paths) {batches batches' : List (List String)}
    (hcut : batches.flatten.Perm paths) (hcut' : batches'.flatten.Perm paths) {m m' : Moment}
    (h : Reached t files batches m) (hrest : batches = [] ∨ m.loop.stopped = true)
    (htalk : m.loop.talk.Follows f)
    (h' : Reached t files batches' m') (hrest' : batches' = [] ∨ m'.loop.stopped = true)
    (htalk' : m'.loop.talk.Follows f) :
    (m'.loop.past.map fun e => (e.1, e.2.outcome)).Perm
      (m.loop.past.map fun e => (e.1, e.2.outcome)) ∧
    (∀ p, m'.loop.files.read p = m.loop.files.read p) ∧
    ((∀ path ∈ paths, f.Rewrites t files path) →
      Report.merge [.ofFindings m'.loop.findings] =
        Report.merge [.ofFindings m.loop.findings]) := by
  refine ⟨?_, Files.DifferOnlyAt.read_eq ⟨?_, fun place _ => ?_⟩, fun hrewrites => ?_⟩
  · exact (h'.outcomes_perm hrest' htalk' hcut' hapart).trans
      (h.outcomes_perm hrest htalk hcut hapart).symm
  · rw [h'.ran_ofFiles.disk, h.ran_ofFiles.disk,
      (filesAfter_differOnlyAt _ m'.loop.past).directories,
      (filesAfter_differOnlyAt _ m.loop.past).directories]
  · obtain ⟨hwritten, helsewhere⟩ := h.get?_place hrest htalk hcut hapart place
    obtain ⟨hwritten', helsewhere'⟩ := h'.get?_place hrest' htalk' hcut' hapart place
    by_cases htarget : ∃ path ∈ paths, ∃ mf, f.outcome t files path = .migrated mf ∧
        files.resolve (Path.parse mf.target) = .ok place
    · obtain ⟨path, hpath, mf, hm, hplace⟩ := htarget
      rw [hwritten' path hpath mf hm hplace, hwritten path hpath mf hm hplace]
    · have hother : ∀ path ∈ paths, ∀ mf, f.outcome t files path = .migrated mf →
          files.resolve (Path.parse mf.target) ≠ .ok place := fun path hpath mf hm hplace =>
        htarget ⟨path, hpath, mf, hm, hplace⟩
      rw [helsewhere' hother, helsewhere hother]
  · have hfound := (h'.findings_perm hrest' htalk' hcut' hapart hrewrites).trans
      (h.findings_perm hrest htalk hcut hapart hrewrites).symm
    have hone : [m'.loop.findings].flatten.Perm m.loop.findings := by simpa using hfound
    exact Report.merge_ofFindings hone

/-! ## Two files -/

section
variable {trees : List (String × Json)} {answer : Query → Option String} {command : List String}
  {payload : Json}

/-- Whoever knows the trees of some texts responds with one of these trees. -/
theorem Manner.knowing_parsed {tree : Json}
    (h : Bridge.parsed command ((Manner.knowing trees answer).exchange payload) = .ok tree) :
    trees.lookup (payload.textAt "source") = some tree := by
  replace h : (Bridge.responseOf command (.response (respond trees payload))).bind Bridge.treeOf
    = .ok tree := h
  unfold respond at h
  split at h
  · cases hknown : trees.lookup (payload.textAt "source") with
    | none =>
      rw [hknown] at h
      cases h
    | some known =>
      rw [hknown] at h
      replace h : Bridge.treeOf (.obj [("tree", known)]) = .ok tree := h
      cases known with
      | obj entries => exact congrArg some (Except.ok.inj h)
      | _ => cases h
  · cases h

/-- What is parsed as a type is in the trees that are known. -/
theorem Manner.knowing_parsedType {P : Json → Prop}
    (hall : ∀ entry ∈ trees, ∀ type ∈ (Bridge.aliasRight entry.2).toOption, P type) {type : Json}
    (h : Bridge.parsedType command ((Manner.knowing trees answer).exchange payload) = .ok type) :
    P type := by
  unfold Bridge.parsedType at h
  cases htree : Bridge.parsed command ((Manner.knowing trees answer).exchange payload) with
  | error cause =>
    rw [htree] at h
    cases h
  | ok tree =>
    rw [htree] at h
    replace h : Bridge.aliasRight tree = .ok type := h
    obtain ⟨before, after, heq, -⟩ := List.lookup_eq_some_iff.1 (Manner.knowing_parsed htree)
    have hmem : (payload.textAt "source", tree) ∈ trees := by simp [heq]
    exact hall _ hmem type (by rw [h]; rfl)

end

/-- The declaration of a type `T` as `string`. -/
def stringAlias : Json :=
  .obj [("type", .str "TypeAlias"), ("right", .obj [("type", .str "StringTypeAnnotation")])]

/-- The texts of two functions and of a type, with their trees. -/
def functionTrees : List (String × Json) :=
  [("f(x)", programOf [functionOf "x"]), ("f(y)", programOf [functionOf "y"]),
    ("type T = string", programOf [stringAlias])]

/-- The type of the parameters in one file. -/
def typeInFirst (q : Query) : Option String := if q.path = "/r/a.js" then some "string" else none

/-- Tools that know these texts, and a checker that knows these types. -/
def Toolchain.knowingFunctions : Toolchain :=
  .knowing functionTrees (some ⟨100, fun _ => typeInFirst⟩)

/-- Two files with the two functions. -/
def functionFiles : Files :=
  .ofList [(["r", "a.js"], Utf8.encode "f(x)"), (["r", "b.js"], Utf8.encode "f(y)")]

/-- Their manner. -/
def Manner.knowingFunctions : Manner := .knowing functionTrees typeInFirst

theorem Toolchain.knowingFunctions_keeps : Toolchain.knowingFunctions.Keeps .knowingFunctions :=
  Toolchain.knowing_keeps _ fun _ _ => rfl

/-- In what is parsed as a type the numerals are numbers. -/
theorem given_of_parsedType {payload type : Json}
    (h : Toolchain.knowingFunctions.parsedType (Manner.knowingFunctions.exchange payload) =
      some type) :
    Flow.Given type.stripPositions := by
  have hall : ∀ entry ∈ functionTrees, ∀ type ∈ (Bridge.aliasRight entry.2).toOption,
      type.stripPositions.everywhere (fun n => positionsWhole n && Flow.numeralGiven n) = true := by
    decide +kernel
  unfold Toolchain.parsedType at h
  cases htype : Bridge.parsedType Toolchain.knowingFunctions.bridge.command
      (Manner.knowingFunctions.exchange payload) with
  | error cause =>
    rw [htype] at h
    cases h
  | ok type' =>
    rw [htype] at h
    exact Manner.knowing_parsedType hall (htype.trans (congrArg _ (Option.some.inj h)))

/-- The rewriting of a text that is known is not refused if it goes well. -/
theorem knowingFunctions_rewrites {path : String} (source : String) {tree : Json}
    (hread : Toolchain.knowingFunctions.readSource functionFiles path = .ok (some source))
    (hknown : functionTrees.lookup source = some tree)
    (hwalk :
      (Migration.rewriteTree (Toolchain.knowingFunctions.fileOptions path) tree).1.isOk = true)
    (hplaced : ∀ l ∈
      (Migration.rewriteTree (Toolchain.knowingFunctions.fileOptions path) tree).2.waiting,
      l.isOk = true) : Manner.knowingFunctions.Rewrites .knowingFunctions functionFiles path := by
  have hisOk : ∀ {α : Type} {r : Result α}, r.isOk = true → ∃ a, r = .ok a := by
    rintro α (e | a) h
    · cases h
    · exact ⟨a, rfl⟩
  refine Manner.rewrites_of_walk (fun _ _ => given_of_parsedType)
    fun source' tree' hread' htree' => ?_
  obtain rfl := Option.some.inj (Except.ok.inj (hread.symm.trans hread'))
  have hparsed : functionTrees.lookup ((Bridge.parseRequest source).textAt "source") =
      some tree' := by
    unfold Toolchain.parsed at htree'
    cases hparsed : Bridge.parsed Toolchain.knowingFunctions.bridge.command
        (Manner.knowingFunctions.exchange (Bridge.parseRequest source)) with
    | error cause =>
      rw [hparsed] at htree'
      cases htree'
    | ok parsed =>
      rw [hparsed] at htree'
      exact Manner.knowing_parsed (hparsed.trans (congrArg _ (Except.ok.inj htree')))
  obtain rfl := Option.some.inj (hknown.symm.trans hparsed)
  obtain ⟨rewritten, hrewritten⟩ := hisOk hwalk
  exact ⟨rewritten, _, Prod.ext hrewritten rfl, fun l hl => hisOk (hplaced l hl)⟩

/-- One file after the other, or both at once: the outcomes are the same, and
the merged report. -/
theorem batching_does_not_show_two : ∃ m m',
    Reached .knowingFunctions functionFiles [["/r/a.js", "/r/b.js"]] m ∧ m.loop.stopped = true ∧
    Reached .knowingFunctions functionFiles [["/r/b.js"], ["/r/a.js"]] m' ∧ m'.loop.stopped = true ∧
    (m'.loop.past.map fun e => (e.1, e.2.outcome)).Perm
      (m.loop.past.map fun e => (e.1, e.2.outcome)) ∧
    Report.merge [.ofFindings m'.loop.findings] = Report.merge [.ofFindings m.loop.findings] := by
  have hapart : Apart ["/r/a.js", "/r/b.js"] := by
    have hnormal : ∀ path ∈ ["/r/a.js", "/r/b.js"],
        (Path.parse path).isAbsolute = true ∧ ".." ∉ (Path.parse path).parts := by decide +kernel
    exact ⟨fun path hpath => ⟨(hnormal path hpath).1, (hnormal path hpath).2⟩, by decide +kernel,
      by decide +kernel⟩
  have hwrites : Manner.knowingFunctions.WritesApart .knowingFunctions functionFiles
      ["/r/a.js", "/r/b.js"] :=
    Manner.writesApart_of_apart hapart (by decide)
  have hrewrites : ∀ path ∈ ["/r/a.js", "/r/b.js"],
      Manner.knowingFunctions.Rewrites .knowingFunctions functionFiles path := by
    refine List.forall_mem_cons.2 ⟨?_, List.forall_mem_singleton.2 ?_⟩
    · exact knowingFunctions_rewrites "f(x)" (by decide +kernel) rfl (by decide +kernel)
        (by decide +kernel)
    · exact knowingFunctions_rewrites "f(y)" (by decide +kernel) rfl (by decide +kernel)
        (by decide +kernel)
  have hstart : Reached .knowingFunctions functionFiles []
      (.ofLoop (.ofFiles functionFiles)) := .start
  -- both files in one batch, and each in its own
  obtain ⟨h, hstopped, -⟩ := hstart.ofLoop (.inl rfl) rfl ["/r/a.js", "/r/b.js"]
  obtain ⟨h₁, hstopped₁, hstages⟩ := hstart.ofLoop (.inl rfl) rfl ["/r/b.js"]
  obtain ⟨h', hstopped', -⟩ := h₁.ofLoop (.inr hstopped₁) hstages ["/r/a.js"]
  have hkeeps := Toolchain.knowingFunctions_keeps
  have hswap : [["/r/b.js"], ["/r/a.js"]].flatten.Perm ["/r/a.js", "/r/b.js"] := .swap ..
  obtain ⟨houtcomes, -, hreport⟩ := batching_does_not_show hwrites (.refl _) hswap h (.inr hstopped)
    (hkeeps.follows h) h' (.inr hstopped') (hkeeps.follows h')
  exact ⟨_, _, h, hstopped, h', hstopped', houtcomes, hreport hrewrites⟩

end Retype.Batch
