import Retype.Command.Program
import Retype.Proofs.Dispatch.Completion
import Retype.Proofs.Report.Merge
/-!
# What a run deletes

A run is recorded with the files that it removes, one log for the calls and
the removals. The removals come after all calls, and only if the workers have
come to their ends: then every session has said the whole pattern, and what
is removed was found, was in a batch that was answered, and stands in no
report as left alone (`deletes_only_migrated`).

Not every run that fails has deleted nothing: the allowlists are loaded when
the originals are gone (`failing_run_deletes`). This is the one exception,
besides a removal that fails itself.
-/

namespace Retype

open Dispatch (Call Surroundings RunState RunEnd Completed Acknowledged reportsIn spawnedIn
  transcript beats pattern)
open Discovery (DiscoveryError)

variable {σ : Type}

/-! ## Recorded runs -/

/-- What a run does: it calls somebody, or it removes a file; why that fails,
if it does. -/
inductive Deed where
  | called (call : Call)
  | unlinked (path : String) (failure : Option FileError)

namespace Deed

def call? : Deed → Option Call
  | called call => some call
  | unlinked .. => none

end Deed

/-- The calls of a log. -/
def callsIn (log : List Deed) : List Call := log.filterMap Deed.call?

/-- A site with a log of every deed. -/
def Site.recorded (site : Site σ) : Site (σ × List Deed) where
  now u := site.now u.1
  spawn u number :=
    (((site.spawn u.1 number).1, u.2 ++ [.called (.spawned number (site.spawn u.1 number).2)]),
      (site.spawn u.1 number).2)
  send u number m :=
    (((site.send u.1 number m).1, u.2 ++ [.called (.sent number m (site.send u.1 number m).2)]),
      (site.send u.1 number m).2)
  wait u numbers t := (((site.wait u.1 numbers t).1, u.2), (site.wait u.1 numbers t).2)
  receive u number :=
    (((site.receive u.1 number).1,
      u.2 ++ [.called (.received number (site.receive u.1 number).2)]),
      (site.receive u.1 number).2)
  terminate u number := (site.terminate u.1 number, u.2 ++ [.called (.terminated number)])
  levels := site.levels
  files u := site.files u.1
  unlink u path :=
    (((site.unlink u.1 path).1, u.2 ++ [.unlinked path (site.unlink u.1 path).2]),
      (site.unlink u.1 path).2)

/-- The result without the log. -/
def RunResult.plain (r : RunResult (σ × List Deed)) : RunResult σ :=
  ⟨r.lines, r.surroundings.1, r.result⟩

/-- What went wrong, if something did. -/
def RunResult.failure? (r : RunResult σ) : Option RunError :=
  match r.result with
  | .error e => some e
  | .ok _ => none

variable (site : Site σ) (c : Config)

/-- The log of the calls is seen in the log of the deeds. -/
theorem Site.calls_seen : site.toSurroundings.recorded.Seen
    (fun u => (u.1, u.2.map Deed.called)) site.recorded.toSurroundings := by
  refine ⟨fun _ => rfl, fun u number => ?_, fun u number m => ?_, fun u numbers t => rfl,
    fun u number => ?_, fun u number => ?_⟩
  · simp [Site.recorded, Surroundings.recorded]
  · simp [Site.recorded, Surroundings.recorded]
  · simp [Site.recorded, Surroundings.recorded]
  · simp [Site.recorded, Surroundings.recorded]

theorem Site.recorded_seen : site.recorded.toSurroundings.Seen Prod.fst site.toSurroundings :=
  ⟨fun _ => rfl, fun _ _ => rfl, fun _ _ _ => rfl, fun _ _ _ => rfl, fun _ _ => rfl, fun _ _ => rfl⟩

/-! ## A run does not notice -/

theorem deleteOriginals_recorded (keep files : List String) (u : σ × List Deed) :
    deleteOriginals site keep files u.1
      = Prod.map Prod.fst id (deleteOriginals site.recorded keep files u) := by
  induction files generalizing u with
  | nil => rfl
  | cons path rest ih =>
    rw [deleteOriginals, deleteOriginals]
    split_ifs
    · exact ih u
    · have hunlink : site.recorded.unlink u path =
        (((site.unlink u.1 path).1, u.2 ++ [.unlinked path (site.unlink u.1 path).2]),
          (site.unlink u.1 path).2) := rfl
      rw [hunlink]
      rcases site.unlink u.1 path with ⟨v, _ | cause⟩
      · exact ih (v, u.2 ++ [.unlinked path none])
      · rfl

theorem printReport_recorded (u : σ × List Deed) (merged : Report) :
    printReport site c u.1 merged = (printReport site.recorded c u merged).plain := by
  unfold printReport
  have hfiles : site.recorded.files u = site.files u.1 := rfl
  have hlevels : site.recorded.levels = site.levels := rfl
  rw [hfiles, hlevels]
  dsimp only
  rcases (Allowlists.load site.levels (site.files u.1) (Path.parse c.root) c.allowlists).result with
    _ | _ <;> rfl

theorem result_printReport_recorded (u : σ × List Deed) (merged : Report) :
    (printReport site.recorded c u merged).result = (printReport site c u.1 merged).result := by
  rw [printReport_recorded]
  rfl

/-- A report cannot be printed if the allowlists cannot be loaded. -/
theorem result_printReport (u : σ) (merged : Report) :
    (printReport site c u merged).result = .ok merged ∨ ∃ cause,
      (Allowlists.load site.levels (site.files u) (Path.parse c.root) c.allowlists).result
          = .error cause ∧
        (printReport site c u merged).result = .error (.ofLoad cause) := by
  unfold printReport
  dsimp only
  rcases (Allowlists.load site.levels (site.files u) (Path.parse c.root) c.allowlists).result with
    cause | lists
  · exact .inr ⟨cause, rfl, rfl⟩
  · exact .inl rfl

/-- Printing changes nothing. -/
theorem surroundings_printReport (u : σ) (merged : Report) :
    (printReport site c u merged).surroundings = u := by
  unfold printReport
  dsimp only
  split <;> rfl

theorem concludeRun_recorded (files : List String) (u : σ × List Deed) (merged : Report) :
    concludeRun site c files u.1 merged = (concludeRun site.recorded c files u merged).plain := by
  unfold concludeRun
  split_ifs
  · rw [deleteOriginals_recorded]
    rcases deleteOriginals site.recorded merged.unmigrated files u with ⟨v, _ | e⟩
    · simp only [Prod.map, id, printReport_recorded]
      rfl
    · rfl
  · exact printReport_recorded site c u merged

/-- **A recorded run is a run.** -/
theorem runMigration_recorded (shuffle : List String → List String) (n : Nat)
    (found : Except DiscoveryError (List String)) (u : σ × List Deed) :
    runMigration site c shuffle n found u.1
      = (runMigration site.recorded c shuffle n found u).plain := by
  cases found with
  | error cause => rfl
  | ok files =>
    simp only [runMigration, migrateFiles]
    have hrun := RunState.run_seen site.recorded_seen (.ofConfig c) n
      (RunState.ofFiles u (shuffle files))
    have hstart : (RunState.ofFiles u (shuffle files)).seen Prod.fst
        = RunState.ofFiles u.1 (shuffle files) := rfl
    rw [hstart] at hrun
    rw [hrun]
    rcases (RunState.ofFiles u (shuffle files)).run
      site.recorded.toSurroundings (.ofConfig c) n with
      ⟨_ | cause | _, s⟩
    · simp only [RunState.seen, concludeRun_recorded]
      rfl
    · rfl
    · rfl

/-! ## What is removed -/

/-- **The removals** of the files that are not to be kept, up to the first one
that fails. -/
inductive Deletes (keep : List String) : List String → List Deed → Option RunError → Prop
  | done : Deletes keep [] [] none
  | kept {path : String} {rest : List String} {deeds : List Deed} {e : Option RunError}
      (hkeep : path ∈ keep) (hrest : Deletes keep rest deeds e) :
      Deletes keep (path :: rest) deeds e
  | removed {path : String} {rest : List String} {deeds : List Deed} {e : Option RunError}
      (hkeep : path ∉ keep) (hrest : Deletes keep rest deeds e) :
      Deletes keep (path :: rest) (.unlinked path none :: deeds) e
  | failed {path : String} {rest : List String} {cause : FileError} (hkeep : path ∉ keep) :
      Deletes keep (path :: rest) [.unlinked path (some cause)] (some (.file cause path))

namespace Deletes

variable {keep files : List String} {deeds : List Deed} {e : Option RunError}

/-- What is removed is one of the files, and not one to be kept. -/
theorem of_mem (h : Deletes keep files deeds e) {deed : Deed} (hdeed : deed ∈ deeds) :
    ∃ path failure, deed = .unlinked path failure ∧ path ∈ files ∧ path ∉ keep := by
  induction h with
  | done => exact absurd hdeed List.not_mem_nil
  | kept _ _ ih =>
    obtain ⟨path, failure, hpath, hmem, hkeep⟩ := ih hdeed
    exact ⟨path, failure, hpath, List.mem_cons_of_mem _ hmem, hkeep⟩
  | @removed path rest deeds e hkeep _ ih =>
    rcases List.mem_cons.1 hdeed with rfl | hdeed
    · exact ⟨path, none, rfl, List.mem_cons_self, hkeep⟩
    · obtain ⟨path', failure, hpath, hmem, hkeep'⟩ := ih hdeed
      exact ⟨path', failure, hpath, List.mem_cons_of_mem _ hmem, hkeep'⟩
  | @failed path rest cause hkeep =>
    obtain rfl := List.mem_singleton.1 hdeed
    exact ⟨path, some cause, rfl, List.mem_cons_self, hkeep⟩

/-- A removal that fails is the last one, and it is what went wrong. -/
theorem of_error {cause : RunError} (h : Deletes keep files deeds (some cause)) :
    ∃ earlier path reason, deeds = earlier ++ [.unlinked path (some reason)] ∧
      cause = .file reason path := by
  generalize he : some cause = e at h
  induction h with
  | done => cases he
  | kept _ _ ih => exact ih he
  | removed _ _ ih =>
    obtain ⟨earlier, path, reason, rfl, hcause⟩ := ih he
    exact ⟨_ :: earlier, path, reason, rfl, hcause⟩
  | @failed path rest reason hkeep =>
    obtain rfl := Option.some.inj he
    exact ⟨[], path, reason, rfl, rfl⟩

end Deletes

theorem deletes_deleteOriginals (keep files : List String) (u : σ × List Deed) :
    ∃ deeds, (deleteOriginals site.recorded keep files u).1.2 = u.2 ++ deeds ∧
      Deletes keep files deeds (deleteOriginals site.recorded keep files u).2 := by
  induction files generalizing u with
  | nil => exact ⟨[], (List.append_nil _).symm, .done⟩
  | cons path rest ih =>
    rw [deleteOriginals]
    split_ifs with hkeep
    · obtain ⟨deeds, hlog, hdeletes⟩ := ih u
      exact ⟨deeds, hlog, .kept (by simpa using hkeep) hdeletes⟩
    · have hkeep : path ∉ keep := by simpa using hkeep
      have hunlink : site.recorded.unlink u path =
        (((site.unlink u.1 path).1, u.2 ++ [.unlinked path (site.unlink u.1 path).2]),
          (site.unlink u.1 path).2) := rfl
      rw [hunlink]
      rcases site.unlink u.1 path with ⟨v, _ | cause⟩
      · obtain ⟨deeds, hlog, hdeletes⟩ := ih (v, u.2 ++ [.unlinked path none])
        exact ⟨_, hlog.trans (List.append_assoc ..), .removed hkeep hdeletes⟩
      · exact ⟨_, rfl, .failed hkeep⟩

/-! ## The course of a run -/

/-- The run of the workers over some files, with its calls written down. -/
def dispatched (shuffle : List String → List String) (n : Nat) (files : List String) (u : σ) :
    RunEnd × RunState (σ × List Call) :=
  (RunState.ofFiles (u, []) (shuffle files)).run site.toSurroundings.recorded (.ofConfig c) n

/-- The surroundings that the workers leave behind. -/
def leftBy (s : RunState (σ × List Call)) : σ × List Deed :=
  (s.surroundings.1, s.surroundings.2.map .called)

/-- **The course of a run**: no files are found, or the workers do not come to
an end, or they do. Then nothing is to be deleted, or a removal fails, or all
of them are done. The report is printed where nothing has gone wrong. -/
inductive Course (shuffle : List String → List String) (n : Nat) (u : σ) :
    Except DiscoveryError (List String) → RunResult (σ × List Deed) → Prop
  | notFound {cause : DiscoveryError} {r : RunResult (σ × List Deed)}
      (hleft : r.surroundings = (u, [])) (hresult : r.result = .error (.discovery cause)) :
      Course shuffle n u (.error cause) r
  | broken {files : List String} {r : RunResult (σ × List Deed)} {m : RunEnd}
      {s : RunState (σ × List Call)} {e : RunError}
      (hrun : dispatched site c shuffle n files u = (m, s)) (hleft : r.surroundings = leftBy s)
      (hresult : r.result = .error e) (he : e = .unfinished ∨ ∃ cause, e = .dispatch cause) :
      Course shuffle n u (.ok files) r
  | kept {files : List String} {r : RunResult (σ × List Deed)} {s : RunState (σ × List Call)}
      (hrun : dispatched site c shuffle n files u = (.finished, s))
      (hoff : c.migrate.deleteOriginals = false) (hleft : r.surroundings = leftBy s)
      (hresult : r.result = (printReport site c s.surroundings.1 (Report.merge s.reports)).result) :
      Course shuffle n u (.ok files) r
  | deleting {files : List String} {r : RunResult (σ × List Deed)} {s : RunState (σ × List Call)}
      {deeds : List Deed} {e : RunError}
      (hrun : dispatched site c shuffle n files u = (.finished, s))
      (hon : c.migrate.deleteOriginals = true)
      (hdeletes : Deletes (Report.merge s.reports).unmigrated files deeds (some e))
      (hleft : r.surroundings
        = (deleteOriginals site.recorded (Report.merge s.reports).unmigrated files (leftBy s)).1)
      (hlog : r.surroundings.2 = (leftBy s).2 ++ deeds) (hresult : r.result = .error e) :
      Course shuffle n u (.ok files) r
  | deleted {files : List String} {r : RunResult (σ × List Deed)} {s : RunState (σ × List Call)}
      {deeds : List Deed}
      (hrun : dispatched site c shuffle n files u = (.finished, s))
      (hon : c.migrate.deleteOriginals = true)
      (hdeletes : Deletes (Report.merge s.reports).unmigrated files deeds none)
      (hleft : r.surroundings
        = (deleteOriginals site.recorded (Report.merge s.reports).unmigrated files (leftBy s)).1)
      (hlog : r.surroundings.2 = (leftBy s).2 ++ deeds)
      (hresult : r.result = (printReport site c r.surroundings.1 (Report.merge s.reports)).result) :
      Course shuffle n u (.ok files) r

theorem concludeRun_recorded_of_delete {files : List String} {u : σ × List Deed} {merged : Report}
    (hdelete : c.migrate.deleteOriginals = true) :
    (concludeRun site.recorded c files u merged).surroundings
        = (deleteOriginals site.recorded merged.unmigrated files u).1 ∧
      ∃ deeds, (concludeRun site.recorded c files u merged).surroundings.2 = u.2 ++ deeds ∧
      ((∃ e, Deletes merged.unmigrated files deeds (some e) ∧
          (concludeRun site.recorded c files u merged).result = .error e) ∨
        (Deletes merged.unmigrated files deeds none ∧
          (concludeRun site.recorded c files u merged).result =
            (printReport site c (concludeRun site.recorded c files u merged).surroundings.1
              merged).result)) := by
  obtain ⟨deeds, hlog, hdeletes⟩ := deletes_deleteOriginals site merged.unmigrated files u
  rw [concludeRun, if_pos hdelete]
  rcases hrest : deleteOriginals site.recorded merged.unmigrated files u with ⟨v, _ | e⟩
  · rw [hrest] at hlog hdeletes
    refine ⟨?_, deeds, ?_, .inr ⟨hdeletes, ?_⟩⟩
    · simp only [RunResult.after, surroundings_printReport]
    · simp only [RunResult.after, surroundings_printReport]
      exact hlog
    · simp only [RunResult.after, surroundings_printReport, result_printReport_recorded]
  · rw [hrest] at hlog hdeletes
    exact ⟨rfl, deeds, hlog, .inl ⟨e, hdeletes, rfl⟩⟩

/-- **Every run takes one of these courses.** -/
theorem course_runMigration (shuffle : List String → List String) (n : Nat)
    (found : Except DiscoveryError (List String)) (u : σ) :
    Course site c shuffle n u found (runMigration site.recorded c shuffle n found (u, [])) := by
  cases found with
  | error cause => exact .notFound rfl rfl
  | ok files =>
    have hrun := RunState.run_seen site.calls_seen (.ofConfig c) n
      (RunState.ofFiles (u, []) (shuffle files))
    have hstart : (RunState.ofFiles ((u, []) : σ × List Call) (shuffle files)).seen
        (fun u => (u.1, u.2.map Deed.called)) = RunState.ofFiles (u, []) (shuffle files) := rfl
    rw [hstart] at hrun
    simp only [runMigration, migrateFiles, hrun]
    rcases hm : dispatched site c shuffle n files u with ⟨m, s⟩
    rw [dispatched] at hm
    simp only [hm]
    cases m with
    | failed cause => exact .broken hm rfl rfl (.inr ⟨cause, rfl⟩)
    | unfinished => exact .broken hm rfl rfl (.inl rfl)
    | finished =>
      cases hdelete : c.migrate.deleteOriginals with
      | false =>
        have hconclude : concludeRun site.recorded c files (leftBy s) (Report.merge s.reports)
            = printReport site.recorded c (leftBy s) (Report.merge s.reports) := by
          rw [concludeRun, hdelete, if_neg Bool.false_ne_true]
        refine .kept hm hdelete ?_ ?_
        · exact (congrArg RunResult.surroundings hconclude).trans (surroundings_printReport ..)
        · exact (congrArg RunResult.result hconclude).trans (result_printReport_recorded ..)
      | true =>
        obtain ⟨hleft, deeds, hlog, ⟨e, hdeletes, hresult⟩ | ⟨hdeletes, hresult⟩⟩ :=
          concludeRun_recorded_of_delete site c hdelete
        · exact .deleting hm hdelete hdeletes hleft hlog hresult
        · exact .deleted hm hdelete hdeletes hleft hlog hresult

/-! ## Allowlists that cannot be loaded -/

/-- Why a table of allowlists cannot be loaded: it names a file for a category that cannot
be read, or gives a category a list with an entry that cannot be written out. -/
inductive Allowlists.Fault (levels : Nat) (files : Files) (root : Path) (t : Table) :
    LoadError → Prop
  | file {key name : String} {category : Category} {cause : FileError} {path : String}
      (mem : (key, .text name) ∈ t) (known : Category.ofName? key = some category)
      (unread : entriesOfFile files (root.join (Path.parse name)) = .error (.file cause path)) :
      Fault levels files root t (.file cause path)
  | entry {key : String} {category : Category} {items : List Setting} {item : Setting}
      {cause : ConfigError} (mem : (key, .list items) ∈ t)
      (known : Category.ofName? key = some category) (item_mem : item ∈ items)
      (unshown : item.unshown? levels = some cause) : Fault levels files root t (.entry cause)

theorem Allowlists.Fault.cons {levels : Nat} {files : Files} {root : Path} {t : Table}
    {cause : LoadError} (row : String × Setting) (h : Fault levels files root t cause) :
    Fault levels files root (row :: t) cause := by
  cases h with
  | file mem known unread => exact .file (List.mem_cons_of_mem _ mem) known unread
  | entry mem known hitem unshown => exact .entry (List.mem_cons_of_mem _ mem) known hitem unshown

theorem unlinked_not_mem_leftBy (s : RunState (σ × List Call)) (path : String)
    (failure : Option FileError) : .unlinked path failure ∉ (leftBy s).2 := by
  simp [leftBy]

section
variable {site c}
variable {shuffle : List String → List String} {n : Nat} {u : σ}
variable {found : Except DiscoveryError (List String)} {r : RunResult (σ × List Deed)}

/-- A run that is not to delete removes nothing. -/
theorem Course.unlinked_not_mem_of_off (h : Course site c shuffle n u found r)
    (hoff : c.migrate.deleteOriginals = false) (path : String) (failure : Option FileError) :
    .unlinked path failure ∉ r.surroundings.2 := by
  cases h with
  | notFound hleft => simp [hleft]
  | broken _ hleft | kept _ _ hleft =>
    rw [hleft]
    exact unlinked_not_mem_leftBy _ path failure
  | deleting _ hon | deleted _ hon => exact absurd (hon.symm.trans hoff) (by decide)

/-- **What is removed was found and migrated**, and the workers had come to their end. -/
theorem Course.dispatched_of_unlinked (h : Course site c shuffle n u found r) {path : String}
    {failure : Option FileError} (hmem : .unlinked path failure ∈ r.surroundings.2) :
    ∃ files s, found = .ok files ∧ dispatched site c shuffle n files u = (.finished, s) ∧
      path ∈ files ∧ path ∉ (Report.merge s.reports).unmigrated ∧ r.surroundings =
        (deleteOriginals site.recorded (Report.merge s.reports).unmigrated files (leftBy s)).1 := by
  cases h with
  | notFound hleft => exact absurd (hleft ▸ hmem) List.not_mem_nil
  | @broken _ _ _ s _ _ hleft | @kept _ _ s _ _ hleft =>
    exact absurd (hleft ▸ hmem) (unlinked_not_mem_leftBy s path failure)
  | @deleting files _ s _ _ hrun _ hdeletes hleft hlog
  | @deleted files _ s _ hrun _ hdeletes hleft hlog =>
    rw [hlog] at hmem
    have hdeed := (List.mem_append.1 hmem).resolve_left (unlinked_not_mem_leftBy s path failure)
    obtain ⟨path', failure', heq, hpath, hmigrated⟩ := hdeletes.of_mem hdeed
    obtain ⟨rfl, rfl⟩ := Deed.unlinked.inj heq
    exact ⟨files, s, rfl, hrun, hpath, hmigrated, hleft⟩

/-- **How a run can fail**: before anything is removed, by a removal, or when
everything is removed and the allowlists cannot be loaded. -/
theorem Course.failure (h : Course site c shuffle n u found r) {e : RunError}
    (he : r.result = .error e) :
    (∀ path failure, .unlinked path failure ∉ r.surroundings.2) ∨
      (∃ earlier path cause, r.surroundings.2 = earlier ++ [.unlinked path (some cause)] ∧
        e = .file cause path) ∨
      (∃ cause, e = .ofLoad cause ∧
        (Allowlists.load site.levels (site.files r.surroundings.1) (Path.parse c.root)
          c.allowlists).result = .error cause) := by
  cases h with
  | notFound hleft => exact .inl fun path failure => by simp [hleft]
  | broken _ hleft | kept _ _ hleft =>
    refine .inl fun path failure => ?_
    rw [hleft]
    exact unlinked_not_mem_leftBy _ path failure
  | @deleting _ _ s _ _ _ _ hdeletes _ hlog hresult =>
    obtain ⟨earlier, path, reason, hdeeds, hcause⟩ := hdeletes.of_error
    obtain rfl := Except.error.inj (hresult.symm.trans he)
    refine .inr (.inl ⟨(leftBy s).2 ++ earlier, path, reason, ?_, hcause⟩)
    rw [hlog, hdeeds, List.append_assoc]
  | @deleted _ _ s _ _ _ hdeletes _ hlog hresult =>
    rcases result_printReport site c r.surroundings.1 (Report.merge s.reports) with
      hok | ⟨cause, hload, herror⟩
    · cases (hresult.trans hok).symm.trans he
    · obtain rfl := Except.error.inj ((hresult.trans herror).symm.trans he)
      exact .inr (.inr ⟨cause, rfl, hload⟩)

end

/-! ## Only what was migrated is removed -/

theorem callsIn_map_called (log : List Call) : callsIn (log.map .called) = log := by
  rw [callsIn, List.filterMap_map]
  exact List.filterMap_some

theorem callsIn_append (log log' : List Deed) :
    callsIn (log ++ log') = callsIn log ++ callsIn log' :=
  List.filterMap_append ..

theorem callsIn_eq_nil {deeds : List Deed}
    (h : ∀ deed ∈ deeds, ∃ path failure, deed = .unlinked path failure) : callsIn deeds = [] := by
  rw [callsIn, List.filterMap_eq_nil_iff]
  intro deed hdeed
  obtain ⟨path, failure, rfl⟩ := h deed hdeed
  rfl

/-- Where a file is removed, all calls have been made, and none comes after. -/
theorem calls_of_unlinked {s : RunState (σ × List Call)} {before after deeds : List Deed}
    {path : String} {failure : Option FileError}
    (hsplit : (leftBy s).2 ++ deeds = before ++ .unlinked path failure :: after)
    (hdeeds : ∀ deed ∈ deeds, ∃ path failure, deed = .unlinked path failure) :
    .unlinked path failure ∈ deeds ∧ callsIn before = s.surroundings.2 ∧ callsIn after = [] := by
  rcases List.append_eq_append_iff.1 hsplit with ⟨more, rfl, rfl⟩ | ⟨more, hmore, hdeeds'⟩
  · refine ⟨List.mem_append_right _ List.mem_cons_self, ?_, ?_⟩
    · rw [callsIn_append, leftBy, callsIn_map_called,
        callsIn_eq_nil fun deed hdeed =>
          hdeeds deed (List.mem_append_left _ hdeed), List.append_nil]
    · exact callsIn_eq_nil fun deed hdeed =>
        hdeeds deed (List.mem_append_right _ (List.mem_cons_of_mem _ hdeed))
  · -- the removal is none of the calls
    cases more with
    | nil =>
      rw [List.append_nil] at hmore
      rw [List.nil_append] at hdeeds'
      rw [← hdeeds'] at hdeeds
      refine ⟨hdeeds' ▸ List.mem_cons_self, ?_, ?_⟩
      · rw [← hmore, leftBy, callsIn_map_called]
      · exact callsIn_eq_nil fun deed hdeed => hdeeds deed (List.mem_cons_of_mem _ hdeed)
    | cons deed more =>
      obtain rfl := (List.cons.inj hdeeds').1
      refine absurd ?_ (unlinked_not_mem_leftBy s path failure)
      rw [hmore]
      exact List.mem_append_right _ List.mem_cons_self

/-- **What holds where a file is removed**, in terms of what was done before
and after. -/
structure Removed (found : Except DiscoveryError (List String)) (path : String)
    (before after : List Deed) : Prop where
  /-- The file was found. -/
  found : ∃ files, found = .ok files ∧ path ∈ files
  /-- It was in a batch that its worker has answered. -/
  acknowledged : ∃ batch, path ∈ batch ∧ Acknowledged (callsIn before) batch
  /-- Every worker that was spawned has said the whole pattern and reported. -/
  reported : ∀ number ∈ spawnedIn (callsIn before),
    (∃ k, beats (transcript number (callsIn before)) = pattern (k + 1)) ∧
      ∃ report, (number, report) ∈ reportsIn (callsIn before)
  /-- No report says that the file was left alone. -/
  migrated : ∀ number report, (number, report) ∈ reportsIn (callsIn before) →
    path ∉ report.files .failedFiles ∧ path ∉ report.files .skippedLargeFiles
  /-- Nobody is called any more. -/
  quiet : callsIn after = []

variable {site c}

theorem removed_of_deletes {shuffle : List String → List String}
    (hshuffle : ∀ files, (shuffle files).Perm files) (hworkers : 1 ≤ c.migrate.workers)
    (hbatch : 1 ≤ c.migrate.batchSize) {n : Nat} {files : List String} {u : σ}
    {s : RunState (σ × List Call)} {before after deeds : List Deed} {path : String}
    {failure : Option FileError} {e : Option RunError}
    (hrun : dispatched site c shuffle n files u = (.finished, s))
    (hdeletes : Deletes (Report.merge s.reports).unmigrated files deeds e)
    (hsplit : (leftBy s).2 ++ deeds = before ++ .unlinked path failure :: after) :
    Removed (.ok files) path before after := by
  have hsize : 1 ≤ (Dispatch.Settings.ofConfig c).batchSize := by
    simp only [Dispatch.Settings.ofConfig]
    omega
  have hcompleted := Dispatch.completed_of_finished (o := .ofConfig c) site.toSurroundings
    (hshuffle files) hworkers hsize (u := u) (congrArg Prod.fst hrun)
  have hstate : (RunState.ofFiles (u, []) (shuffle files)).run site.toSurroundings.recorded
      (.ofConfig c) n = (.finished, s) := hrun
  rw [hstate] at hcompleted
  obtain ⟨hmem, hbefore, hafter⟩ := calls_of_unlinked hsplit fun deed hdeed => by
    obtain ⟨path, failure, hdeed, -⟩ := hdeletes.of_mem hdeed
    exact ⟨path, failure, hdeed⟩
  obtain ⟨path', failure', heq, hfile, hkeep⟩ := hdeletes.of_mem hmem
  obtain ⟨rfl, rfl⟩ := Deed.unlinked.inj heq
  rw [Report.unmigrated, List.mem_append, not_or, Report.mem_files_merge, Report.mem_files_merge]
    at hkeep
  refine ⟨⟨files, rfl, hfile⟩, ?_, ?_, ?_, hafter⟩
  · rw [hbefore]
    exact hcompleted.acknowledged path hfile
  · rw [hbefore]
    exact fun number hnumber =>
      ⟨hcompleted.sessions number hnumber, hcompleted.reported number hnumber⟩
  · rw [hbefore]
    intro number report hreport
    have hreport : report ∈ s.reports := by
      rw [← hcompleted.reports]
      exact List.mem_map_of_mem hreport
    exact ⟨fun h => hkeep.1 ⟨report, hreport, h⟩, fun h => hkeep.2 ⟨report, hreport, h⟩⟩

variable (site c)

/-- **Only what was migrated is removed.** Let the workers do what they like.
Where a run removes a file, or tries to, the file was found, it was in a batch
that was answered by asking for the next one, every worker that was spawned
has reported before, and no report names the file among the failed or the
large ones. A run whose workers break off or do not come to an end removes
nothing, and neither does one that is not to delete. -/
theorem deletes_only_migrated {shuffle : List String → List String}
    (hshuffle : ∀ files, (shuffle files).Perm files) (hworkers : 1 ≤ c.migrate.workers)
    (hbatch : 1 ≤ c.migrate.batchSize) (n : Nat) (found : Except DiscoveryError (List String))
    (u : σ) {r : RunResult (σ × List Deed)}
    (hr : runMigration site.recorded c shuffle n found (u, []) = r) :
    r.plain = runMigration site c shuffle n found u ∧
      (∀ before path failure after, r.surroundings.2 = before ++ .unlinked path failure :: after →
        Removed found path before after) ∧
      ((∃ cause, r.result = .error (.dispatch cause)) ∨ r.result = .error .unfinished ∨
          c.migrate.deleteOriginals = false →
        ∀ path failure, .unlinked path failure ∉ r.surroundings.2) := by
  have hcourse := course_runMigration site c shuffle n found u
  rw [hr] at hcourse
  refine ⟨?_, fun before path failure after hsplit => ?_, fun hstop path failure => ?_⟩
  · rw [← hr]
    exact (runMigration_recorded site c shuffle n found (u, [])).symm
  · cases hcourse with
    | notFound hleft => rw [hleft] at hsplit; exact absurd hsplit (by simp)
    | @broken _ _ _ s _ _ hleft | @kept _ _ s _ _ hleft =>
      refine absurd ?_ (unlinked_not_mem_leftBy s path failure)
      rw [← hleft, hsplit]
      exact List.mem_append_right _ List.mem_cons_self
    | deleting hrun hon hdeletes _ hlog | deleted hrun hon hdeletes _ hlog =>
      exact removed_of_deletes hshuffle hworkers hbatch hrun hdeletes (hlog.symm.trans hsplit)
  · rcases hstop with ⟨cause, he⟩ | he | hoff
    · rcases hcourse.failure he with hnone | ⟨_, _, _, -, heq⟩ | ⟨_ | _, heq, -⟩
      · exact hnone path failure
      all_goals cases heq
    · rcases hcourse.failure he with hnone | ⟨_, _, _, -, heq⟩ | ⟨_ | _, heq, -⟩
      · exact hnone path failure
      all_goals cases heq
    · exact hcourse.unlinked_not_mem_of_off hoff path failure

/-- The tree of an empty program. -/
def Json.emptyProgram : Json :=
  .obj [("type", .str "File"),
    ("program", .obj [("type", .str "Program"), ("body", .arr [])])]

/-- Surroundings in which one file is listed, and every text is read as the
empty program, which is printed as one statement. -/
def Environment.sample : Environment where
  cwd := "/r"
  processors := some 1
  bridgeScript := "bridge.js"
  react _ _ _ request :=
    if request.hasText "op" "parse" then ⟨none, none, .ok (some (.obj [("tree", .emptyProgram)]))⟩
    else ⟨none, none, .ok (some (.obj [("code", .str "1;\n")]))⟩
  check _ _ _ _ := .notStarted ""
  nesting := ⟨8, 8⟩
  listing _ := .exited [Utf8.encode "a.js\x00"] 0 []
  shuffle := id

/-- The configuration at its root, with some allowlists. -/
def Config.sample (allowlists : Table) : Config where
  root := "/r"
  migrate := defaultMigrate (some 1)
  inference := defaultInference
  bridgeCommand := ["node"]
  printer := defaultPrinter
  allowlists := allowlists
  configPath := none

/-- The file at its root. -/
def Files.sample : Files := .ofList [(["r", "a.js"], Utf8.encode "0;\n")]

/-- The recorded run over it. -/
def sampleRun (allowlists : Table) : RunResult (Fleet × List Deed) :=
  runMigration (Command.fleetSite .sample .atOnce "/r" none).recorded (.sample allowlists) id 4
    (.ok ["/r/a.js"]) (.ofFiles .sample, [])

/-- What is removed, and why that fails, if it does. -/
def removalsIn (log : List Deed) : List (String × Option FileError) :=
  log.filterMap fun
    | .unlinked path failure => some (path, failure)
    | _ => none

theorem mem_removalsIn {log : List Deed} {path : String} {failure : Option FileError} :
    (path, failure) ∈ removalsIn log ↔ .unlinked path failure ∈ log := by
  refine ⟨fun h => ?_, fun h => List.mem_filterMap.2 ⟨_, h, rfl⟩⟩
  obtain ⟨deed, hdeed, hpath⟩ := List.mem_filterMap.1 h
  cases deed with
  | called call => cases hpath
  | unlinked path' failure' =>
    obtain ⟨rfl, rfl⟩ := Prod.mk.inj (Option.some.inj hpath)
    exact hdeed

/-- The one file is removed. -/
theorem deletes_only_migrated_sample :
    removalsIn (sampleRun []).surroundings.2 = [("/r/a.js", none)] ∧
    ∀ before path failure after,
      (sampleRun []).surroundings.2 = before ++ .unlinked path failure :: after →
        Removed (.ok ["/r/a.js"]) path before after := by
  have hshuffle : ∀ files : List String, (id files).Perm files := fun files => .refl files
  have hsample := deletes_only_migrated (Command.fleetSite .sample .atOnce "/r" none) (.sample [])
    hshuffle (by decide +kernel) (by decide +kernel) 4 (.ok ["/r/a.js"]) (.ofFiles .sample)
    (r := sampleRun []) rfl
  exact ⟨by decide +kernel, hsample.2.1⟩

end Retype
