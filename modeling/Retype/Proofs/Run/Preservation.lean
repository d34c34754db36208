import Retype.Proofs.Batch.Apart
import Retype.Proofs.Run.Deletion
import Retype.Proofs.Run.Fleet
/-!
# What a run preserves

If no file is written where a source stands, and no two files are written to one
place, then each file that a run removes has its own text at its target
(`removed_stand_at_target`): the workers have written what they report as migrated,
nothing is written over it, and only sources are removed. Else a text may be lost
(`migrated_text_lost`).
-/

namespace Retype

open Discovery (IsFound filesOf)
open Batch (Apart Ending Endings MigratedFile Prospect filesAfter suffixOf targetPath?)
open Dispatch (Call sentTo heardFrom)

/-! ## What is written stays -/

namespace Batch

/-- What was written for a file was written for it a last time. -/
theorem exists_last_written {ends : List (String × Ending)} {path : String} {m : MigratedFile}
    (hmem : (path, .written m) ∈ ends) : ∃ before m after,
      ends = before ++ (path, .written m) :: after ∧ ∀ m', (path, .written m') ∉ after := by
  induction ends using List.reverseRecOn with
  | nil => exact absurd hmem List.not_mem_nil
  | append_singleton ends last ih =>
    by_cases hlast : ∃ m, last = (path, .written m)
    · obtain ⟨m', rfl⟩ := hlast
      exact ⟨ends, m', [], rfl, fun _ => List.not_mem_nil⟩
    · have hmem := (List.mem_append.1 hmem).resolve_right fun h =>
        hlast ⟨m, (List.mem_singleton.1 h).symm⟩
      obtain ⟨before, m', after, rfl, hafter⟩ := ih hmem
      refine ⟨before, m', after ++ [last], by simp, fun m'' h => ?_⟩
      rcases List.mem_append.1 h with h | h
      · exact hafter m'' h
      · exact hlast ⟨m'', (List.mem_singleton.1 h).symm⟩

/-- **Files that are written apart**: none of them where a source stands, and no two to
one place. -/
structure WrittenApart (paths : List String) (W : String → MigratedFile → Prop) : Prop where
  sources : ∀ path m, W path m → ∀ source ∈ paths,
    (Path.parse source).parts ≠ (Path.parse m.target).parts
  targets : ∀ path m other m', W path m → W other m' →
    (Path.parse m.target).parts = (Path.parse m'.target).parts → path = other

/-- Sources that stand apart are written apart. -/
theorem Apart.writtenApart {paths : List String}
    {W : String → MigratedFile → Prop} (h : Apart paths)
    (hW : ∀ path m, W path m → path ∈ paths ∧ ∃ hasJsx, targetPath? path hasJsx = some m.target) :
    WrittenApart paths W where
  sources path m hm source hsource := by
    obtain ⟨-, hasJsx, htarget⟩ := hW path m hm
    exact h.ne_source htarget hsource
  targets path m other m' hm hm' hparts := by
    obtain ⟨hpath, hasJsx, htarget⟩ := hW path m hm
    obtain ⟨hother, hasJsx', htarget'⟩ := hW other m' hm'
    exact h.eq_of_target hpath htarget hother htarget' hparts

section
variable {C : Prospect} {files : Files} {ends : List (String × Ending)} {paths : List String}
  {path : String} {m : MigratedFile} (h : Endings C files ends)
  (htarget : ∀ F path m, C F path (.written m) → ∃ hasJsx, targetPath? path hasJsx = some m.target)
include h htarget

/-- Each file is written to a target of its own source. -/
theorem Endings.target (hmem : (path, .written m) ∈ ends) :
    ∃ hasJsx, targetPath? path hasJsx = some m.target := by
  obtain ⟨before, after, rfl⟩ := List.append_of_mem hmem
  exact htarget _ _ _ (h.split rfl).1

variable (hnormal : ∀ path ∈ paths, (Path.parse path).IsNormal)
  (hpaths : ∀ path ending, (path, ending) ∈ ends → path ∈ paths)
  (hapart : WrittenApart paths fun path m => (path, .written m) ∈ ends)
include hnormal hpaths

theorem Endings.isNormal_target (hmem : (path, .written m) ∈ ends) :
    (Path.parse m.target).IsNormal := by
  obtain ⟨hasJsx, hsome⟩ := h.target htarget hmem
  exact Batch.isNormal_target hsome (hnormal path (hpaths path _ hmem))

include hapart

/-- No source is written over. -/
theorem Endings.not_covers (hpath : path ∈ paths) {other : String}
    (hmem : (other, .written m) ∈ ends) : ¬ m.Covers files path := by
  rintro ⟨place, hplace, hplace'⟩
  refine hapart.sources other m hmem path hpath ?_
  rw [← Files.resolve_eq (hnormal path hpath) hplace',
    ← Files.resolve_eq (h.isNormal_target htarget hnormal hpaths hmem) hplace]

/-- **What is written last for a file stands at its target in the end.** -/
theorem Endings.stands (hmem : (path, .written m) ∈ ends) : ∃ m, (path, .written m) ∈ ends ∧
    (filesAfter files ends).read (Path.parse m.target) = .ok (Utf8.encode m.text) := by
  obtain ⟨before, m, after, rfl, hlast⟩ := exists_last_written hmem
  have hmem : (path, .written m) ∈ before ++ (path, .written m) :: after :=
    List.mem_append_right _ List.mem_cons_self
  have hread := h.read_written rfl
  refine ⟨m, hmem, ?_⟩
  rw [← List.singleton_append, ← List.append_assoc, Batch.filesAfter_append]
  refine (Batch.filesAfter_differOnlyAt _ after).read
    (h.isNormal_target htarget hnormal hpaths hmem) ?_ hread
  -- what comes after it is written for other files, and so elsewhere
  rintro ⟨other, m', hafter, hplace⟩
  have hmem' : (other, .written m') ∈ before ++ (path, .written m) :: after :=
    List.mem_append_right _ (List.mem_cons_of_mem _ hafter)
  have hparts := Files.resolve_eq (h.isNormal_target htarget hnormal hpaths hmem') hplace
  obtain rfl := hapart.targets path m other m' hmem hmem' hparts
  exact hlast m' hafter

end

end Batch

/-! ## What removing leaves -/

/-- **Removing sources** changes nothing else, and none of the workers. -/
theorem deleteOriginals_leaves {e : Environment} {pace : Fleet.Pace} {root : String}
    {configPath : Option String} {keep paths : List String}
    (hnormal : ∀ path ∈ paths, (Path.parse path).IsNormal) {u v : Fleet × List Deed}
    (hv : (deleteOriginals (Command.fleetSite e pace root configPath).recorded
      keep paths u).1 = v) :
    v.1.workers = u.1.workers ∧ Files.DifferOnlyAt
      (fun place => ∃ source ∈ paths, place = (Path.parse source).parts) u.1.files v.1.files := by
  induction paths generalizing u with
  | nil => exact hv ▸ ⟨rfl, .refl _ _⟩
  | cons path rest ih =>
    obtain ⟨hpath, hrest⟩ := List.forall_mem_cons.1 hnormal
    have hmore {fs fs' : Files} (h : Files.DifferOnlyAt
        (fun place => ∃ source ∈ rest, place = (Path.parse source).parts) fs fs') :
        Files.DifferOnlyAt
          (fun place => ∃ source ∈ path :: rest, place = (Path.parse source).parts) fs fs' :=
      h.mono fun place ⟨source, hsource, hplace⟩ =>
        ⟨source, List.mem_cons_of_mem _ hsource, hplace⟩
    rw [deleteOriginals] at hv
    split_ifs at hv
    · exact (ih hrest hv).imp_right hmore
    · cases hremove : u.1.files.remove (Path.parse path) with
      | error cause =>
        have hunlink : (Command.fleetSite e pace root configPath).recorded.unlink u path
            = ((u.1, u.2 ++ [.unlinked path (some cause)]), some cause) := by
          simp [Site.recorded, Command.fleetSite, hremove]
        rw [hunlink] at hv
        exact hv ▸ ⟨rfl, .refl _ _⟩
      | ok files =>
        have hunlink : (Command.fleetSite e pace root configPath).recorded.unlink u path
            = (({ u.1 with files := files }, u.2 ++ [.unlinked path none]), none) := by
          simp [Site.recorded, Command.fleetSite, hremove]
        rw [hunlink] at hv
        obtain ⟨hworkers, hfiles⟩ := ih hrest hv
        have hremoved := (Files.remove_normal hpath hremove).mono fun place hplace =>
          (⟨path, List.mem_cons_self, hplace⟩ :
            ∃ source ∈ path :: rest, place = (Path.parse source).parts)
        exact ⟨hworkers, hremoved.trans (hmore hfiles)⟩

/-! ## Where removed files stand -/

/-- Whether a worker of a fleet has written a file. -/
def Fleet.Wrote (f : Fleet) (path : String) (m : MigratedFile) : Prop :=
  ∃ number p, f.workers.lookup number = some p ∧ (path, .written m) ∈ p.loop.past

/-- **Where the text of a file stands**: a worker has migrated the file as it comes to
by itself, given the replies to this worker, and the text stands at the target that was
chosen, where neither a source nor the text of another file is. -/
structure StandsAtTarget (T : Nat → Batch.Toolchain → Prop) (files : Files) (paths : List String)
    (f : Fleet) (path : String) (number : Nat) (p : WorkerProcess) (m : MigratedFile) : Prop where
  worker : f.workers.lookup number = some p
  written : (path, .written m) ∈ p.loop.past
  comes : ∃ t, T number t ∧ t.ComesTo (p.loop.talk.since .none) files path (.written m)
  target : ∃ hasJsx, targetPath? path hasJsx = some m.target
  stands : f.files.read (Path.parse m.target) = .ok (Utf8.encode m.text)
  ne_source : ∀ source ∈ paths, (Path.parse source).parts ≠ (Path.parse m.target).parts
  ne_target : ∀ other m', f.Wrote other m' →
    (Path.parse m.target).parts = (Path.parse m'.target).parts → path = other

namespace Fleet

variable {T : Nat → Batch.Toolchain → Prop} {files : Files} {log : List Call} {f f' : Fleet}
  {ends : List (String × Ending)} {paths : List String} {path : String} {m : MigratedFile}

theorem Brings.target {F : Files → Prop} (h : f.Brings T F path (.written m)) :
    ∃ hasJsx, targetPath? path hasJsx = some m.target := by
  obtain ⟨_, _, _, -, -, -, hcomes⟩ := h
  obtain ⟨_, -, hcomes⟩ := hcomes
  exact hcomes.target

section
variable (h : f.Told T files log ends)
include h

theorem Told.wrote_iff : f.Wrote path m ↔ (path, .written m) ∈ ends := by
  refine ⟨fun ⟨number, p, hp, hpast⟩ => (h.works number p hp).recorded hpast, fun hmem => ?_⟩
  obtain ⟨before, after, hsplit⟩ := List.append_of_mem hmem
  obtain ⟨number, p, _, hp, -, hpast, -⟩ := (h.endings.split hsplit).1
  exact ⟨number, p, hp, hpast⟩

theorem Told.target (hwrote : f.Wrote path m) : ∃ hasJsx, targetPath? path hasJsx = some m.target :=
  h.endings.target (fun _ _ _ => Brings.target) (h.wrote_iff.1 hwrote)

variable (hsent : ∀ number, ∀ path ∈ entriesIn (sentTo number log), path ∈ paths)
include hsent

/-- Whatever is over was sent to somebody. -/
theorem Told.mem_paths (path : String) (ending : Ending) (hmem : (path, ending) ∈ ends) :
    path ∈ paths := by
  obtain ⟨before, after, hsplit⟩ := List.append_of_mem hmem
  obtain ⟨number, p, _, hp, -, hpast, -⟩ := (h.endings.split hsplit).1
  exact hsent number path ((h.works number p hp).asked path (List.mem_map_of_mem hpast))

/-- Sources that stand apart are written apart by a fleet. -/
theorem Told.writtenApart (hapart : Apart paths) : Batch.WrittenApart paths f.Wrote :=
  hapart.writtenApart fun path _ hwrote =>
    ⟨h.mem_paths hsent path _ (h.wrote_iff.1 hwrote), h.target hwrote⟩

/-- **A file that a worker has written stands at its target**, if the files are written
apart. -/
theorem Told.standsAtTarget (hnormal : ∀ path ∈ paths, (Path.parse path).IsNormal)
    (hapart : Batch.WrittenApart paths f.Wrote) (hwrote : f.Wrote path m) :
    ∃ number p m, StandsAtTarget T files paths f path number p m := by
  have htarget : ∀ F path m, f.Brings T F path (.written m) →
      ∃ hasJsx, targetPath? path hasJsx = some m.target := fun _ _ _ => Brings.target
  have hends : Batch.WrittenApart paths fun path m => (path, .written m) ∈ ends := by
    have hsame : f.Wrote = fun path m => (path, .written m) ∈ ends := by
      funext path _
      exact propext h.wrote_iff
    exact hsame ▸ hapart
  have hpaths := h.mem_paths hsent
  obtain ⟨m, hmem, hstands⟩ := h.endings.stands htarget hnormal hpaths hends (h.wrote_iff.1 hwrote)
  have hwrote := h.wrote_iff.2 hmem
  -- the worker that has written it last
  obtain ⟨before, after, hsplit⟩ := List.append_of_mem hmem
  obtain ⟨number, p, t, hp, htools, hwritten, hcomes⟩ := (h.endings.split hsplit).1
  obtain ⟨ending, hown, houtcome⟩ := hcomes.own fun other m' hbefore =>
    h.endings.not_covers htarget hnormal hpaths hends (hpaths path _ hmem)
      (hsplit ▸ List.mem_append_left _ hbefore)
  have hending : ending = .written m := by
    cases ending with
    | written m' => rw [Batch.Outcome.migrated.inj houtcome]
    | skipped | failed => cases houtcome
  exact ⟨number, p, m, hp, hwritten, ⟨t, htools, hending ▸ hown⟩, h.target hwrote,
    h.disk ▸ hstands, hapart.sources path m hwrote,
    fun other m' hwrote' => hapart.targets path m other m' hwrote hwrote'⟩

end

/-- What was written depends on the workers alone. -/
theorem wrote_congr (hworkers : f'.workers = f.workers) : f'.Wrote = f.Wrote := by
  funext path m
  rw [Wrote, Wrote, hworkers]

end Fleet

/-- **What stands at a target stays** when sources are removed. -/
theorem StandsAtTarget.leaves {T : Nat → Batch.Toolchain → Prop} {files : Files}
    {paths : List String} {f f' : Fleet} {path : String} {number : Nat} {p : WorkerProcess}
    {m : MigratedFile} (h : StandsAtTarget T files paths f path number p m)
    (hnormal : (Path.parse path).IsNormal) (hworkers : f'.workers = f.workers)
    (hfiles : Files.DifferOnlyAt
      (fun place => ∃ source ∈ paths, place = (Path.parse source).parts) f.files f'.files) :
    StandsAtTarget T files paths f' path number p m := by
  obtain ⟨hasJsx, hsome⟩ := h.target
  refine { h with
    worker := hworkers ▸ h.worker
    stands := hfiles.read (Batch.isNormal_target hsome hnormal) ?_ h.stands
    ne_target := fun other m' hwrote => h.ne_target other m' (Fleet.wrote_congr hworkers ▸ hwrote) }
  rintro ⟨source, hsource, hparts⟩
  exact h.ne_source source hsource hparts.symm

section
variable (e : Environment) {pace : Fleet.Pace} {root : String} {configPath : Option String}
  (c : Config) {shuffle : List String → List String} {paths : List String} (files : Files)

/-- **What the workers have done when they have come to their end**: everything that was
sent is told of, and every file that no report names was written. -/
theorem wrote_of_dispatched (hpace : pace.Follows) (hshuffle : ∀ files, (shuffle files).Perm files)
    (hworkers : 1 ≤ c.migrate.workers) (hbatch : 1 ≤ c.migrate.batchSize) {n : Nat}
    {s : Dispatch.RunState (Fleet × List Call)}
    (hrun : dispatched (Command.fleetSite e pace root configPath) c shuffle n paths (.ofFiles files)
      = (.finished, s)) :
    ∃ ends, s.surroundings.1.Told (e.Equips root configPath) files s.surroundings.2 ends ∧
      (∀ number, ∀ path ∈ entriesIn (sentTo number s.surroundings.2), path ∈ paths) ∧
      ∀ path ∈ paths, path ∉ (Report.merge s.reports).unmigrated →
        ∃ m, s.surroundings.1.Wrote path m := by
  have hsize : 1 ≤ (Dispatch.Settings.ofConfig c).batchSize := by
    simp only [Dispatch.Settings.ofConfig]
    omega
  have hcompleted := Dispatch.completed_of_finished (o := .ofConfig c)
    (Fleet.surroundings e pace root configPath) (hshuffle paths) hworkers hsize
    (u := .ofFiles files) (congrArg Prod.fst hrun)
  have hstate : ((Dispatch.RunState.ofFiles (.ofFiles files, []) (shuffle paths)).run
      (Fleet.surroundings e pace root configPath).recorded (.ofConfig c) n).2 = s :=
    congrArg Prod.snd hrun
  rw [hstate] at hcompleted
  obtain ⟨ends, htold⟩ := Fleet.told_of_run e hpace root configPath files _ n _ hstate
    hcompleted.inOrder
  refine ⟨ends, htold, fun number path hpath => ?_, fun path hpath hmigrated => ?_⟩
  · obtain ⟨batch, hsent, hmem⟩ := mem_entriesIn.1 hpath
    obtain ⟨failure, hcall⟩ := Dispatch.mem_sentTo.1 hsent
    exact hcompleted.handed.mem_iff.1
      (List.mem_flatten.2 ⟨batch, List.mem_filterMap.2 ⟨_, hcall, rfl⟩, hmem⟩)
  · -- the worker that the file was sent to has reported, and has not named it
    obtain ⟨batch, hbatch, number, before, after, hturns⟩ := hcompleted.acknowledged path hpath
    have hturn : .sent (.batch batch) none ∈ Dispatch.transcript number s.surroundings.2 :=
      hturns ▸ List.mem_append_right _ List.mem_cons_self
    have hspawned : number ∈ Dispatch.spawnedIn s.surroundings.2 := by
      by_contra hne
      rw [hcompleted.others number hne] at hturn
      exact List.not_mem_nil hturn
    obtain ⟨p, hp⟩ := Option.isSome_iff_exists.1 ((htold.spawned number).1 hspawned)
    obtain ⟨data, hdata⟩ := hcompleted.reported number hspawned
    obtain ⟨-, htells⟩ := (htold.works number p hp).reported data
      (List.mem_append_left _ (Dispatch.mem_heardFrom_of_report hdata))
    obtain ⟨ending, hpast, ⟨m, rfl⟩ | hnamed⟩ :=
      htells path (mem_entriesIn.2 ⟨batch, Dispatch.mem_sentTo_of_turn hturn, hbatch⟩)
    · exact ⟨m, number, p, hp, hpast⟩
    · have hreport : data ∈ s.reports := hcompleted.reports ▸ List.mem_map_of_mem hdata
      refine absurd ?_ hmigrated
      rw [Report.unmigrated, List.mem_append] at hnamed ⊢
      rw [Report.mem_files_merge, Report.mem_files_merge]
      exact hnamed.imp (fun h => ⟨data, hreport, h⟩) fun h => ⟨data, hreport, h⟩

/-- **No migrated file is lost, where files are written apart.** Let the workers do their
jobs in whatever order, side by side, on one set of files. Where a run removes a file, or
tries to, and no file was written where a source stands or another one was written, the
text that a worker has made of it stands at the target that was chosen for it, to the
end. Files are written so if no suffix that is looked for is one of a rewritten file, and
no two files that are found have the same stem and different suffixes. -/
theorem removed_stand_at_target {extensions ignoredDirs : List String} (hpace : pace.Follows)
    (hshuffle : ∀ files, (shuffle files).Perm files) (hworkers : 1 ≤ c.migrate.workers)
    (hbatch : 1 ≤ c.migrate.batchSize) (hroot : (Path.parse root).IsNormal)
    (hfound : ∀ path ∈ paths, IsFound root extensions ignoredDirs path) (n : Nat)
    {r : RunResult (Fleet × List Deed)}
    (hr : runMigration (Command.fleetSite e pace root configPath).recorded c shuffle n (.ok paths)
      (.ofFiles files, []) = r)
    {path : String} {failure : Option FileError}
    (hremoved : (path, failure) ∈ removalsIn r.surroundings.2) :
    (Batch.WrittenApart paths r.surroundings.1.Wrote → ∃ number p m,
        StandsAtTarget (e.Equips root configPath) files paths r.surroundings.1 path number p m) ∧
      ((∀ hasJsx, suffixOf hasJsx ∉ extensions) →
        (∀ path ∈ paths, ∀ other ∈ paths, (Path.parse path).stem = (Path.parse other).stem →
          (Path.parse path).suffix = (Path.parse other).suffix) →
        Batch.WrittenApart paths r.surroundings.1.Wrote) := by
  have hnormal : ∀ path ∈ paths, (Path.parse path).IsNormal := fun path hpath =>
    (hfound path hpath).isNormal hroot
  have hcourse := course_runMigration (Command.fleetSite e pace root configPath) c shuffle n
    (.ok paths) (.ofFiles files)
  rw [hr] at hcourse
  -- the workers have come to their end, and then sources were removed
  obtain ⟨_, s, hpaths, hrun, hpath, hmigrated, hleft⟩ :=
    hcourse.dispatched_of_unlinked (mem_removalsIn.1 hremoved)
  obtain rfl := Except.ok.inj hpaths
  obtain ⟨ends, htold, hsent, hwritten⟩ :=
    wrote_of_dispatched e c files hpace hshuffle hworkers hbatch hrun
  obtain ⟨m, hwrote⟩ := hwritten path hpath hmigrated
  obtain ⟨hsame, hdiffer⟩ := deleteOriginals_leaves hnormal hleft.symm
  rw [Fleet.wrote_congr hsame]
  refine ⟨fun hapart => ?_, fun hsuffixes hstems => ?_⟩
  · obtain ⟨number, p, m, hstands⟩ := htold.standsAtTarget hsent hnormal hapart hwrote
    exact ⟨number, p, m, hstands.leaves (hnormal path hpath) hsame hdiffer⟩
  · exact htold.writtenApart hsent (Discovery.apart_of_found hroot hfound hsuffixes hstems)

end

/-! ## A repository with two files -/

/-- Surroundings in which every text is read as the empty program, and printed
as it was. -/
def Environment.echoing : Environment :=
  { Environment.sample with
    react := fun _ _ _ request =>
      if request.hasText "op" "parse" then ⟨none, none, .ok (some (.obj [("tree", .emptyProgram)]))⟩
      else ⟨none, none, .ok (some (.obj [("code", .str (request.textAt "source"))]))⟩ }

/-- The configuration that looks for some suffixes. Two workers get one file each. -/
def Config.looking (extensions : List String) : Config :=
  { Config.sample [] with
    migrate := { defaultMigrate (some 2) with extensions := extensions, batchSize := 1 } }

/-- Some files with their texts, at the root of the sample. -/
def Files.named (texts : List (String × String)) : Files :=
  .ofList (texts.map fun (name, text) => (["r", name], Utf8.encode text))

/-- The recorded run over these files. -/
def lookingRun (extensions : List String) (texts : List (String × String)) :
    RunResult (Fleet × List Deed) :=
  runMigration (Command.fleetSite .echoing .atOnce "/r" none).recorded (.looking extensions) id 4
    (filesOf "/r" extensions []
      (.exited [Utf8.encode (String.join (texts.map fun (name, _) => name ++ "\x00"))] 0 []))
    (.ofFiles (.named texts), [])

/-- Both files stand at their targets. -/
theorem removed_stand_at_target_sample :
    removalsIn (lookingRun [".js"] [("a.js", "0;"), ("b.js", "1;")]).surroundings.2
        = [("/r/a.js", none), ("/r/b.js", none)] ∧
      (∃ number p m, StandsAtTarget (Environment.echoing.Equips "/r" none)
        (.named [("a.js", "0;"), ("b.js", "1;")]) ["/r/a.js", "/r/b.js"]
        (lookingRun [".js"] [("a.js", "0;"), ("b.js", "1;")]).surroundings.1 "/r/a.js" number p m) ∧
      ∃ number p m, StandsAtTarget (Environment.echoing.Equips "/r" none)
        (.named [("a.js", "0;"), ("b.js", "1;")]) ["/r/a.js", "/r/b.js"]
        (lookingRun [".js"] [("a.js", "0;"), ("b.js", "1;")]).surroundings.1
          "/r/b.js" number p m := by
  have hremoved : removalsIn (lookingRun [".js"] [("a.js", "0;"), ("b.js", "1;")]).surroundings.2
      = [("/r/a.js", none), ("/r/b.js", none)] := by decide +kernel
  have hlisted : filesOf "/r" [".js"] []
      (.exited [Utf8.encode (String.join ["a.js\x00", "b.js\x00"])] 0 [])
        = .ok ["/r/a.js", "/r/b.js"] := by decide +kernel
  have hrun : runMigration (Command.fleetSite .echoing .atOnce "/r" none).recorded
      (.looking [".js"]) id 4 (.ok ["/r/a.js", "/r/b.js"])
        (.ofFiles (.named [("a.js", "0;"), ("b.js", "1;")]), [])
      = lookingRun [".js"] [("a.js", "0;"), ("b.js", "1;")] :=
    congrArg (fun found => runMigration (Command.fleetSite .echoing .atOnce "/r" none).recorded
      (.looking [".js"]) id 4 found (.ofFiles (.named [("a.js", "0;"), ("b.js", "1;")]), []))
        hlisted.symm
  have hroot : (Path.parse "/r").IsNormal := ⟨by decide +kernel, by decide +kernel⟩
  have hfound : ∀ path ∈ ["/r/a.js", "/r/b.js"], IsFound "/r" [".js"] [] path :=
    List.forall_mem_cons.2 ⟨⟨"a.js", by decide +kernel⟩,
      List.forall_mem_singleton.2 ⟨"b.js", by decide +kernel⟩⟩
  have hstems : ∀ path ∈ ["/r/a.js", "/r/b.js"], ∀ other ∈ ["/r/a.js", "/r/b.js"],
      (Path.parse path).stem = (Path.parse other).stem →
        (Path.parse path).suffix = (Path.parse other).suffix := by decide +kernel
  have hshuffle : ∀ files : List String, (id files).Perm files := fun files => .refl files
  have hstands {path : String} (hpath : (path, none)
      ∈ removalsIn (lookingRun [".js"] [("a.js", "0;"), ("b.js", "1;")]).surroundings.2) :
      ∃ number p m, StandsAtTarget (Environment.echoing.Equips "/r" none)
        (.named [("a.js", "0;"), ("b.js", "1;")]) ["/r/a.js", "/r/b.js"]
        (lookingRun [".js"] [("a.js", "0;"), ("b.js", "1;")]).surroundings.1 path number p m := by
    obtain ⟨hstands, hapart⟩ := removed_stand_at_target .echoing (.looking [".js"])
      (.named [("a.js", "0;"), ("b.js", "1;")]) Fleet.Pace.atOnce_follows hshuffle
      (by decide +kernel) (by decide +kernel) hroot hfound 4 hrun hpath
    exact hstands (hapart (by decide +kernel) hstems)
  refine ⟨hremoved, hstands ?_, hstands ?_⟩
  · rw [hremoved]
    exact List.mem_cons_self
  · rw [hremoved]
    exact List.mem_cons_of_mem _ List.mem_cons_self

/-- **Rewritten files that are lost.** A source with the suffix of a rewritten
file is written to its own place, and removed there. Of two sources with one
stem only the text of one is left. -/
theorem migrated_text_lost :
    ((lookingRun [".ts"] [("a.ts", "0;")]).failure? = none ∧
      removalsIn (lookingRun [".ts"] [("a.ts", "0;")]).surroundings.2 = [("/r/a.ts", none)] ∧
      targetPath? "/r/a.ts" false = some "/r/a.ts" ∧
      (lookingRun [".ts"] [("a.ts", "0;")]).surroundings.1.files.read (.parse "/r/a.ts")
        = .error .notFound) ∧
    ((lookingRun [".js", ".jsx"] [("a.js", "0;"), ("a.jsx", "1;")]).failure? = none ∧
      removalsIn (lookingRun [".js", ".jsx"] [("a.js", "0;"), ("a.jsx", "1;")]).surroundings.2
        = [("/r/a.js", none), ("/r/a.jsx", none)] ∧
      targetPath? "/r/a.js" false = some "/r/a.ts" ∧ targetPath? "/r/a.jsx" false = some "/r/a.ts" ∧
      (lookingRun [".js", ".jsx"] [("a.js", "0;"), ("a.jsx", "1;")]).surroundings.1.files.files
        = [(["r", "a.ts"], Utf8.encode "0;")]) := by
  decide +kernel

end Retype
