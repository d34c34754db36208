import Retype.Proofs.Batch.Leftover
import Retype.Proofs.Batch.Target
import Retype.Proofs.Migration.Totality
/-!
# Files that are written apart

Files are written apart if none is written over the source of another one and no
two are written to one place (`Manner.WritesApart`), as the files of sources that
stand apart are. Then each file has its own outcome (`Endings.outcome_of_apart`),
and what is written stays. Whether the rewriting of a file is refused is up to
the walk of its tree (`Manner.rewrites_of_walk`): annotations are not refused if
what is parsed is as it should be.
-/

namespace Retype.Batch

/-- **Files that are written apart**: none is written over the source of one of
them, and no two are written to one place. -/
structure Manner.WritesApart (f : Manner) (t : Toolchain) (files : Files) (paths : List String) :
    Prop where
  sources : ∀ path ∈ paths, ∀ m, f.outcome t files path = .migrated m →
    ∀ other ∈ paths, ¬ m.Covers files other
  targets : paths.Pairwise fun path other => ∀ m m', f.outcome t files path = .migrated m →
    f.outcome t files other = .migrated m' → ¬ m.Covers files m'.target

/-- **The rewriting of a file is not refused**: if the file is read and parsed,
the walk of its tree gives a tree, and no annotation of a parameter that waits
is refused. -/
def Manner.Rewrites (f : Manner) (t : Toolchain) (files : Files) (path : String) : Prop :=
  ∀ source tree, t.readSource files path = .ok (some source) →
    t.parsed (f.exchange (Bridge.parseRequest source)) = .ok tree →
    ∃ rewritten p, Migration.rewriteTree (t.fileOptions path) tree = (.ok rewritten, p) ∧
      ∀ l ∈ p.waiting, ∃ type, (f.inferred t (t.fileOptions path) l).result = .ok type

/-! ## Refusals -/

section
variable {t : Toolchain} {f : Manner} {R : Replies} {files files' : Files} {path : String}
  {e : Refusal}

theorem write_ne_refused {m : MigratedFile} : m.write files ≠ .error (.refused e) := by
  unfold MigratedFile.write
  cases files.write (Path.parse m.target) (Utf8.encode m.text) <;> nofun

theorem printed_ne_refused {hasJsx : Bool} {x : Exchange} :
    (t.printed path hasJsx x).map Done.file ≠ .error (.refused e) := by
  unfold Toolchain.printed
  cases Bridge.printed t.bridge.command x with
  | error cause => nofun
  | ok text =>
    simp only [Except.mapError, bind, Except.bind]
    cases targetPath? path hasJsx <;> nofun

/-- A file fails with a refusal when it is settled only if it was refused. -/
theorem Leads.eq_of_refused {r : Except Failure Done}
    (h : Leads t R files (.settle path r) (.failed (.refused e))) : r = .error (.refused e) := by
  cases h with
  | failed => rfl
  | unwritten _ _ h => exact absurd h write_ne_refused

/-- A file that is printed is not refused any more. -/
theorem Leads.print_not_refused {source : String} {tree : Json} {hasJsx : Bool} :
    ¬ Leads t R files (.print path source tree hasJsx) (.failed (.refused e)) := by
  intro h
  cases h with
  | printed _ h => exact printed_ne_refused h.eq_of_refused

theorem Leads.onward_not_refused {w : Walked} (hsource : w.source.isSome) :
    ¬ Leads t R files w.onward (.failed (.refused e)) := by
  obtain ⟨source, hsome⟩ := Option.isSome_iff_exists.1 hsource
  rw [Walked.onward, hsome]
  exact print_not_refused

/-- A walk that goes well, with annotations that are not refused, leads to no refusal. -/
theorem Leads.walk_not_refused (hR : R ≤ f.replies) {source : String} {tree rewritten : Json}
    {p : Migration.Progress}
    (hrewritten : Migration.rewriteTree (t.fileOptions path) tree = (.ok rewritten, p))
    (hannotated : ∀ l ∈ p.waiting, ∃ type, (f.inferred t (t.fileOptions path) l).result =
      .ok type) :
    ¬ Leads t R files (.walk path source tree) (.failed (.refused e)) := by
  intro h
  cases h with
  | walked hjob h =>
    unfold Beginning.ofTree at hjob
    rw [hrewritten] at hjob
    dsimp only at hjob
    cases hjob with
    | atOnce hnext =>
      split at hnext
      · cases hnext
      · obtain rfl := Option.some.inj hnext
        exact h.onward_not_refused rfl
    | later _ hgoes =>
      cases hgoes with
      | refused hl hinferred hr =>
        obtain ⟨type, htype⟩ := hannotated _ hl
        have howned : f.inferred t (t.fileOptions path) _ = _ := Manner.inferred_eq hR hinferred
        rw [howned, hr] at htype
        cases htype
      | finished => exact h.onward_not_refused rfl

/-- **A file whose rewriting is not refused does not come to a refusal.** -/
theorem Manner.Rewrites.not_refused (h : f.Rewrites t files path) (hR : R ≤ f.replies) :
    ¬ t.ComesTo R files path (.failed (.refused e)) := by
  intro hcomes
  unfold Toolchain.ComesTo at hcomes
  cases hsource : t.readSource files path with
  | error cause =>
    rw [hsource] at hcomes
    have hcause := Except.error.inj hcomes.eq_of_refused
    unfold Toolchain.readSource at hsource
    split at hsource
    · rw [hcause] at hsource
      cases hsource
    · split at hsource
      · cases hsource
      · split at hsource
        · cases hsource
        · rw [hcause] at hsource
          cases hsource
  | ok source? =>
    rw [hsource] at hcomes
    cases source? with
    | none => cases hcomes.eq_of_refused
    | some source =>
      cases hcomes with
      | parsed hx hcomes =>
        obtain rfl := hR.1 _ _ hx
        cases htree : t.parsed (f.exchange (Bridge.parseRequest source)) with
        | error cause =>
          rw [htree] at hcomes
          have hcause := Except.error.inj hcomes.eq_of_refused
          unfold Toolchain.parsed at htree
          rw [hcause] at htree
          generalize Bridge.parsed t.bridge.command _ = r at htree
          cases r <;> cases htree
        | ok tree =>
          rw [htree] at hcomes
          obtain ⟨rewritten, p, hrewritten, hannotated⟩ := h source tree hsource htree
          exact Leads.walk_not_refused hR hrewritten hannotated hcomes

/-- Whether a rewriting is refused depends on what is read. -/
theorem Manner.Rewrites.congr (h : f.Rewrites t files path)
    (hread : (files'.read (Path.parse path)).toOption = (files.read (Path.parse path)).toOption) :
    f.Rewrites t files' path := by
  intro source tree hsource
  refine h source tree ?_
  unfold Toolchain.readSource at hsource ⊢
  cases hbytes : files'.read (Path.parse path) with
  | error cause =>
    rw [hbytes] at hsource
    cases hsource
  | ok bytes =>
    cases hbytes' : files.read (Path.parse path) with
    | error cause =>
      rw [hbytes, hbytes'] at hread
      cases hread
    | ok bytes' =>
      rw [hbytes, hbytes'] at hread
      obtain rfl : bytes = bytes' := Option.some.inj hread
      rwa [hbytes] at hsource

/-- **The walk decides** whether a rewriting is refused: annotations are not, if
each parameter that waits has a place, and numerals are numbers in whatever is
parsed as a type. -/
theorem Manner.rewrites_of_walk
    (htypes : ∀ payload type, t.parsedType (f.exchange payload) = some type →
      Flow.Given type.stripPositions)
    (hwalk : ∀ source tree, t.readSource files path = .ok (some source) →
      t.parsed (f.exchange (Bridge.parseRequest source)) = .ok tree → ∃ rewritten p,
        Migration.rewriteTree (t.fileOptions path) tree = (.ok rewritten, p) ∧
        ∀ l ∈ p.waiting, ∃ location, l = .ok location) : f.Rewrites t files path := by
  intro source tree hsource htree
  obtain ⟨rewritten, p, hrewritten, hplaced⟩ := hwalk source tree hsource htree
  refine ⟨rewritten, p, hrewritten, fun l hl => ?_⟩
  obtain ⟨location, rfl⟩ := hplaced l hl
  refine Migration.annotationInferred_total _ _ fun type htype => ?_
  unfold Manner.typeOf at htype
  obtain ⟨text, -, hparsed⟩ := Option.bind_eq_some_iff.1 htype
  exact htypes _ type hparsed

end

/-! ## Targets -/

section
variable {t : Toolchain} {R : Replies} {files : Files} {path : String} {m : MigratedFile}

theorem Toolchain.target_of_printed {hasJsx : Bool} {x : Exchange}
    (h : t.printed path hasJsx x = .ok m) : targetPath? path hasJsx = some m.target := by
  unfold Toolchain.printed at h
  cases hprinted : Bridge.printed t.bridge.command x with
  | error cause =>
    rw [hprinted] at h
    cases h
  | ok printed =>
    rw [hprinted] at h
    cases htarget : targetPath? path hasJsx <;>
      simp [Except.mapError, htarget, bind, Except.bind, pure, Except.pure] at h
    rw [← h]

/-- A file that is printed is written beside its source. -/
theorem Leads.target_of_print {source : String} {tree : Json} {hasJsx : Bool}
    (h : Leads t R files (.print path source tree hasJsx) (.written m)) :
    ∃ hasJsx, targetPath? path hasJsx = some m.target := by
  cases h with
  | @printed _ _ _ _ x _ _ h =>
    generalize hr : t.printed path hasJsx x = r at h
    cases r with
    | error cause => cases h
    | ok m' =>
      cases h
      exact ⟨hasJsx, Toolchain.target_of_printed hr⟩

theorem Leads.target_of_onward {w : Walked} (hsource : w.source.isSome)
    (h : Leads t R files w.onward (.written m)) :
    ∃ hasJsx, targetPath? w.options.path hasJsx = some m.target := by
  obtain ⟨source, hsome⟩ := Option.isSome_iff_exists.1 hsource
  rw [Walked.onward, hsome] at h
  exact h.target_of_print

theorem Leads.target_of_begins {b : Beginning} {options : Migration.FileOptions} {source : String}
    {job : Job} (hbegins : Begins options (some source) b) (hjob : b.GoesOn t R job)
    (h : Leads t R files job (.written m)) :
    ∃ hasJsx, targetPath? options.path hasJsx = some m.target := by
  have hsource : b.walked.source.isSome := by rw [hbegins.source_eq]; rfl
  rw [← hbegins.options_eq]
  cases hjob with
  | atOnce hnext =>
    cases hbegins with
    | refused =>
      obtain rfl := Option.some.inj hnext
      cases h
    | settled =>
      obtain rfl := Option.some.inj hnext
      exact h.target_of_onward rfl
    | waiting => cases hnext
  | later _ hgoes =>
    cases hgoes with
    | refused => cases h
    | @finished types =>
      exact h.target_of_onward (w := { b.walked with annotations := types }) hsource

theorem Leads.target_of_walk {source : String} {tree : Json}
    (h : Leads t R files (.walk path source tree) (.written m)) :
    ∃ hasJsx, targetPath? path hasJsx = some m.target := by
  cases h with
  | walked hjob h =>
    have hbegins := Beginning.begins (t.fileOptions path) (some source) tree
    obtain ⟨hasJsx, htarget⟩ := Leads.target_of_begins hbegins hjob h
    exact ⟨hasJsx, htarget⟩

/-- **A file that is written is written beside its source.** -/
theorem Toolchain.ComesTo.target (h : t.ComesTo R files path (.written m)) :
    ∃ hasJsx, targetPath? path hasJsx = some m.target := by
  unfold Toolchain.ComesTo at h
  generalize t.readSource files path = r at h
  rcases r with cause | (_ | source)
  · cases h
  · cases h
  · cases h with
    | @parsed _ _ x _ _ h =>
      generalize t.parsed x = r at h
      cases r with
      | error cause => cases h
      | ok tree => exact h.target_of_walk

theorem Manner.target_of_migrated {f : Manner} (h : f.outcome t files path = .migrated m) :
    ∃ hasJsx, targetPath? path hasJsx = some m.target := by
  obtain ⟨e, hcomes, houtcome⟩ := f.exists_comesTo t files path
  rw [h] at houtcome
  cases e with
  | written m' =>
    obtain rfl := Outcome.migrated.inj houtcome
    exact hcomes.target
  | skipped | failed => cases houtcome

/-- **Sources that stand apart are written apart.** -/
theorem Manner.writesApart_of_apart {f : Manner} {paths : List String} (h : Apart paths)
    (hnodup : paths.Nodup) : f.WritesApart t files paths where
  sources path hpath m hm other hother := by
    rintro ⟨place, hplace, hplace'⟩
    obtain ⟨hasJsx, htarget⟩ := target_of_migrated hm
    refine h.ne_source htarget hother ?_
    rw [← Files.resolve_eq (h.normal other hother) hplace',
      ← Files.resolve_eq (isNormal_target htarget (h.normal path hpath)) hplace]
  targets := hnodup.imp_of_mem fun {path other} hpath hother hne m m' hm hm' => by
    rintro ⟨place, hplace, hplace'⟩
    obtain ⟨hasJsx, htarget⟩ := target_of_migrated hm
    obtain ⟨hasJsx', htarget'⟩ := target_of_migrated hm'
    refine hne (h.eq_of_target hpath htarget hother htarget' ?_)
    rw [← Files.resolve_eq (isNormal_target htarget (h.normal path hpath)) hplace,
      ← Files.resolve_eq (isNormal_target htarget' (h.normal other hother)) hplace']

end

/-! ## Files written apart -/

section
variable {t : Toolchain} {f : Manner} {R : Replies} {files : Files} {paths : List String}
  {past : List (String × Ending)} {path : String} (hapart : f.WritesApart t files paths)
  (hR : R ≤ f.replies)
include hapart hR

/-- **Each file has its own outcome** if no file is written over another one. -/
theorem Endings.outcome_of_apart (h : Endings (t.MayComeTo R) files past)
    (hpast : ∀ path ∈ past.map (·.1), path ∈ paths) {e : Ending} (he : (path, e) ∈ past) :
    f.outcome t files path = e.outcome := by
  induction h generalizing path e with
  | nil => exact absurd he List.not_mem_nil
  | @snoc past last e' h hcomes hwritten ih =>
    rw [List.map_append, List.forall_mem_append] at hpast
    rcases List.mem_append.1 he with he | he
    · exact ih hpast.1 he
    · obtain ⟨rfl, rfl⟩ := Prod.mk.inj (List.mem_singleton.1 he)
      -- what was written before is written where the file's own outcome says
      have hfree : ∀ other m, (other, .written m) ∈ past → ¬ m.Covers files path :=
        fun other m hmem => hapart.sources other (hpast.1 _ (List.mem_map_of_mem hmem)) m
          (ih hpast.1 hmem) path (hpast.2 _ (List.mem_singleton_self _))
      obtain ⟨e', hown, houtcome⟩ := hcomes.own hfree
      rw [Manner.outcome_eq hR hown, houtcome]

/-- What is over as written is written over no file. -/
theorem Endings.free (h : Endings (t.MayComeTo R) files past)
    (hpast : ∀ path ∈ past.map (·.1), path ∈ paths)
    (hpath : path ∈ paths) :
    ∀ other m, (other, .written m) ∈ past → ¬ m.Covers files path := fun other m hmem =>
  hapart.sources other (hpast _ (List.mem_map_of_mem hmem)) m
    (h.outcome_of_apart hapart hR hpast hmem) path hpath

omit hapart hR in
/-- In files that only such files were written to, each of them reads as before. -/
theorem reads_of_free {before : List (String × Ending)} (hpast : before <+: past)
    (hfree : ∀ other m, (other, .written m) ∈ past → ¬ m.Covers files path) :
    ((filesAfter files before).read (Path.parse path)).toOption
      = (files.read (Path.parse path)).toOption := by
  refine (filesAfter_differOnlyAt files before).toOption_read ?_
  rintro place hplace ⟨other, m, hmem, hwritten⟩
  exact hfree other m (hpast.subset hmem) ⟨place, hwritten, hplace⟩

/-- No file fails with a refusal if its rewriting is not refused. -/
theorem Endings.not_refused (h : Endings (t.MayComeTo R) files past)
    (hpast : ∀ path ∈ past.map (·.1), path ∈ paths) (hrewrites : f.Rewrites t files path)
    {e : Refusal} : (path, .failed (.refused e)) ∉ past := by
  intro hmem
  have hfree := h.free hapart hR hpast (hpast _ (List.mem_map_of_mem hmem))
  -- the file was read in files that read alike where it is read
  obtain ⟨before, after, rfl⟩ := List.append_of_mem hmem
  obtain ⟨_, ⟨first, hfirst, rfl⟩, hcomes⟩ := (h.split rfl).1
  have hread := reads_of_free (hfirst.trans (List.prefix_append ..)) hfree
  exact (hrewrites.congr hread).not_refused hR hcomes

/-- **What is written stays**: no other file is written to its place. -/
theorem Endings.get?_written (h : Endings (t.MayComeTo R) files past)
    (hperm : (past.map (·.1)).Perm paths)
    {m : MigratedFile} (hmem : (path, .written m) ∈ past) {place : Trail}
    (hplace : files.resolve (Path.parse m.target) = .ok place) :
    (filesAfter files past).get? place = some (Utf8.encode m.text) := by
  have hown : ∀ {other e}, (other, e) ∈ past → f.outcome t files other = e.outcome :=
    h.outcome_of_apart hapart hR fun _ he => hperm.subset he
  obtain ⟨before, after, rfl⟩ := List.append_of_mem hmem
  -- the files after this one, which are written elsewhere
  have helsewhere : ∀ other m', (other, .written m') ∈ after → ¬ m.Covers files m'.target := by
    have hpairwise := (hperm.pairwise_iff (fun hxy m m' hm hm' ⟨place, hplace, hplace'⟩ =>
      hxy m' m hm' hm ⟨place, hplace', hplace⟩)).2 hapart.targets
    rw [List.pairwise_map, List.pairwise_append, List.pairwise_cons] at hpairwise
    intro other m' hafter
    exact hpairwise.2.1.1 _ hafter m m' (hown hmem)
      (hown (List.mem_append_right _ (List.mem_cons_of_mem _ hafter)))
  have hdirectories := (filesAfter_differOnlyAt files (before ++ [(path, .written m)])).directories
  have hread := h.read_written (Eq.refl (before ++ (path, Ending.written m) :: after))
  rw [← List.singleton_append, ← List.append_assoc, filesAfter_append]
  obtain ⟨place', hplace', hget⟩ := Files.read_eq_ok_iff.1 hread
  rw [Files.resolve_congr hdirectories hplace] at hplace'
  obtain rfl := Except.ok.inj hplace'
  refine ((filesAfter_differOnlyAt _ after).get? place
    fun ⟨other, m', hafter, hplace'⟩ => ?_).trans hget
  exact helsewhere other m' hafter ⟨place, hplace, Files.resolve_congr hdirectories.symm hplace'⟩

end

end Retype.Batch
