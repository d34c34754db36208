import Retype.Proofs.Batch.Tracing
import Retype.Proofs.Source.Files
/-!
# The outcome of a file

Files are over one after the other, and each of them comes to what it may come
to in the files that some of those before it have left (`Endings`). Unless one
of these was written over it, that is what it may come to by itself, given the
replies that it got (`Endings.own`). Why a file has failed is not part of its
outcome, since that may depend on the other files. If the replies are a function
of what is said (`Manner`), a file has one outcome (`Manner.outcome`).
-/

namespace Retype.Batch

open Inference (Query)

/-- What has come of a file. -/
inductive Outcome where
  | migrated (m : MigratedFile)
  | skipped
  | failed
  deriving DecidableEq

def Ending.outcome : Ending → Outcome
  | .written m => .migrated m
  | .skipped => .skipped
  | .failed _ => .failed

/-! ## Writing -/

section
variable {m : MigratedFile} {files files' : Files}

/-- Whether a file can be written depends on the directories alone. -/
theorem MigratedFile.exists_write_congr (hdirectories : files'.directories = files.directories)
    (h : ∃ written, m.write files = .ok written) : ∃ written, m.write files' = .ok written := by
  obtain ⟨written, h⟩ := h
  have hwrite : ∃ written, files.write (Path.parse m.target) (Utf8.encode m.text) =
      .ok written := by
    unfold MigratedFile.write at h
    cases hfiles : files.write (Path.parse m.target) (Utf8.encode m.text) with
    | ok written => exact ⟨written, rfl⟩
    | error cause =>
      rw [hfiles] at h
      cases h
  obtain ⟨written', h'⟩ := Files.exists_write_congr hdirectories hwrite
  exact ⟨written', by rw [MigratedFile.write, h']; rfl⟩

/-- Writing a file changes its place, and it is there then. -/
theorem MigratedFile.write_read (h : m.write files = .ok files') :
    Files.DifferOnlyAt (fun place => files.resolve (Path.parse m.target) = .ok place) files files' ∧
      files'.read (Path.parse m.target) = .ok (Utf8.encode m.text) := by
  unfold MigratedFile.write at h
  cases hwrite : files.write (Path.parse m.target) (Utf8.encode m.text) with
  | error cause =>
    rw [hwrite] at h
    cases h
  | ok written =>
    rw [hwrite] at h
    obtain rfl := Except.ok.inj h
    exact Files.write_read hwrite

end

/-! ## Manners of replying -/

/-- **A manner of replying**: one thing comes of each request, and one answer of
each question, whenever they are put. -/
structure Manner where
  exchange : Json → Exchange
  answer : Query → Option String

/-- The replies of a manner. -/
def Manner.replies (f : Manner) : Replies where
  exchange := fun payload x => x = f.exchange payload
  answer := fun q output => output = f.answer q

/-- **Whether a talk follows a manner**: nothing else was replied in it. -/
def Talk.Follows (talk : Talk) (f : Manner) : Prop := talk.since .none ≤ f.replies

theorem Talk.Follows.since_le {talk : Talk} {f : Manner} (h : talk.Follows f) (before : Talk) :
    talk.since before ≤ f.replies :=
  ⟨fun payload x hx => h.1 payload x (List.mem_of_mem_drop hx),
    fun q output hq => h.2 q output (List.mem_of_mem_drop hq)⟩

namespace Manner

section
variable (f : Manner) (t : Toolchain) (files : Files)

/-- The type that comes of an answer. -/
def typeOf (output : Option String) : Option Json :=
  (t.typeText output).bind fun text =>
    t.parsedType (f.exchange (Bridge.parseRequest (Bridge.aliasSource text)))

/-- What is inferred for a parameter. -/
def inferred (o : Migration.FileOptions) : Result Location → Recorded (Option Json)
  | .error e => .refuse e
  | .ok location =>
    Migration.annotationInferred o location (f.typeOf t (f.answer ⟨o.path, location⟩))

/-- How a file goes on that waits, if its parameters are answered in order. -/
def goingOn (w : Walked) : Job :=
  match w.locations.mapM fun l => (f.inferred t w.options l).result with
  | .ok types => { w with annotations := types }.onward
  | .error e => w.conclusion (some e)

/-- What comes of a file that is settled. -/
def settled : Except Failure Done → Outcome
  | .ok (.file m) => if (m.write files).toBool then .migrated m else .failed
  | .ok _ => .skipped
  | .error _ => .failed

/-- What comes of a file that is settled, or printed before. -/
def printed : Job → Outcome
  | .print path source tree hasJsx =>
    settled files ((t.printed path hasJsx (f.exchange (t.printRequest source tree))).map .file)
  | .settle _ r => settled files r
  | _ => .failed

/-- And of one that is walked before. -/
def walked : Job → Outcome
  | .walk path source tree =>
    let b := Beginning.ofTree (t.fileOptions path) (some source) tree
    f.printed t files (b.next.getD (f.goingOn t b.walked))
  | job => f.printed t files job

/-- And of one that is parsed before. -/
def parsed : Job → Outcome
  | .parse path source =>
    f.walked t files
      (Loop.afterParsing path source (t.parsed (f.exchange (Bridge.parseRequest source))))
  | job => f.walked t files job

/-- **The outcome of a file.** -/
def outcome (path : String) : Outcome :=
  f.parsed t files (Loop.afterReading path (t.readSource files path))

end

variable {f : Manner} {t : Toolchain} {R : Replies} {files files' : Files}
  {o : Migration.FileOptions}
  {l : Result Location} {job : Job} {e : Ending} {path : String}

theorem typeOf_eq (hR : R ≤ f.replies) {output : Option String} {type : Option Json}
    (h : Types t R output type) : f.typeOf t output = type := by
  cases h with
  | unusable h => rw [typeOf, h, Option.bind_none]
  | parsed h hx => rw [typeOf, h, Option.bind_some, hR.1 _ _ hx]

theorem inferred_eq (hR : R ≤ f.replies) {r : Recorded (Option Json)} (h : Inferred t R o l r) :
    f.inferred t o l = r := by
  cases h with
  | misplaced e => rfl
  | answered h htype => rw [inferred, ← hR.2 _ _ h, typeOf_eq hR htype]

theorem mapM_eq_ok_iff {α β ε : Type} {f : α → Except ε β} {xs : List α} {ys : List β} :
    xs.mapM f = .ok ys ↔ List.Forall₂ (fun x y => f x = .ok y) xs ys := by
  induction xs generalizing ys with
  | nil => cases ys <;> simp [pure, Except.pure]
  | cons x xs ih =>
    rw [List.mapM_cons]
    cases hx : f x with
    | error e => cases ys <;> simp [bind, Except.bind, hx]
    | ok y =>
      cases hxs : xs.mapM f with
      | error e =>
        have hnone : ∀ zs : List β, ¬ List.Forall₂ (fun x y => f x = .ok y) xs zs :=
          fun zs hzs => by
          rw [ih.2 hzs] at hxs
          cases hxs
        cases ys <;> simp [bind, Except.bind, hnone]
      | ok zs =>
        have hzs := @ih zs
        cases ys with
        | nil => simp [bind, Except.bind, pure, Except.pure]
        | cons y' ys =>
          simp only [bind, Except.bind, pure, Except.pure, List.forall₂_cons, hx, ← ih, hxs,
            Except.ok.injEq, List.cons.injEq]

theorem exists_of_mapM_error {α β ε : Type} {f : α → Except ε β} {xs : List α} {e : ε}
    (h : xs.mapM f = .error e) : ∃ x ∈ xs, f x = .error e := by
  induction xs with
  | nil => cases h
  | cons x xs ih =>
    rw [List.mapM_cons] at h
    cases hx : f x with
    | error e' =>
      rw [hx] at h
      exact ⟨x, List.mem_cons_self, hx.trans (congrArg Except.error (Except.error.inj h))⟩
    | ok y =>
      cases hxs : xs.mapM f with
      | ok ys =>
        rw [hx, hxs] at h
        cases h
      | error e' =>
        rw [hx, hxs] at h
        obtain ⟨x', hx', herror⟩ := ih (hxs.trans (congrArg Except.error (Except.error.inj h)))
        exact ⟨x', List.mem_cons_of_mem x hx', herror⟩

/-- How a file goes on has one outcome: of several refused parameters the first
one to be told counts. -/
theorem printed_goingOn (hR : R ≤ f.replies) {w : Walked} (h : w.GoesOn t R job) :
    f.printed t files (f.goingOn t w) = f.printed t files job := by
  unfold goingOn
  cases h with
  | @refused l r e hl h hr =>
    cases htypes : w.locations.mapM fun l => (f.inferred t w.options l).result with
    | error e' => rfl
    | ok types =>
      obtain ⟨i, hi, rfl⟩ := List.getElem_of_mem hl
      have hi' : i < types.length := (mapM_eq_ok_iff.1 htypes).length_eq ▸ hi
      have hok := (mapM_eq_ok_iff.1 htypes).get hi hi'
      rw [List.get_eq_getElem, inferred_eq hR h, hr] at hok
      cases hok
  | @finished types h =>
    have htypes : (w.locations.mapM fun l => (f.inferred t w.options l).result) = .ok types :=
      mapM_eq_ok_iff.2 (h.imp fun l type ⟨r, hr, hok⟩ => by rw [inferred_eq hR hr, hok])
    rw [htypes]

theorem settled_congr (hdirectories : files'.directories = files.directories)
    (r : Except Failure Done) : settled files' r = settled files r := by
  rcases r with cause | (tree | m | _)
  · rfl
  · rfl
  · have hiff : (m.write files').toBool = (m.write files).toBool := by
      cases h : m.write files with
      | ok written =>
        obtain ⟨written', h'⟩ := MigratedFile.exists_write_congr hdirectories ⟨written, h⟩
        rw [h']
        rfl
      | error cause =>
        cases h' : m.write files' with
        | error cause' => rfl
        | ok written' =>
          obtain ⟨written, hwritten⟩ :=
            MigratedFile.exists_write_congr hdirectories.symm ⟨written', h'⟩
          rw [h] at hwritten
          cases hwritten
    rw [settled, settled, hiff]
  · rfl

theorem parsed_onward (w : Walked) : f.parsed t files w.onward = f.printed t files w.onward := by
  unfold Walked.onward
  cases w.source <;> rfl

/-- **A stage leads to one outcome.** -/
theorem parsed_eq (hR : R ≤ f.replies) (h : Leads t R files job e) :
    f.parsed t files job = e.outcome := by
  induction h with
  | failed | skipped => rfl
  | written path hfiles h =>
    refine (settled_congr hfiles (.ok (.file _))).symm.trans ?_
    rw [settled, h]
    rfl
  | unwritten path hfiles h =>
    refine (settled_congr hfiles (.ok (.file _))).symm.trans ?_
    rw [settled, h]
    rfl
  | printed hx _ ih =>
    obtain rfl := hR.1 _ _ hx
    exact ih
  | @walked path source tree job e hjob _ ih =>
    rw [← ih]
    have hbegins := Beginning.begins (t.fileOptions path) (some source) tree
    show f.printed t files _ = f.parsed t files job
    generalize Beginning.ofTree (t.fileOptions path) (some source) tree = b at hjob hbegins ⊢
    cases hjob with
    | atOnce h =>
      rw [h, Option.getD_some]
      cases hbegins with
      | refused =>
        obtain rfl := Option.some.inj h
        rfl
      | settled =>
        obtain rfl := Option.some.inj h
        exact (parsed_onward _).symm
      | waiting => cases h
    | later hnone h =>
      rw [hnone, Option.getD_none, printed_goingOn hR h]
      cases h with
      | refused => rfl
      | finished => exact (parsed_onward _).symm
  | parsed hx _ ih =>
    obtain rfl := hR.1 _ _ hx
    rw [← ih]
    show f.walked t files _ = f.parsed t files _
    generalize t.parsed _ = r
    cases r <;> rfl

/-- **A file comes to no other outcome.** -/
theorem outcome_eq (hR : R ≤ f.replies) (h : t.ComesTo R files path e) :
    f.outcome t files path = e.outcome := parsed_eq hR h

/-! ### That a file comes to its outcome -/

variable (f t files)

theorem exists_inferred (o : Migration.FileOptions) (l : Result Location) :
    Inferred t f.replies o l (f.inferred t o l) := by
  cases l with
  | error e => exact .misplaced e
  | ok location =>
    have hanswer : f.replies.answer ⟨o.path, location⟩ (f.answer ⟨o.path, location⟩) := rfl
    refine .answered hanswer ?_
    unfold typeOf
    cases h : t.typeText (f.answer ⟨o.path, location⟩) with
    | none => exact .unusable h
    | some text => exact .parsed h rfl

theorem exists_goesOn (w : Walked) : w.GoesOn t f.replies (f.goingOn t w) := by
  unfold goingOn
  cases htypes : w.locations.mapM fun l => (f.inferred t w.options l).result with
  | ok types =>
    exact .finished
      ((mapM_eq_ok_iff.1 htypes).imp fun l type hok => ⟨_, f.exists_inferred t _ l, hok⟩)
  | error e =>
    obtain ⟨l, hl, herror⟩ := exists_of_mapM_error htypes
    exact .refused hl (f.exists_inferred t _ l) herror

variable {f t files}

theorem exists_settled (R : Replies) (files : Files) (path : String) {r : Except Failure Done}
    (hr : ∀ tree, r ≠ .ok (.tree tree)) : ∃ e, Leads t R files (.settle path r) e ∧
      e.outcome = settled files r := by
  rcases r with cause | (tree | m | _)
  · exact ⟨_, .failed path cause, rfl⟩
  · exact absurd rfl (hr tree)
  · cases h : m.write files with
    | ok written => exact ⟨_, .written path rfl h, by rw [settled, h]; rfl⟩
    | error cause => exact ⟨_, .unwritten path rfl h, by rw [settled, h]; rfl⟩
  · exact ⟨_, .skipped path, rfl⟩

/-- A stage that is the last one, or the last but one, leads to what it should. -/
theorem exists_printed (files : Files) (h : job.StageOf path) (hjob : job.depth < 4) :
    ∃ e, Leads t f.replies files job e ∧ e.outcome = f.printed t files job := by
  cases h with
  | parse | walk => exact absurd hjob (by simp [Job.depth])
  | settle hr => exact exists_settled f.replies files path hr
  | print source tree hasJsx =>
    generalize hr :
      (t.printed path hasJsx (f.exchange (t.printRequest source tree))).map Done.file = r
    have hfile : ∀ tree, r ≠ .ok (.tree tree) := by
      rw [← hr]
      cases t.printed path hasJsx (f.exchange (t.printRequest source tree)) <;> rintro _ ⟨⟩
    obtain ⟨e, he, houtcome⟩ := exists_settled (t := t) f.replies files path hfile
    subst hr
    exact ⟨e, .printed rfl he, houtcome⟩

theorem exists_walked (path source : String) (tree : Json) :
    ∃ e, Leads t f.replies files (.walk path source tree) e ∧
      e.outcome = f.walked t files (.walk path source tree) := by
  have hbegins := Beginning.begins (t.fileOptions path) (some source) tree
  have hsettle : ∀ r : Except Failure Done, (Job.settle path r).depth < 4 := fun r => by
    cases r <;> simp [Job.depth]
  suffices h : ∃ job,
      (Beginning.ofTree (t.fileOptions path) (some source) tree).GoesOn t f.replies job ∧
      job.StageOf path ∧ job.depth < 4 ∧ f.walked t files (.walk path source tree) =
        f.printed t files job by
    obtain ⟨job, hjob, hstage, hdepth, heq⟩ := h
    obtain ⟨e, he, houtcome⟩ := exists_printed files hstage hdepth
    exact ⟨e, .walked hjob he, houtcome.trans heq.symm⟩
  unfold walked
  dsimp only
  generalize Beginning.ofTree (t.fileOptions path) (some source) tree = b at hbegins ⊢
  cases hnext : b.next with
  | some job =>
    refine ⟨job, .atOnce hnext, hbegins.stage hnext, ?_, rfl⟩
    cases hbegins with
    | refused => exact Option.some.inj hnext ▸ hsettle _
    | settled => exact Option.some.inj hnext ▸ Nat.lt_succ_self 3
    | waiting => cases hnext
  | none =>
    have hgoes := f.exists_goesOn t b.walked
    obtain ⟨hstage, hdepth⟩ := hgoes.stage (hbegins.source_eq ▸ rfl)
    rw [hbegins.options_eq] at hstage
    exact ⟨_, .later hnext hgoes, hstage, hdepth, rfl⟩

/-- **A file may come to its outcome.** -/
theorem exists_comesTo (f : Manner) (t : Toolchain) (files : Files) (path : String) :
    ∃ e, t.ComesTo f.replies files path e ∧ e.outcome = f.outcome t files path := by
  unfold Toolchain.ComesTo outcome
  rcases t.readSource files path with cause | (_ | source)
  · exact ⟨_, .failed path cause, rfl⟩
  · exact ⟨_, .skipped path, rfl⟩
  · suffices h : ∃ e, Leads t f.replies files (Loop.afterParsing path source
        (t.parsed (f.exchange (Bridge.parseRequest source)))) e ∧
          e.outcome = f.parsed t files (.parse path source) by
      exact h.imp fun e h => ⟨.parsed rfl h.1, h.2⟩
    show ∃ e : Ending, _ ∧ e.outcome = f.walked t files _
    rcases t.parsed (f.exchange (Bridge.parseRequest source)) with cause | tree
    · exact ⟨_, .failed path cause, rfl⟩
    · exact exists_walked path source tree

end Manner

/-- **Tools that always reply as a manner has it.** -/
structure Toolchain.Keeps (t : Toolchain) (f : Manner) : Prop where
  exchange : ∀ talk payload, (t.request talk payload).1 = f.exchange payload
  answer : ∀ talk q, (t.ask talk q).1 = f.answer q

section
variable {t : Toolchain} {f : Manner} {talk : Talk} {m m' : Moment}

theorem Toolchain.Keeps.request (h : t.Keeps f) (htalk : talk.Follows f) (payload : Json) :
    (t.request talk payload).2.Follows f := by
  refine ⟨fun payload' x hx => ?_, htalk.2⟩
  rcases List.mem_append.1 hx with hx | hx
  · exact htalk.1 payload' x hx
  · obtain ⟨rfl, rfl⟩ := Prod.mk.inj (List.mem_singleton.1 hx)
    exact h.exchange talk payload'

theorem Toolchain.Keeps.ask (h : t.Keeps f) (htalk : talk.Follows f) (q : Query) :
    (t.ask talk q).2.Follows f := by
  refine ⟨htalk.1, fun q' output hq => ?_⟩
  rcases List.mem_append.1 hq with hq | hq
  · exact htalk.2 q' output hq
  · obtain ⟨rfl, rfl⟩ := Prod.mk.inj (List.mem_singleton.1 hq)
    exact h.answer talk q'

theorem Toolchain.Keeps.does (h : t.Keeps f) (htalk : m.loop.talk.Follows f) (hdoes : Does t m m') :
    m'.loop.talk.Follows f := by
  cases hdoes with
  | staged hfollows =>
    cases hfollows with
    | read | unwritten | resumed => exact htalk
    | parsed | printed => exact h.request htalk _
  | called => exact h.ask htalk _
  | concluded _ hconcludes =>
    cases hconcludes with
    | misplaced | unusable => exact htalk
    | parsed => exact h.request htalk _
  | opened | walked | asked | heard | texted | ignored | missed | ended | settled | counted
    | closed | stopped => exact htalk

/-- **With such tools, whatever is said follows the manner.** -/
theorem Toolchain.Keeps.follows (h : t.Keeps f) {files : Files} {batches : List (List String)}
    (hreached : Reached t files batches m) : m.loop.talk.Follows f := by
  induction hreached with
  | start =>
    exact ⟨fun _ _ hx => absurd hx List.not_mem_nil, fun _ _ hq => absurd hq List.not_mem_nil⟩
  | batch _ _ _ ih => exact ih
  | step hreached hstep ih => exact h.does ih (hstep.does hreached.sound)

end

/-! ## What was written -/

/-- The files after a file is over. -/
def Ending.applied (files : Files) : Ending → Files
  | .written m => (m.write files).toOption.getD files
  | .skipped => files
  | .failed _ => files

/-- The files after some files are over, one after the other. -/
def filesAfter (files : Files) (past : List (String × Ending)) : Files :=
  past.foldl (fun files e => e.2.applied files) files

theorem filesAfter_append (files : Files) (past past' : List (String × Ending)) :
    filesAfter files (past ++ past') = filesAfter (filesAfter files past) past' :=
  List.foldl_append

/-- The files that there have been while some files were over, one after the other. -/
def FilesOf (files : Files) (past : List (String × Ending)) (files' : Files) : Prop :=
  ∃ before, before <+: past ∧ files' = filesAfter files before

theorem FilesOf.mono {files files' : Files} {past past' : List (String × Ending)}
    (h : FilesOf files past files') (hpast : past <+: past') : FilesOf files past' files' :=
  h.imp fun _ h => ⟨h.1.trans hpast, h.2⟩

/-- Whether a file was written where a path leads. -/
def MigratedFile.Covers (m : MigratedFile) (files : Files) (path : String) : Prop :=
  ∃ place, files.resolve (Path.parse m.target) = .ok place ∧
    files.resolve (Path.parse path) = .ok place

/-- The places to which files were written. -/
def WrittenTo (files : Files) (past : List (String × Ending)) (place : Trail) : Prop :=
  ∃ path m, (path, .written m) ∈ past ∧ files.resolve (Path.parse m.target) = .ok place

/-- **Only what is written changes.** -/
theorem filesAfter_differOnlyAt (files : Files) (past : List (String × Ending)) :
    Files.DifferOnlyAt (WrittenTo files past) files (filesAfter files past) := by
  induction past using List.reverseRecOn with
  | nil => exact .refl _ _
  | append_singleton past e ih =>
    obtain ⟨path, e⟩ := e
    have hmono : Files.DifferOnlyAt (WrittenTo files (past ++ [(path, e)])) files
        (filesAfter files past) :=
      ih.mono fun place ⟨other, m, hmem, hplace⟩ => ⟨other, m, List.mem_append_left _ hmem, hplace⟩
    rw [filesAfter_append]
    cases e with
    | skipped | failed => exact hmono
    | written m =>
      show Files.DifferOnlyAt _ files ((m.write (filesAfter files past)).toOption.getD _)
      cases hwrite : m.write (filesAfter files past) with
      | error cause => exact hmono
      | ok written =>
        refine hmono.trans ((MigratedFile.write_read hwrite).1.mono fun place hplace => ?_)
        exact ⟨path, m, List.mem_append_right _ (List.mem_singleton_self _),
          Files.resolve_congr ih.directories.symm hplace⟩

/-! ## Endings -/

/-- What may come of a file that was read in some files. -/
abbrev Prospect := (Files → Prop) → String → Ending → Prop

/-- **How files are over**: each as it may come to in the files that some of
those before it have left, and written to those that all before it have left. -/
inductive Endings (C : Prospect) (files : Files) : List (String × Ending) → Prop
  | nil : Endings C files []
  | snoc {past : List (String × Ending)} {path : String} {e : Ending} (h : Endings C files past)
      (hcomes : C (FilesOf files past) path e)
      (hwritten : ∀ m, e = .written m → ∃ written, m.write (filesAfter files past) = .ok written) :
      Endings C files (past ++ [(path, e)])

section
variable {C C' : Prospect} {files : Files} {past : List (String × Ending)} {path : String}
  {e : Ending}

theorem Endings.mono (h : Endings C files past) (hC : ∀ F path e, C F path e → C' F path e) :
    Endings C' files past := by
  induction h with
  | nil => exact .nil
  | snoc _ hcomes hwritten ih => exact ih.snoc (hC _ _ _ hcomes) hwritten

/-- Each ending is one that its file may come to. -/
theorem Endings.split (h : Endings C files past) {before after : List (String × Ending)}
    (hover : past = before ++ (path, e) :: after) : C (FilesOf files before) path e ∧
      ∀ m, e = .written m → ∃ written, m.write (filesAfter files before) = .ok written := by
  induction h generalizing after with
  | nil => simp at hover
  | snoc h hcomes hwritten ih =>
    rcases List.eq_nil_or_concat after with rfl | ⟨after, last, rfl⟩
    · obtain ⟨rfl, hlast⟩ := List.append_inj' hover rfl
      obtain ⟨rfl, rfl⟩ := Prod.mk.inj (List.singleton_inj.1 hlast)
      exact ⟨hcomes, hwritten⟩
    · rw [List.concat_eq_append, ← List.cons_append, ← List.append_assoc] at hover
      exact ih (List.append_inj' hover rfl).1

/-- **What is over as written stands at its target.** -/
theorem Endings.read_written (h : Endings C files past) {before after : List (String × Ending)}
    {m : MigratedFile} (hover : past = before ++ (path, .written m) :: after) :
    (filesAfter files (before ++ [(path, .written m)])).read (Path.parse m.target)
      = .ok (Utf8.encode m.text) := by
  obtain ⟨written, hwrite⟩ := (h.split hover).2 m rfl
  have hafter : filesAfter files (before ++ [(path, .written m)]) = written := by
    rw [filesAfter_append]
    show (m.write (filesAfter files before)).toOption.getD _ = written
    rw [hwrite]
    rfl
  rw [hafter]
  exact (MigratedFile.write_read hwrite).2

end

section
variable {t : Toolchain} {R : Replies} {files files' : Files} {past : List (String × Ending)}
  {path : String} {e : Ending}

/-- **A file comes to the same wherever it reads alike**, but for the reason of
its failure. -/
theorem Toolchain.ComesTo.alike (h : t.ComesTo R files path e)
    (hread : (files'.read (Path.parse path)).toOption = (files.read (Path.parse path)).toOption)
    (hdirectories : files.directories = files'.directories) :
    ∃ e', t.ComesTo R files' path e' ∧ e'.outcome = e.outcome := by
  unfold Toolchain.ComesTo at *
  cases hbytes : files.read (Path.parse path) with
  | ok bytes =>
    have hsame : t.readSource files' path = t.readSource files path := by
      rw [hbytes] at hread
      cases hbytes' : files'.read (Path.parse path) with
      | ok bytes' =>
        rw [hbytes'] at hread
        obtain rfl : bytes' = bytes := Option.some.inj hread
        rw [Toolchain.readSource, Toolchain.readSource, hbytes, hbytes']
      | error cause =>
        rw [hbytes'] at hread
        cases hread
    exact ⟨e, hsame ▸ h.congr hdirectories, rfl⟩
  | error cause =>
    rw [hbytes] at hread
    cases hbytes' : files'.read (Path.parse path) with
    | ok bytes' =>
      rw [hbytes'] at hread
      cases hread
    | error cause' =>
      rw [Toolchain.readSource, hbytes] at h
      rw [Toolchain.readSource, hbytes']
      cases h
      exact ⟨_, .failed path _, rfl⟩

/-- A file that was read when none of the others covered it comes to what it may
come to by itself. -/
theorem Toolchain.MayComeTo.own (h : t.MayComeTo R (FilesOf files past) path e)
    (hfree : ∀ other m, (other, .written m) ∈ past → ¬ m.Covers files path) :
    ∃ e', t.ComesTo R files path e' ∧ e'.outcome = e.outcome := by
  obtain ⟨_, ⟨before, hbefore, rfl⟩, hcomes⟩ := h
  have hdiffer := filesAfter_differOnlyAt files before
  refine hcomes.alike (hdiffer.toOption_read ?_).symm hdiffer.directories
  rintro place hplace ⟨other, m, hmem, hwritten⟩
  exact hfree other m (hbefore.subset hmem) ⟨place, hwritten, hplace⟩

/-- **Each file comes to what it may come to by itself**, unless one that was
over before was written over it. -/
theorem Endings.own (h : Endings (t.MayComeTo R) files past) {before after : List (String × Ending)}
    (hover : past = before ++ (path, e) :: after)
    (hfree : ∀ other m, (other, .written m) ∈ before → ¬ m.Covers files path) :
    ∃ e', t.ComesTo R files path e' ∧ e'.outcome = e.outcome :=
  (h.split hover).1.own hfree

/-- And that is its outcome, if the replies follow a manner. -/
theorem Endings.outcome {f : Manner} (h : Endings (t.MayComeTo R) files past) (hR : R ≤ f.replies)
    {before after : List (String × Ending)} (hover : past = before ++ (path, e) :: after)
    (hfree : ∀ other m, (other, .written m) ∈ before → ¬ m.Covers files path) :
    f.outcome t files path = e.outcome := by
  obtain ⟨e', hcomes, houtcome⟩ := h.own hover hfree
  rw [Manner.outcome_eq hR hcomes, houtcome]

end

end Retype.Batch
