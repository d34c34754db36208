import Retype.Proofs.Batch.Outcome
import Retype.Proofs.Migration.Findings
/-!
# How a batch is served

However the jobs of a batch follow each other, the batch stops, and then each of
its entries is over once: written, skipped or failed (`batch_is_served`). What
was found about files, what was logged and what was written is what the endings
say, no more and no less. The loop serves its batches so (`Loop.batch_served`).
-/

namespace Retype

/-- Whether a finding is about a whole file. -/
def Finding.isFile : Finding → Bool
  | .file .. => true
  | _ => false

theorem Finding.IsIn.not_isFile {path : String} {f : Finding} (h : f.IsIn path) :
    f.isFile = false := by
  cases f with
  | file => cases h
  | place | anyAlias | utilityType => rfl

theorem filter_isFile_eq_nil {path : String} {findings : List Finding}
    (h : ∀ f ∈ findings, f.IsIn path) : findings.filter Finding.isFile = [] :=
  List.filter_eq_nil_iff.2 fun f hf => by simp [(h f hf).not_isFile]

namespace Batch

open Inference (Query Entry)

/-- Whether an entry of the log is about a file that has failed. -/
def LogEntry.isFailure : LogEntry → Bool
  | .failed .. => true
  | _ => false

/-! ## Files that were walked -/

/-- Whether the parameters of a walked file stand in it. -/
def Walked.InPlace (w : Walked) : Prop := ∀ l, .ok l ∈ w.locations → l.path = w.options.path

theorem Walked.SameFile.inPlace {w w₀ : Walked} (h : w.SameFile w₀) (h₀ : w₀.InPlace) :
    w.InPlace := by
  intro l hl
  rw [h.options]
  exact h₀ l (h.locations ▸ hl)

section
variable {o : Migration.FileOptions} {source : Option String} {b : Beginning}
  (h : Begins o source b)
include h

theorem Begins.progress_isIn : ∃ p : Migration.Progress, p.IsIn o.path ∧
    b.findings = p.findings ∧ b.walked.locations = p.waiting := by
  have hrewritten : ∀ {tree result p}, Migration.rewriteTree o tree = (result, p) → p.IsIn o.path :=
    fun {tree _ _} htree => by
    have hin := Migration.rewriteTree_isIn o tree
    rwa [htree] at hin
  cases h with
  | refused htree | settled htree | waiting htree => exact ⟨_, hrewritten htree, rfl, rfl⟩

/-- What is found when a file is walked stands in it. -/
theorem Begins.isIn : ∀ f ∈ b.findings, f.IsIn o.path := by
  obtain ⟨p, hin, hfindings, -⟩ := h.progress_isIn
  exact hfindings ▸ hin.findings

theorem Begins.inPlace : b.walked.InPlace := by
  obtain ⟨p, hin, -, hlocations⟩ := h.progress_isIn
  intro l hl
  rw [h.options_eq]
  exact hin.waiting l (hlocations ▸ hl)

end

/-- What is found when a parameter gets its annotation stands in its file. -/
theorem Concludes.isIn {t : Toolchain} {s : Loop} {c : Caller} {w : Walked} {l : Result Location}
    {job : Job} {r : Recorded (Option Json)} {talk : Talk} {entries : List LogEntry}
    (h : Concludes t s c w l job r talk entries) (hw : w.InPlace) (hstands : s.Stands c w l) :
    ∀ f ∈ r.findings, f.IsIn w.options.path := by
  have hinferred : ∀ {location : Location} (type : Option Json), l = .ok location →
      ∀ f ∈ (Migration.annotationInferred w.options location type).findings,
        f.IsIn w.options.path :=
    fun {location} type hl f hf => (Migration.annotationInferred_finds w.options type
      (hw location (List.mem_of_getElem? (hl ▸ hstands.2))) f hf).isIn
  cases h with
  | misplaced => exact List.forall_mem_nil _
  | unusable => exact hinferred _ rfl
  | parsed => exact hinferred _ rfl

section
variable {t : Toolchain} {files : Files} {batches : List (List String)} {m m' : Moment}

theorem Does.inPlace (h : Does t m m') (hs : Sound m) (hold : ∀ w ∈ m.loop.walked, w.InPlace) :
    ∀ w ∈ m'.loop.walked, w.InPlace := by
  intro w hw
  obtain ⟨i, hi, rfl⟩ := List.getElem_of_mem hw
  rcases h.walked_inv hs (List.getElem?_eq_getElem hi) with
    ⟨w₀, hw₀, hsame, -⟩ | ⟨path, source, tree, b, hb, -, -, heq⟩
  · exact hsame.inPlace (hold w₀ (List.mem_of_getElem? hw₀))
  · exact heq ▸ (hb ▸ Beginning.begins .. : Begins _ _ b).inPlace

/-- **The parameters of a file that was walked stand in it.** -/
theorem Reached.inPlace (h : Reached t files batches m) : ∀ w ∈ m.loop.walked, w.InPlace := by
  induction h with
  | start => exact List.forall_mem_nil _
  | batch _ _ _ ih => exact ih
  | step hreached hstep ih => exact (hstep.does hreached.sound).inPlace hreached.sound ih

/-! ## What a step says -/

/-- **What a step says**: which file is over with it, and what is found and
logged. -/
inductive Says (t : Toolchain) (m : Moment) :
    List (String × Ending) → List Finding → List LogEntry → Prop
  | nothing : Says t m [] [] []
  | asked {e : Entry Caller} (hcall : .call e ∈ m.tasks) : Says t m [] [] [.asked e.query]
  | walked {path source : String} {tree : Json} (hwalk : .walk path source tree ∈ m.tasks) :
      Says t m [] (Beginning.ofTree (t.fileOptions path) (some source) tree).findings []
  | inferred {c : Caller} {w : Walked} {l : Result Location} {job : Job}
      {r : Recorded (Option Json)} {talk : Talk} {entries : List LogEntry}
      (hstands : m.loop.Stands c w l) (h : Concludes t m.loop c w l job r talk entries)
      (hjob : job ∈ m.tasks) : Says t m [] r.findings entries
  | past {path : String} {r : Except Failure Done} {e : Ending} {files : Files}
      (hjob : .settle path r ∈ m.tasks) (h : Settles m.loop.files r e files) :
      Says t m [(path, e)] (e.findings path) (e.entries path)

theorem Settles.applied {files files' : Files} {r : Except Failure Done} {e : Ending}
    (h : Settles files r e files') : files' = e.applied files := by
  cases h with
  | written h => rw [Ending.applied, h]; rfl
  | skipped => rfl
  | failed => rfl

/-- Each step says one of these things, and writes what it says. -/
theorem Does.says (h : Does t m m') : ∃ ends findings entries, Says t m ends findings entries ∧
    m'.loop.past = m.loop.past ++ ends ∧ m'.loop.files = filesAfter m.loop.files ends ∧
    m'.loop.findings = m.loop.findings ++ findings ∧ m'.loop.log = m.loop.log ++ entries := by
  have hnil {α : Type} (l : List α) : l = l ++ [] := (List.append_nil l).symm
  cases h with
  | opened | staged | asked | heard | texted | ignored | missed | ended | counted | closed
    | stopped => exact ⟨_, _, _, .nothing, hnil _, rfl, hnil _, hnil _⟩
  | walked hb =>
    exact ⟨_, _, _, .walked (Multiset.mem_cons_self ..), hnil _, rfl, hb ▸ rfl, hnil _⟩
  | called => exact ⟨_, _, _, .asked (Multiset.mem_cons_self ..), hnil _, rfl, hnil _, rfl⟩
  | concluded hstands h =>
    exact ⟨_, _, _, .inferred hstands h (Multiset.mem_cons_self ..), hnil _, rfl, rfl, rfl⟩
  | settled h => exact ⟨_, _, _, .past (Multiset.mem_cons_self ..) h, rfl, h.applied, rfl, rfl⟩

/-- **What is said about whole files is what their endings say.** -/
theorem Says.ends {ends : List (String × Ending)} {findings : List Finding}
    {entries : List LogEntry} (h : Says t m ends findings entries)
    (hplace : ∀ w ∈ m.loop.walked, w.InPlace) :
    findings.filter Finding.isFile = ends.flatMap (fun e => e.2.findings e.1) ∧
      entries.filter LogEntry.isFailure = ends.flatMap fun e => e.2.entries e.1 := by
  cases h with
  | nothing | asked => exact ⟨rfl, rfl⟩
  | walked => exact ⟨filter_isFile_eq_nil (Beginning.begins ..).isIn, rfl⟩
  | inferred hstands h =>
    refine ⟨filter_isFile_eq_nil (h.isIn (hplace _ (List.mem_of_getElem? hstands.1)) hstands), ?_⟩
    cases h <;> rfl
  | @past path r e => cases e <;> exact ⟨rfl, rfl⟩

/-! ## A run of a batch -/

/-- **What a run has done since a moment**: the files that are over since then
are those of `ends`, and what was written, found and logged is what these say. -/
structure Ran (t : Toolchain) (m m' : Moment) (ends : List (String × Ending)) : Prop where
  past : m'.loop.past = m.loop.past ++ ends
  disk : m'.loop.files = filesAfter m.loop.files ends
  found : m'.loop.findings.filter Finding.isFile
    = m.loop.findings.filter Finding.isFile ++ ends.flatMap fun e => e.2.findings e.1
  logged : m'.loop.log.filter LogEntry.isFailure
    = m.loop.log.filter LogEntry.isFailure ++ ends.flatMap fun e => e.2.entries e.1
  endings : Endings (t.MayComeTo (m'.replies m)) m.loop.files ends
  traced : Traced t m (FilesOf m.loop.files ends) m'

/-- At rest nothing has been done. -/
theorem Moment.Rests.ran (h : m.Rests) (t : Toolchain) : Ran t m m [] where
  past := (List.append_nil _).symm
  disk := rfl
  found := (List.append_nil _).symm
  logged := (List.append_nil _).symm
  endings := .nil
  traced := by
    have hfiles : FilesOf m.loop.files [] = (· = m.loop.files) := by
      funext files
      refine propext ⟨fun ⟨before, hbefore, heq⟩ => ?_, fun heq => ⟨[], List.prefix_refl _, heq⟩⟩
      obtain rfl := List.prefix_nil.1 hbefore
      exact heq
    exact hfiles ▸ h.traced

/-- A batch that begins does nothing yet. -/
theorem Ran.opening {start : Moment} {ends : List (String × Ending)} (h : Ran t start m ends)
    (paths : List String) : Ran t start (m.opening paths) ends :=
  ⟨h.past, h.disk, h.found, h.logged, h.endings, h.traced.opening paths⟩

/-- **Each step goes on with a run.** -/
theorem Ran.step {start : Moment} {ends : List (String × Ending)} (h : Ran t start m ends)
    (hs : Sound m) (hplace : ∀ w ∈ m.loop.walked, w.InPlace) (hdoes : Does t m m') :
    ∃ ends', Ran t start m' (ends ++ ends') := by
  obtain ⟨ends', findings, entries, hsays, hover, hfiles, hfindings, hlog⟩ := hdoes.says
  obtain ⟨hfound, hlogged⟩ := hsays.ends hplace
  have hdisk : m'.loop.files = filesAfter start.loop.files (ends ++ ends') := by
    rw [hfiles, h.disk, filesAfter_append]
  have hdirectories : ∀ files, FilesOf start.loop.files (ends ++ ends') files →
      files.directories = m'.loop.files.directories := by
    rintro _ ⟨before, -, rfl⟩
    rw [hdisk, (filesAfter_differOnlyAt _ before).directories,
      (filesAfter_differOnlyAt _ (ends ++ ends')).directories]
  refine ⟨ends', ?_, hdisk, ?_, ?_, ?_, hdoes.traced hs h.traced
    (fun _ hf => hf.mono (List.prefix_append ..)) ⟨_, List.prefix_refl _, hdisk⟩ hdirectories⟩
  · rw [hover, h.past, List.append_assoc]
  · rw [hfindings, List.filter_append, hfound, h.found, List.flatMap_append, List.append_assoc]
  · rw [hlog, List.filter_append, hlogged, h.logged, List.flatMap_append, List.append_assoc]
  · have hendings : Endings (t.MayComeTo (m'.replies start)) start.loop.files ends :=
      h.endings.mono fun _ _ _ hcomes => hcomes.mono hdoes.replies_le fun _ => id
    cases hsays with
    | nothing | asked | walked | inferred => exact (List.append_nil ends).symm ▸ hendings
    | past hjob hsettles =>
      refine hendings.snoc ((h.traced.settled hjob hsettles).mono hdoes.replies_le fun _ => id) ?_
      rintro mf rfl
      cases hsettles with
      | written hwrite => exact ⟨_, h.disk ▸ hwrite⟩

/-- **How a batch is served** between two moments: its entries are over in the
order of `ends`, each of them once, and what is said of them is what was done. -/
structure Served (t : Toolchain) (m m' : Moment) (paths : List String)
    (ends : List (String × Ending)) : Prop where
  past : m'.loop.past = m.loop.past ++ ends
  once : (ends.map (·.1)).Perm paths
  disk : m'.loop.files = filesAfter m.loop.files ends
  /-- Nothing is written but the targets of the files that are over as written. -/
  untouched : Files.DifferOnlyAt (WrittenTo m.loop.files ends) m.loop.files m'.loop.files
  /-- These are written indeed. -/
  written : ∀ before path mf after, ends = before ++ (path, .written mf) :: after →
    (filesAfter m.loop.files (before ++ [(path, .written mf)])).read (Path.parse mf.target)
      = .ok (Utf8.encode mf.text)
  /-- A file that is skipped or has failed is found once, a written one never. -/
  found : m'.loop.findings.filter Finding.isFile
    = m.loop.findings.filter Finding.isFile ++ ends.flatMap fun e => e.2.findings e.1
  logged : m'.loop.log.filter LogEntry.isFailure
    = m.loop.log.filter LogEntry.isFailure ++ ends.flatMap fun e => e.2.entries e.1
  /-- A file comes to what it may come to by itself, given what was replied
  meanwhile, unless another one was written over it. -/
  own : ∀ before path e after, ends = before ++ (path, e) :: after →
    (∀ other mf, (other, .written mf) ∈ before → ¬ mf.Covers m.loop.files path) →
      ∃ e', t.ComesTo (m'.replies m) m.loop.files path e' ∧ e'.outcome = e.outcome
  /-- If each of these replies is a function of what was said, that is one outcome,
  whatever comes of the other files. -/
  alone : ∀ f : Manner, m'.replies m ≤ f.replies →
    ∀ before path e after, ends = before ++ (path, e) :: after →
    (∀ other mf, (other, .written mf) ∈ before → ¬ mf.Covers m.loop.files path) →
      f.outcome t m.loop.files path = e.outcome

/-- **A run goes on from its beginning.** -/
theorem Reached.ran (h : Reached t files batches m)
    (hrest : batches = [] ∨ m.loop.stopped = true) (paths : List String)
    (hrun : Relation.ReflTransGen (Step t) (m.opening paths) m') : ∃ ends, Ran t m m' ends := by
  have hopened := h.batch hrest paths
  induction hrun with
  | refl => exact ⟨[], ((h.rests hrest).1.ran t).opening paths⟩
  | tail hrun hstep ih =>
    obtain ⟨ends, hran⟩ := ih
    have hreached := hopened.run hrun
    obtain ⟨ends', hran'⟩ := hran.step hreached.sound hreached.inPlace (hstep.does hreached.sound)
    exact ⟨_, hran'⟩

/-- Whatever is reached is a run from the start. -/
theorem Reached.ran_ofFiles (h : Reached t files batches m) :
    Ran t (.ofFiles files) m m.loop.past := by
  induction h with
  | start => exact (rests_ofFiles files).ran t
  | batch _ _ paths ih => exact ih.opening paths
  | step hreached hstep ih =>
    obtain ⟨ends, hran⟩ := ih.step hreached.sound hreached.inPlace (hstep.does hreached.sound)
    exact hran.past ▸ hran

/-- A batch that has stopped has been served. -/
theorem Reached.served (h : Reached t files batches m)
    (hrest : batches = [] ∨ m.loop.stopped = true) (paths : List String)
    (hrun : Relation.ReflTransGen (Step t) (m.opening paths) m')
    (hstopped : m'.loop.stopped = true) : ∃ ends, Served t m m' paths ends := by
  obtain ⟨ends, hran⟩ := h.ran hrest paths hrun
  have hperm := (((h.rests hrest).1.opening paths).run hrun |>.rests hstopped).2
  rw [hran.past, List.map_append] at hperm
  exact ⟨ends, hran.past, (List.perm_append_left_iff _).1 hperm, hran.disk,
    hran.disk ▸ filesAfter_differOnlyAt m.loop.files ends,
    fun _ _ _ _ => hran.endings.read_written, hran.found, hran.logged,
    fun _ _ _ _ => hran.endings.own, fun _ hR _ _ _ _ => hran.endings.outcome hR⟩

/-- A batch of one file, in which that file comes to its own outcome. -/
theorem Served.single {f : Manner} {path : String} {ends : List (String × Ending)}
    (h : Served t m m' [path] ends) (hR : m'.replies m ≤ f.replies) :
    ∃ e, ends = [(path, e)] ∧ f.outcome t m.loop.files path = e.outcome := by
  obtain ⟨⟨path', e⟩, rfl, rfl⟩ := List.map_eq_singleton_iff.1 (List.perm_singleton.1 h.once)
  exact ⟨e, rfl, h.alone f hR [] path' e [] rfl (by simp)⟩

/-- **The loop serves its batches.** -/
theorem Loop.batch_served {s : Loop} (h : Reached t files batches (.ofLoop s))
    (hrest : batches = [] ∨ s.stopped = true) (hstages : s.stages = []) (paths : List String) :
    (s.batch t paths).stopped = true ∧
      ∃ ends, Served t (.ofLoop s) (.ofLoop (s.batch t paths)) paths ends := by
  obtain ⟨hsteps, hstopped, -⟩ := batch_serves (h.rests hrest).1 hstages t paths
  exact ⟨hstopped, h.served hrest paths hsteps hstopped⟩

end

/-! ## Tools that know some texts -/

/-- The tree of a program with some statements. -/
def programOf (statements : List Json) : Json :=
  .obj [("type", .str "File"),
    ("program", .obj [("type", .str "Program"), ("body", .arr statements)])]

/-- What is responded to a request by someone who knows the trees of some texts,
and prints a text with a mark. -/
def respond (trees : List (String × Json)) (request : Json) : Json :=
  if request.hasText "op" "parse" then
    match trees.lookup (request.textAt "source") with
    | some tree => .obj [("tree", tree)]
    | none => .obj [("error", .str "unknown")]
  else .obj [("code", .str ("// printed\n" ++ request.textAt "source"))]

/-- Tools that respond so. -/
def Toolchain.knowing (trees : List (String × Json)) (checker : Option Checker) : Toolchain where
  settings := Config.defaultMigrate (some 1)
  bridge :=
    { command := ["node"]
      printer := Config.defaultPrinter
      react := fun _ request => ⟨none, none, .ok (some (respond trees request))⟩ }
  checker := checker

/-- And their manner, if the answer to a question is a function of it. -/
def Manner.knowing (trees : List (String × Json)) (answer : Query → Option String) : Manner where
  exchange := fun request => .response (respond trees request)
  answer := answer

theorem Toolchain.knowing_keeps (trees : List (String × Json)) {checker : Option Checker}
    {answer : Query → Option String}
    (h : ∀ earlier q, checker.bind (fun c => c.ask earlier q) = answer q) :
    (Toolchain.knowing trees checker).Keeps (.knowing trees answer) where
  exchange := fun ⟨connection, _, _⟩ payload => by cases connection <;> rfl
  answer := fun _ q => h _ q

end Batch

end Retype
