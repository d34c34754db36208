import Mathlib.Data.List.Forall2
import Mathlib.Data.List.Infix
import Retype.Batch.Loop
/-!
# How a file begins, and what it leads to

What comes of a file depends on what is read of it and on what the other
programs reply to its own requests and questions. How its walk ends is settled
by its tree (`Begins`); each stage after it leads to one way of being over, given
the replies (`Leads`). The more replies there are, the more a stage may lead to
(`Leads.mono`).
-/

namespace Retype

/-- Why a computation was refused, if it was. -/
def Recorded.refusal? {α : Type} (r : Recorded α) : Option Refusal :=
  match r.result with
  | .ok _ => none
  | .error e => some e

/-- A recorded refusal is the result. -/
theorem Recorded.result_of_refusal? {α : Type} {r : Recorded α} {e : Refusal}
    (h : r.refusal? = some e) : r.result = .error e := by
  rcases r with ⟨findings, a | e'⟩
  · exact congrArg Except.error (Option.some.inj h)
  · cases h

/-- And the other way round. -/
theorem Recorded.refusal?_of_result {α : Type} {r : Recorded α} {e : Refusal}
    (h : r.result = .error e) : r.refusal? = some e := by
  rw [refusal?, h]

namespace Batch

open Inference (Query)

/-! ## Replies -/

/-- What may come of a request, and what may be answered to a question. -/
structure Replies where
  exchange : Json → Exchange → Prop
  answer : Query → Option String → Prop

instance : LE Replies where
  le R R' := (∀ payload x, R.exchange payload x → R'.exchange payload x) ∧
    ∀ q output, R.answer q output → R'.answer q output

/-- Replies are among themselves. -/
theorem Replies.le_refl (R : Replies) : R ≤ R := ⟨fun _ _ => id, fun _ _ => id⟩

/-- Replies among replies are among the last. -/
theorem Replies.le_trans {R R' R'' : Replies} (h : R ≤ R') (h' : R' ≤ R'') : R ≤ R'' :=
  ⟨fun payload x hx => h'.1 payload x (h.1 payload x hx),
    fun q output hq => h'.2 q output (h.2 q output hq)⟩

namespace Talk

/-- Whether one talk goes on from another one. -/
structure Continues (talk before : Talk) : Prop where
  exchanges : before.exchanges <+: talk.exchanges
  answers : before.answers <+: talk.answers

/-- What was replied after the talk before. -/
def since (talk before : Talk) : Replies where
  exchange := fun payload x => (payload, x) ∈ talk.exchanges.drop before.exchanges.length
  answer := fun q output => (q, output) ∈ talk.answers.drop before.answers.length

variable {talk talk' before : Talk}

/-- A talk continues itself. -/
theorem Continues.refl (talk : Talk) : talk.Continues talk :=
  ⟨List.prefix_refl _, List.prefix_refl _⟩

/-- Every talk goes on from the beginning. -/
theorem continues_none (talk : Talk) : talk.Continues .none := ⟨List.nil_prefix, List.nil_prefix⟩

/-- A talk that continues a continued one continues the first. -/
theorem Continues.trans (h : talk'.Continues talk) (h' : talk.Continues before) :
    talk'.Continues before :=
  ⟨h'.exchanges.trans h.exchanges, h'.answers.trans h.answers⟩

/-- A talk that goes on loses no reply. -/
theorem Continues.since_le (h : talk'.Continues talk) : talk.since before ≤ talk'.since before :=
  ⟨fun _ _ hx => (h.exchanges.drop _).subset hx, fun _ _ hq => (h.answers.drop _).subset hq⟩

/-- What was replied is in the talk. -/
theorem mem_exchanges_of_since {payload : Json} {x : Exchange}
    (h : (talk.since before).exchange payload x) : (payload, x) ∈ talk.exchanges :=
  List.mem_of_mem_drop h

end Talk

namespace Toolchain

variable {t : Toolchain} {talk before : Talk}

/-- A request continues the talk. -/
theorem continues_request (t : Toolchain) (talk : Talk) (payload : Json) :
    (t.request talk payload).2.Continues talk :=
  ⟨List.prefix_append .., List.prefix_refl _⟩

/-- So does a question to the checker. -/
theorem continues_ask (t : Toolchain) (talk : Talk) (q : Query) : (t.ask talk q).2.Continues talk :=
  ⟨List.prefix_refl _, List.prefix_append ..⟩

/-- What comes of a request is a reply from then on. -/
theorem exchange_request (h : talk.Continues before) (payload : Json) :
    ((t.request talk payload).2.since before).exchange payload (t.request talk payload).1 := by
  show _ ∈ List.drop _ (_ ++ _)
  rw [List.drop_append_of_le_length h.exchanges.length_le]
  exact List.mem_append_right _ (List.mem_singleton_self _)

/-- The answer to a question is among the replies since. -/
theorem answer_ask (h : talk.Continues before) (q : Query) :
    ((t.ask talk q).2.since before).answer q (t.ask talk q).1 := by
  show _ ∈ List.drop _ (_ ++ _)
  rw [List.drop_append_of_le_length h.answers.length_le]
  exact List.mem_append_right _ (List.mem_singleton_self _)

end Toolchain

/-! ## What is inferred -/

/-- **The type that comes of an answer**: none, or what its text is parsed to. -/
inductive Types (t : Toolchain) (R : Replies) (output : Option String) : Option Json → Prop
  | unusable (h : t.typeText output = none) : Types t R output none
  | parsed {text : String} {x : Exchange} (h : t.typeText output = some text)
      (hx : R.exchange (Bridge.parseRequest (Bridge.aliasSource text)) x) :
      Types t R output (t.parsedType x)

/-- **What is inferred for a parameter**: it stands nowhere, or its question was
answered. -/
inductive Inferred (t : Toolchain) (R : Replies) (o : Migration.FileOptions) :
    Result Location → Recorded (Option Json) → Prop
  | misplaced (e : Refusal) : Inferred t R o (.error e) (.refuse e)
  | answered {location : Location} {output : Option String} {type : Option Json}
      (h : R.answer ⟨o.path, location⟩ output) (htype : Types t R output type) :
      Inferred t R o (.ok location) (Migration.annotationInferred o location type)

/-- Whether an annotation, or none, may be inferred for a parameter. -/
def Infers (t : Toolchain) (R : Replies) (o : Migration.FileOptions) (l : Result Location)
    (type : Option Json) : Prop :=
  ∃ r, Inferred t R o l r ∧ r.result = .ok type

section
variable {t : Toolchain} {R R' : Replies} {o : Migration.FileOptions} {l : Result Location}

/-- What a type was read from is there when there are more replies. -/
theorem Types.mono {output : Option String} {type : Option Json} (h : Types t R output type)
    (hR : R ≤ R') : Types t R' output type := by
  cases h with
  | unusable h => exact .unusable h
  | parsed h hx => exact .parsed h (hR.1 _ _ hx)

/-- So is what an annotation was inferred from. -/
theorem Inferred.mono {r : Recorded (Option Json)} (h : Inferred t R o l r) (hR : R ≤ R') :
    Inferred t R' o l r := by
  cases h with
  | misplaced e => exact .misplaced e
  | answered h htype => exact .answered (hR.2 _ _ h) (htype.mono hR)

/-- So is what a parameter got its annotation from. -/
theorem Infers.mono {type : Option Json} (h : Infers t R o l type) (hR : R ≤ R') :
    Infers t R' o l type :=
  h.imp fun _ hr => ⟨hr.1.mono hR, hr.2⟩

/-- A type was parsed, if one was inferred. -/
theorem Types.parsed_of_some {output : Option String} {type : Json}
    (h : Types t R output (some type)) : ∃ payload x, R.exchange payload x ∧
      t.parsedType x = some type := by
  generalize htype : some type = result at h ⊢
  cases h with
  | unusable => cases htype
  | parsed _ hx => exact ⟨_, _, hx, rfl⟩

end

/-! ## Beginnings -/

/-- **The ways in which the walk of a tree ends**: the rewriting is refused, no
parameter waits, or some do. -/
inductive Begins (o : Migration.FileOptions) (source : Option String) : Beginning → Prop
  | refused {p : Migration.Progress} {tree : Json} {e : Refusal}
      (h : Migration.rewriteTree o tree = (.error e, p)) :
      Begins o source ⟨p.findings, .ofProgress o source p tree false,
        some (.settle o.path (.error (.refused e)))⟩
  | settled {p : Migration.Progress} {tree rewritten : Json}
      (h : Migration.rewriteTree o tree = (.ok rewritten, p)) (hnone : p.waiting = []) :
      Begins o source ⟨p.findings, .ofProgress o source p rewritten false,
        some (Walked.ofProgress o source p rewritten false).onward⟩
  | waiting {p : Migration.Progress} {tree rewritten : Json}
      (h : Migration.rewriteTree o tree = (.ok rewritten, p)) (hsome : p.waiting ≠ []) :
      Begins o source ⟨p.findings, .ofProgress o source p rewritten true, none⟩

/-- **Every walk ends in one of these ways.** -/
theorem Beginning.begins (o : Migration.FileOptions) (source : Option String) (tree : Json) :
    Begins o source (.ofTree o source tree) := by
  unfold ofTree
  rcases h : Migration.rewriteTree o tree with ⟨e | rewritten, p⟩
  · exact .refused h
  · dsimp only
    cases hwaiting : p.waiting with
    | nil => exact .settled h hwaiting
    | cons l rest => exact .waiting h (by simp [hwaiting])

namespace Begins

variable {o : Migration.FileOptions} {source : Option String} {b : Beginning}
  (h : Begins o source b)
include h

/-- A file keeps its options through its beginning. -/
theorem options_eq : b.walked.options = o := by cases h <;> rfl

/-- It keeps its source. -/
theorem source_eq : b.walked.source = source := by cases h <;> rfl

/-- No parameter of a file that has just been walked has its annotation. -/
theorem annotations_eq : b.walked.annotations = b.walked.locations.map fun _ => none := by
  cases h <;> rfl

/-- As many answers are missing as there are parameters. -/
theorem missing_eq : b.walked.missing = b.walked.locations.length := by cases h <;> rfl

/-- A file waits if and only if nothing is next for it. -/
theorem waits_eq : b.walked.waits = b.next.isNone := by cases h <;> rfl

/-- A file that waits misses an answer. -/
theorem one_le_missing (hwaits : b.walked.waits = true) : 1 ≤ b.walked.missing := by
  cases h with
  | refused | settled => cases hwaits
  | waiting _ hsome => exact List.length_pos_iff.2 hsome

/-- A file that goes on at once has no parameter that waits, unless its
rewriting is refused. -/
theorem locations_eq_nil {job : Job} (hjob : b.next = some job)
    (hrefused : ∀ e, job ≠ .settle o.path (.error (.refused e))) : b.walked.locations = [] := by
  cases h with
  | refused => exact absurd (Option.some.inj hjob).symm (hrefused _)
  | settled _ hnone => exact hnone
  | waiting => cases hjob

end Begins

/-! ## What a stage leads to -/

/-- **How a file goes on that waits**: with the refusal of one of its parameters,
or with the annotations of all of them. -/
inductive Walked.GoesOn (t : Toolchain) (R : Replies) (w : Walked) : Job → Prop
  | refused {l : Result Location} {r : Recorded (Option Json)} {e : Refusal}
      (hl : l ∈ w.locations) (h : Inferred t R w.options l r) (hr : r.result = .error e) :
      GoesOn t R w (w.conclusion (some e))
  | finished {types : List (Option Json)}
      (h : List.Forall₂ (Infers t R w.options) w.locations types) :
      GoesOn t R w { w with annotations := types }.onward

/-- **How a file goes on that has begun.** -/
inductive Beginning.GoesOn (t : Toolchain) (R : Replies) (b : Beginning) : Job → Prop
  | atOnce {job : Job} (h : b.next = some job) : GoesOn t R b job
  | later {job : Job} (hnone : b.next = none) (h : b.walked.GoesOn t R job) : GoesOn t R b job

/-- **How a file may be over after a stage**, given what may be replied. A
migrated file is written, or cannot be written, to files with the directories of
the given ones. -/
inductive Leads (t : Toolchain) (R : Replies) (files : Files) : Job → Ending → Prop
  | failed (path : String) (cause : Failure) :
      Leads t R files (.settle path (.error cause)) (.failed cause)
  | skipped (path : String) : Leads t R files (.settle path (.ok .tooLarge)) .skipped
  | written (path : String) {m : MigratedFile} {files' written : Files}
      (hfiles : files'.directories = files.directories) (h : m.write files' = .ok written) :
      Leads t R files (.settle path (.ok (.file m))) (.written m)
  | unwritten (path : String) {m : MigratedFile} {files' : Files} {cause : Failure}
      (hfiles : files'.directories = files.directories) (h : m.write files' = .error cause) :
      Leads t R files (.settle path (.ok (.file m))) (.failed cause)
  | printed {path source : String} {tree : Json} {hasJsx : Bool} {x : Exchange} {e : Ending}
      (hx : R.exchange (t.printRequest source tree) x)
      (h : Leads t R files (.settle path ((t.printed path hasJsx x).map .file)) e) :
      Leads t R files (.print path source tree hasJsx) e
  | walked {path source : String} {tree : Json} {job : Job} {e : Ending}
      (hjob : (Beginning.ofTree (t.fileOptions path) (some source) tree).GoesOn t R job)
      (h : Leads t R files job e) : Leads t R files (.walk path source tree) e
  | parsed {path source : String} {x : Exchange} {e : Ending}
      (hx : R.exchange (Bridge.parseRequest source) x)
      (h : Leads t R files (Loop.afterParsing path source (t.parsed x)) e) :
      Leads t R files (.parse path source) e

/-- **How a file may be over** that is read in some files. -/
def Toolchain.ComesTo (t : Toolchain) (R : Replies) (files : Files) (path : String) (e : Ending) :
    Prop :=
  Leads t R files (Loop.afterReading path (t.readSource files path)) e

section
variable {t : Toolchain} {R R' : Replies} {files : Files} {job : Job} {e : Ending} (hR : R ≤ R')
include hR

/-- A file goes on the same way when there are more replies. -/
theorem Walked.GoesOn.mono {w : Walked} (h : w.GoesOn t R job) : w.GoesOn t R' job := by
  cases h with
  | refused hl h hr => exact .refused hl (h.mono hR) hr
  | finished h => exact .finished (h.imp fun _ _ h => h.mono hR)

/-- So it does from its beginning. -/
theorem Beginning.GoesOn.mono {b : Beginning} (h : b.GoesOn t R job) : b.GoesOn t R' job := by
  cases h with
  | atOnce h => exact .atOnce h
  | later hnone h => exact .later hnone (h.mono hR)

/-- **More replies lead to more.** -/
theorem Leads.mono (h : Leads t R files job e) : Leads t R' files job e := by
  induction h with
  | failed path cause => exact .failed path cause
  | skipped path => exact .skipped path
  | written path hfiles h => exact .written path hfiles h
  | unwritten path hfiles h => exact .unwritten path hfiles h
  | printed hx _ ih => exact .printed (hR.1 _ _ hx) ih
  | walked hjob _ ih => exact .walked (hjob.mono hR) ih
  | parsed hx _ ih => exact .parsed (hR.1 _ _ hx) ih

end

/-- Only the directories of the files count. -/
theorem Leads.congr {t : Toolchain} {R : Replies} {files files' : Files} {job : Job} {e : Ending}
    (h : Leads t R files job e) (hfiles : files.directories = files'.directories) :
    Leads t R files' job e := by
  induction h with
  | failed path cause => exact .failed path cause
  | skipped path => exact .skipped path
  | written path hwritten h => exact .written path (hwritten.trans hfiles) h
  | unwritten path hwritten h => exact .unwritten path (hwritten.trans hfiles) h
  | printed hx _ ih => exact .printed hx ih
  | walked hjob _ ih => exact .walked hjob ih
  | parsed hx _ ih => exact .parsed hx ih

end Batch

end Retype
