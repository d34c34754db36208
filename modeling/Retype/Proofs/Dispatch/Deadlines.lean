import Mathlib.Data.List.DropRight
import Retype.Proofs.Dispatch.Conservation
import Retype.Proofs.Text.Ascii
/-!
# Deadlines of batches

A session has a deadline from the moment its batch is sent until the worker
answers or the batch has been reported as stalled. While a run goes on a
deadline stands beside the batch it is for (`clocked_of_reaches`), a wait
lasts until the earliest of them (`patience_spec`), and since a report takes
the deadline away, no batch is reported twice (`announced_of_reaches`).
-/

namespace Retype

/-! ## The order of times -/

namespace Double

theorem lt_iff {x y : Double} :
    x.lt y = true ↔ x.isNaN = false ∧ y.isNaN = false ∧ x.orderKey < y.orderKey := by
  simp [lt, and_assoc]

theorem lt_trans {x y z : Double} (h : x.lt y) (h' : y.lt z) : x.lt z := by
  obtain ⟨hx, -, hxy⟩ := lt_iff.1 h
  obtain ⟨-, hz, hyz⟩ := lt_iff.1 h'
  exact lt_iff.2 ⟨hx, hz, hxy.trans hyz⟩

/-- What is before a time is before every time that is not before that one. -/
theorem lt_of_lt_of_not_lt {x y z : Double} (h : x.lt y) (h' : ¬ z.lt y) (hz : z.isNaN = false) :
    x.lt z := by
  obtain ⟨hx, hy, hxy⟩ := lt_iff.1 h
  refine lt_iff.2 ⟨hx, hz, hxy.trans_le ?_⟩
  by_contra hzy
  exact h' (lt_iff.2 ⟨hz, hy, by omega⟩)

theorem not_lt_nan {x y : Double} (h : y.isNaN) : ¬ x.lt y := fun hlt => by
  have hy := (lt_iff.1 hlt).2.1
  rw [h] at hy
  cases hy

/-- A positive number is not negative, and neither is zero. -/
theorem isNegative_eq_false_of_isPositive {x : Double} (h : x.isPositive) :
    x.isNegative = false := by
  obtain ⟨-, -, hpos⟩ := lt_iff.1 h
  refine Bool.eq_false_iff.2 fun hneg => ?_
  obtain ⟨-, -, hneg⟩ := lt_iff.1 hneg
  omega

end Double

namespace Dispatch

variable {σ : Type} {w : Surroundings σ} {o : Settings}

open Session

/-! ## How long to wait -/

namespace Run

theorem foldl_earlier_nan (ds : List Double) {d : Double} (h : d.isNaN) :
    ds.foldl earlier d = d := by
  induction ds with
  | nil => rfl
  | cons e ds ih =>
    rw [List.foldl_cons, earlier, if_neg (Double.not_lt_nan h)]
    exact ih

/-- The earliest of some times is one of them, and none is before it. -/
theorem foldl_earlier (ds : List Double) (d : Double) :
    ds.foldl earlier d ∈ d :: ds ∧ ∀ e ∈ d :: ds, ¬ e.lt (ds.foldl earlier d) := by
  induction ds generalizing d with
  | nil =>
    refine ⟨List.mem_singleton_self d, fun e he hlt => ?_⟩
    rw [List.mem_singleton.1 he] at hlt
    have hself := (Double.lt_iff.1 hlt).2.2
    rw [List.foldl_nil] at hself
    omega
  | cons e ds ih =>
    obtain ⟨hmem, hleast⟩ := ih (earlier d e)
    rw [List.foldl_cons]
    by_cases hearlier : e.lt d
    · have hfirst : earlier d e = e := if_pos hearlier
      rw [hfirst] at hmem hleast ⊢
      refine ⟨List.mem_cons_of_mem d hmem, fun x hx hlt => ?_⟩
      rcases List.mem_cons.1 hx with rfl | hx
      · exact hleast e List.mem_cons_self (Double.lt_trans hearlier hlt)
      · exact hleast x hx hlt
    · have hfirst : earlier d e = d := if_neg hearlier
      rw [hfirst] at hmem hleast ⊢
      refine ⟨?_, fun x hx hlt => ?_⟩
      · rcases List.mem_cons.1 hmem with heq | hmem
        · rw [heq]
          exact List.mem_cons_self
        · exact List.mem_cons_of_mem d (List.mem_cons_of_mem e hmem)
      · rcases List.mem_cons.1 hx with rfl | hx
        · exact hleast x List.mem_cons_self hlt
        · rcases List.mem_cons.1 hx with rfl | hx
          · -- a first time that is no number stays the earliest, and nothing is before it
            cases hnan : d.isNaN with
            | true =>
              rw [foldl_earlier_nan ds hnan] at hlt
              exact Double.not_lt_nan hnan hlt
            | false =>
              exact hearlier (Double.lt_of_lt_of_not_lt hlt (hleast d List.mem_cons_self) hnan)
          · exact hleast x (List.mem_cons_of_mem d hx) hlt

theorem earliest?_eq_none {xs : List Session} :
    earliest? xs = none ↔ ∀ x ∈ xs, x.deadline = none := by
  have hall : earliest? xs = none ↔ xs.filterMap (·.deadline) = [] := by
    unfold earliest?
    cases xs.filterMap (·.deadline) with
    | nil => exact ⟨fun _ => rfl, fun _ => rfl⟩
    | cons d ds => simp
  rw [hall, List.filterMap_eq_nil_iff]

theorem earliest?_eq_some {xs : List Session} {d : Double} (h : earliest? xs = some d) :
    (∃ x ∈ xs, x.deadline = some d) ∧
      ∀ y ∈ xs, ∀ d', y.deadline = some d' → d'.lt d = false := by
  unfold earliest? at h
  split at h
  · cases h
  · rename_i first more hall
    obtain rfl := Option.some.inj h
    obtain ⟨hmem, hleast⟩ := foldl_earlier more first
    rw [← hall] at hmem hleast
    refine ⟨List.mem_filterMap.1 hmem, fun y hy d' hd' => Bool.eq_false_iff.2 ?_⟩
    exact hleast d' (List.mem_filterMap.2 ⟨y, hy, hd'⟩)

end Run

/-- **How long a run waits** for some sessions: for ever if none has a
deadline, and otherwise what is left until the earliest, which is nothing once
that is over. -/
structure Patient (w : Surroundings σ) (xs : List Session) (u : σ) (t : Option Double) : Prop where
  forever : t = none ↔ ∀ x ∈ xs, x.deadline = none
  until_earliest : ∀ time, t = some time →
    ∃ x ∈ xs, ∃ d, x.deadline = some d ∧
      (∀ y ∈ xs, ∀ d', y.deadline = some d' → d'.lt d = false) ∧
      time = (if (d.sub (w.now u)).isPositive then d.sub (w.now u) else Double.zero false) ∧
      time.isNegative = false

theorem patience_spec (w : Surroundings σ) (xs : List Session) (u : σ) :
    Patient w xs u (Run.patience w xs u) := by
  constructor
  · rw [Run.patience, Option.map_eq_none_iff, Run.earliest?_eq_none]
  · intro time htime
    obtain ⟨d, hd, rfl⟩ := Option.map_eq_some_iff.1 htime
    obtain ⟨⟨x, hx, hxd⟩, hleast⟩ := Run.earliest?_eq_some hd
    refine ⟨x, hx, d, hxd, hleast, rfl, ?_⟩
    dsimp only
    split_ifs with hpos
    · exact Double.isNegative_eq_false_of_isPositive hpos
    · decide

/-! ## A deadline stands beside its batch -/

/-- The batch that is handed to a worker. -/
def Event.batchTo? (number : Nat) : Event → Option (List String)
  | .sent n (.batch files) => if n = number then some files else none
  | _ => none

/-- The batch that a worker was sent last. -/
def lastBatch? (number : Nat) (events : List Event) : Option (List String) :=
  (events.filterMap (Event.batchTo? number)).getLast?

theorem lastBatch?_append (number : Nat) (events more : List Event) :
    lastBatch? number (events ++ more) =
      (lastBatch? number more).or (lastBatch? number events) := by
  rw [lastBatch?, List.filterMap_append, List.getLast?_append]
  rfl

/-- Events that hand a worker nothing leave its last batch. -/
theorem lastBatch?_of_quiet {number : Nat} {events more : List Event}
    (h : ∀ e ∈ more, e.batchTo? number = none) :
    lastBatch? number (events ++ more) = lastBatch? number events := by
  have hmore : lastBatch? number more = none := by
    rw [lastBatch?, List.filterMap_eq_nil_iff.2 h]
    rfl
  rw [lastBatch?_append, hmore]
  rfl

/-- **Deadlines stand beside their batches**: who has one has not answered the
batch that it was sent last, and that is the batch on record. -/
def Clocked (xs : List Session) (events : List Event) : Prop :=
  ∀ x ∈ xs, ∀ d, x.deadline = some d → x.state = .awaitingBatchResult ∧
    ∃ files, x.batch = some files ∧ lastBatch? x.number events = some files

namespace Clocked

variable {xs : List Session} {events more : List Event} {number : Nat}

/-- Nobody gets a batch. -/
theorem append (h : Clocked xs events)
    (hmore : ∀ e ∈ more, ∀ n, e.batchTo? n = none) : Clocked xs (events ++ more) := by
  intro x hx d hd
  rw [lastBatch?_of_quiet fun e he => hmore e he x.number]
  exact h x hx d hd

/-- A session that loses its deadline. -/
theorem change (h : Clocked xs events) {f : Session → Session}
    (hf : ∀ x, (f x).deadline = none) : Clocked (change number f xs) events := by
  intro y hy d hd
  rcases mem_change_cases hy with ⟨x, -, -, rfl⟩ | ⟨hy, -⟩
  · rw [hf] at hd
    cases hd
  · exact h y hy d hd

theorem calmAll (h : Clocked xs events) (stalled : List Session) :
    Clocked (calmAll stalled xs) events := by
  intro y hy d hd
  obtain ⟨x, hx, rfl⟩ := List.mem_map.1 hy
  split_ifs at hd ⊢
  · cases hd
  · exact h x hx d hd

/-- A session that is sent a batch. -/
theorem busy (h : Clocked xs events) {files : List String} {time : Double}
    (hmore : lastBatch? number more = some files)
    (hothers : ∀ e ∈ more, ∀ n, n ≠ number → e.batchTo? n = none) :
    Clocked (Session.change number (Session.busy files time) xs) (events ++ more) := by
  intro y hy d hd
  rcases mem_change_cases hy with ⟨x, hx, hnumber, rfl⟩ | ⟨hy, hne⟩
  · refine ⟨rfl, files, rfl, ?_⟩
    have hsame : (x.busy files time).number = number := hnumber
    rw [hsame, lastBatch?_append, hmore]
    rfl
  · rw [lastBatch?_of_quiet fun e he => hothers e he y.number hne]
    exact h y hy d hd

end Clocked

/-- Nothing that is printed is a batch. -/
theorem batchTo?_printed {lines : List String} {e : Event} (he : e ∈ lines.map Event.printed)
    (number : Nat) : e.batchTo? number = none := by
  obtain ⟨line, -, rfl⟩ := List.mem_map.1 he
  rfl

/-- **Every action keeps deadlines beside their batches**, while the run goes
on. -/
theorem clocked_action {c c' : Moment σ} (h : Action w o c c')
    (hc : c.phase.result? = none → Clocked c.state.sessions c.state.events)
    (hgoing : c'.phase.result? = none) : Clocked c'.state.sessions c'.state.events := by
  cases h with
  | allSpawned | noFiles | roundOver => exact hc rfl
  | @spawned s number rest u u' hq hspawn hsend =>
    have hnew : Clocked (s.sessions ++ [Session.ofNumber number]) s.events := by
      intro x hx d hd
      rcases List.mem_append.1 hx with hx | hx
      · exact hc rfl x hx d hd
      · rw [List.mem_singleton.1 hx] at hd
        cases hd
    refine hnew.busy ?_ ?_
    · simp [lastBatch?, Event.batchTo?]
    · simp +contextual [Event.batchTo?, eq_comm]
  | @waited s live stalled t u ready hlive hne ht hwait hstalled =>
    refine ((hc rfl).calmAll stalled).append fun e he number => ?_
    rcases List.mem_cons.1 he with rfl | he
    · rfl
    · exact batchTo?_printed he number
  | nextBatch hstate hreceive hq hsend =>
    refine (hc rfl).busy ?_ ?_
    · simp [lastBatch?, Event.batchTo?]
    · simp +contextual [Event.batchTo?, eq_comm]
  | request hstate hreceive hq hsend =>
    refine ((hc rfl).change fun _ => rfl).append ?_
    simp [Event.batchTo?]
  | report hstate hreceive =>
    refine ((hc rfl).change fun _ => rfl).append ?_
    simp [Event.batchTo?]
  | nobodyLeft | cannotWait | notSpawned | firstGone | unreadable | exited | illegal | nextGone
    | requestGone | terminated | closed | concluded => cases hgoing

theorem going_opened (o : Settings) (u : σ) (files : List String) :
    Clocked ((RunState.ofFiles u files).opened o).state.sessions
      ((RunState.ofFiles u files).opened o).state.events := by
  intro x hx
  rw [RunState.opened] at hx
  split_ifs at hx
  · exact absurd hx List.not_mem_nil
  · exact absurd hx List.not_mem_nil

/-- **Deadlines stand beside their batches, always** while a run goes on. -/
theorem clocked_of_reaches {u : σ} {files : List String} {c : Moment σ}
    (h : Moment.Reaches w o ((RunState.ofFiles u files).opened o) c)
    (hgoing : c.phase.result? = none) : Clocked c.state.sessions c.state.events := by
  have hall : c.phase.result? = none → Clocked c.state.sessions c.state.events :=
    h.of_action (P := fun c => c.phase.result? = none → Clocked c.state.sessions c.state.events)
      (fun _ => going_opened o u files) fun _ _ _ haction hc => clocked_action haction hc
  exact hall hgoing

/-! ## What is printed about a stalled batch -/

namespace Run

theorem stallLine_toList (o : Settings) (number : Nat) :
    (stallLine o number).toList = "Worker #".toList ++ (Nat.toDigits 10 number ++ (' ' ::
      ("hasn't responded in ".toList ++ (o.stallSeconds.generalText.toList ++
        " seconds after sending the batch:".toList)))) := by
  unfold stallLine
  rw [Nat.toString_eq_repr]
  simp [String.toList_append, Nat.toList_repr]

/-- The line tells the worker. -/
theorem stallLine_inj {number number' : Nat} (h : stallLine o number = stallLine o number') :
    number = number' := by
  have hlist := congrArg String.toList h
  rw [stallLine_toList, stallLine_toList] at hlist
  have hdigits := congrArg (List.takeWhile Char.isDigit) (List.append_cancel_left hlist)
  have hall : ∀ n, ∀ c ∈ Nat.toDigits 10 n, c.isDigit = true := fun n c =>
    Numeral.isDigit_of_mem_toDigits
  have hblank : ¬ (' ').isDigit = true := by decide
  rw [List.takeWhile_append_of_pos (hall number), List.takeWhile_append_of_pos (hall number'),
    List.takeWhile_cons_of_neg hblank, List.append_nil, List.append_nil] at hdigits
  rw [← Numeral.natOfDigits_toDigits number, hdigits, Numeral.natOfDigits_toDigits]

/-- No other line begins in this way. -/
theorem ne_stallLine {word rest : String} {c : Char} (h : word.toList.head? = some c) (hc : c ≠ 'W')
    (number : Nat) : word ++ rest ≠ stallLine o number := by
  intro heq
  have hfirst := congrArg List.head? (congrArg String.toList heq)
  rw [String.toList_append, List.head?_append, h, stallLine_toList] at hfirst
  exact hc (Option.some.inj hfirst)

theorem batchLine_ne_stallLine (n : Nat) (batch : List String) (number : Nat) :
    batchLine n batch ≠ stallLine o number := by
  unfold batchLine
  rw [String.append_assoc, String.append_assoc]
  exact ne_stallLine (c := 'S') (by decide) (by decide) number

theorem bullet_ne_stallLine (path : String) (number : Nat) :
    "• " ++ path ≠ stallLine o number :=
  ne_stallLine (c := '•') (by decide) (by decide) number

end Run

theorem announcement_ne_stallLine (files number : Nat) :
    RunState.announcement o files ≠ Run.stallLine o number := by
  unfold RunState.announcement
  rw [String.append_assoc, String.append_assoc, String.append_assoc]
  exact Run.ne_stallLine (c := 'S') (by decide) (by decide) number

/-! ## No batch is reported twice -/

/-- A worker is reported. -/
def Event.reports (o : Settings) (number : Nat) : Event → Bool
  | .printed line => line == Run.stallLine o number
  | _ => false

/-- How often a worker has been reported since it was sent its last batch. -/
def timesReported (o : Settings) (number : Nat) (events : List Event) : Nat :=
  (events.rtakeWhile fun e => (e.batchTo? number).isNone).countP (Event.reports o number)

theorem timesReported_concat (number : Nat) (events : List Event) (e : Event) :
    timesReported o number (events ++ [e]) =
      if (e.batchTo? number).isNone then
        timesReported o number events + if e.reports o number then 1 else 0
      else 0 := by
  rw [timesReported, List.rtakeWhile_concat]
  split_ifs with hbatch hreport
  · rw [List.countP_append, List.countP_singleton, if_pos hreport]
    rfl
  · rw [List.countP_append, List.countP_singleton, if_neg hreport]
    rfl
  · rfl

/-- **A worker is reported at most once for each batch.** -/
def ReportedOnce (o : Settings) (number : Nat) (events : List Event) : Prop :=
  ∀ front, front <+: events → timesReported o number front ≤ 1

namespace ReportedOnce

variable {events more : List Event} {number : Nat}

theorem concat (h : ReportedOnce o number events) {e : Event}
    (he : timesReported o number (events ++ [e]) ≤ 1) : ReportedOnce o number (events ++ [e]) := by
  intro front hfront
  rcases List.prefix_concat_iff.1 hfront with rfl | hfront
  · exact he
  · exact h front hfront

/-- Events that do not report the worker. -/
theorem append (h : ReportedOnce o number events) (hmore : ∀ e ∈ more, e.reports o number = false) :
    ReportedOnce o number (events ++ more) ∧
      timesReported o number (events ++ more) ≤ timesReported o number events := by
  induction more generalizing events with
  | nil => simpa using h
  | cons e more ih =>
    have he : e.reports o number = false := hmore e List.mem_cons_self
    have hle : timesReported o number (events ++ [e]) ≤ timesReported o number events := by
      rw [timesReported_concat, he, if_neg Bool.false_ne_true, Nat.add_zero]
      split_ifs
      · exact Nat.le_refl _
      · exact Nat.zero_le _
    have hnow := h events (List.prefix_refl events)
    obtain ⟨honce, hmore⟩ := ih (h.concat (hle.trans hnow)) fun x hx =>
      hmore x (List.mem_cons_of_mem e hx)
    rw [List.append_assoc] at honce hmore
    exact ⟨honce, hmore.trans hle⟩

/-- What is printed about a stalled batch reports its worker and nobody
else. -/
theorem report (h : ReportedOnce o number events) {x : Session}
    (hx : number = x.number → timesReported o number events = 0) :
    ReportedOnce o number (events ++ (Run.stallReport o x).map .printed) ∧
      (number ≠ x.number → timesReported o number (events ++ (Run.stallReport o x).map .printed) ≤
        timesReported o number events) := by
  have hbullets : ∀ e ∈ ((x.batch.getD []).map fun path => "• " ++ Path.display path o.cwd).map
      Event.printed, e.reports o number = false := by
    intro e he
    obtain ⟨line, hline, rfl⟩ := List.mem_map.1 he
    obtain ⟨path, -, rfl⟩ := List.mem_map.1 hline
    exact beq_eq_false_iff_ne.2 (Run.bullet_ne_stallLine _ number)
  have hsplit : events ++ (Run.stallReport o x).map .printed =
      events ++ [.printed (Run.stallLine o x.number)] ++
        ((x.batch.getD []).map fun path => "• " ++ Path.display path o.cwd).map .printed := by
    rw [Run.stallReport, List.map_cons, List.append_assoc]
    rfl
  rw [hsplit]
  by_cases hnumber : number = x.number
  · refine ⟨(append (h.concat ?_) hbullets).1, fun hne => absurd hnumber hne⟩
    rw [timesReported_concat, hx hnumber]
    split_ifs <;> decide
  · have hother : Event.reports o number (.printed (Run.stallLine o x.number)) = false :=
      beq_eq_false_iff_ne.2 fun heq => hnumber (Run.stallLine_inj heq).symm
    have hquiet : ∀ e ∈ [Event.printed (Run.stallLine o x.number)], e.reports o number = false :=
      fun e he => List.mem_singleton.1 he ▸ hother
    obtain ⟨hfirst, hle⟩ := h.append hquiet
    obtain ⟨hall, hle'⟩ := hfirst.append hbullets
    exact ⟨hall, fun _ => hle'.trans hle⟩

/-- What is printed about some stalled batches. -/
theorem reports {stalled : List Session} (hnodup : (numbersOf stalled).Nodup)
    (h : ReportedOnce o number events)
    (hfresh : number ∈ numbersOf stalled → timesReported o number events = 0) :
    ReportedOnce o number (events ++ (stalled.flatMap (Run.stallReport o)).map .printed) ∧
      (number ∉ numbersOf stalled →
        timesReported o number (events ++ (stalled.flatMap (Run.stallReport o)).map .printed) ≤
          timesReported o number events) := by
  induction stalled generalizing events with
  | nil => simpa using h
  | cons x rest ih =>
    obtain ⟨hx, hrest⟩ : x.number ∉ numbersOf rest ∧ (numbersOf rest).Nodup :=
      List.nodup_cons.1 hnodup
    obtain ⟨hfirst, hle⟩ := h.report (x := x) fun heq => hfresh (heq ▸ List.mem_cons_self)
    obtain ⟨hall, hle'⟩ := ih hrest hfirst fun hmem => by
      have hne : number ≠ x.number := fun heq => hx (heq ▸ hmem)
      have hzero := hfresh (List.mem_cons_of_mem x.number hmem)
      exact Nat.le_zero.1 (hzero ▸ hle hne)
    rw [List.flatMap_cons, List.map_append, ← List.append_assoc]
    refine ⟨hall, fun hnot => ?_⟩
    rw [numbersOf, List.map_cons, List.mem_cons, not_or] at hnot
    exact (hle' hnot.2).trans (hle hnot.1)

end ReportedOnce

/-- **Who has a deadline has not been reported** since it was sent its batch,
and nobody has been reported twice. -/
structure Announced (o : Settings) (c : Moment σ) : Prop where
  once : ∀ number, ReportedOnce o number c.state.events
  fresh : c.phase.result? = none → ∀ x ∈ c.state.sessions, ∀ d, x.deadline = some d →
    timesReported o x.number c.state.events = 0

namespace Announced

variable {c c' : Moment σ} {more : List Event}

/-- An action that reports nobody; who has a deadline after it had it before,
or has been sent a batch. -/
theorem append (h : Announced o c) (hevents : c'.state.events = c.state.events ++ more)
    (hmore : ∀ e ∈ more, ∀ number, e.reports o number = false)
    (hsessions : c'.phase.result? = none → ∀ y ∈ c'.state.sessions, ∀ d, y.deadline = some d →
      (c.phase.result? = none ∧ y ∈ c.state.sessions) ∨
        timesReported o y.number c'.state.events = 0) : Announced o c' := by
  constructor
  · intro number
    rw [hevents]
    exact ((h.once number).append fun e he => hmore e he number).1
  · intro hgoing y hy d hd
    rcases hsessions hgoing y hy d hd with ⟨hbefore, hy⟩ | hzero
    · have hzero := h.fresh hbefore y hy d hd
      have hle := ((h.once y.number).append fun e he => hmore e he y.number).2
      rw [hevents]
      omega
    · exact hzero

/-- An action after which the run is over. -/
theorem closing (h : Announced o c) (hevents : c'.state.events = c.state.events ++ more)
    (hmore : ∀ e ∈ more, ∀ number, e.reports o number = false)
    (hover : c'.phase.result? ≠ none) : Announced o c' :=
  h.append hevents hmore fun hgoing => absurd hgoing hover

end Announced

/-- A batch begins a new count. -/
theorem timesReported_last {number m : Nat} {events : List Event} {e e' : Event}
    {files : List String} (h : m = number) :
    timesReported o m (events ++ [e, e', .sent number (.batch files)]) = 0 := by
  have hlast : events ++ [e, e', .sent number (.batch files)] =
      events ++ [e, e'] ++ [.sent number (.batch files)] := by simp
  rw [hlast, timesReported_concat]
  simp [Event.batchTo?, h]

/-- **Every action reports nobody twice.** -/
theorem announced_action {c c' : Moment σ} (h : Action w o c c') (hstanding : Standing c)
    (hc : Announced o c) : Announced o c' := by
  cases h with
  | allSpawned | noFiles | roundOver => exact ⟨hc.once, fun _ => hc.fresh rfl⟩
  | closed | concluded | nobodyLeft => exact ⟨hc.once, fun hgoing => by cases hgoing⟩
  | cannotWait | notSpawned | unreadable | exited | illegal | requestGone | terminated =>
    refine hc.closing rfl ?_ (by simp [Phase.result?, RunState.close])
    simp [Event.reports]
  | firstGone | nextGone =>
    refine hc.closing rfl ?_ (by simp [Phase.result?, RunState.close])
    simp [Event.reports, Run.batchLine_ne_stallLine]
  | @spawned s number rest u u' hq hspawn hsend =>
    refine hc.append rfl (by simp [Event.reports, Run.batchLine_ne_stallLine])
      fun _ y hy d hd => ?_
    rcases mem_change_cases hy with ⟨x, -, hnumber, rfl⟩ | ⟨hy, hne⟩
    · exact .inr (timesReported_last hnumber)
    · rcases List.mem_append.1 hy with hy | hy
      · exact .inl ⟨rfl, hy⟩
      · exact absurd (List.mem_singleton.1 hy ▸ rfl) hne
  | @waited s live stalled t u ready hlive hne ht hwait hstalled =>
    have hsublist : stalled.Sublist s.sessions := by
      rw [← hstalled, ← hlive]
      exact (List.filter_sublist.trans List.filter_sublist).trans List.filter_sublist
    have hfirst : ∀ number,
        ReportedOnce o number (s.events ++ [.waited (live.map (·.number)) t]) ∧
          timesReported o number (s.events ++ [.waited (live.map (·.number)) t]) ≤
            timesReported o number s.events := fun number =>
      (hc.once number).append (by simp [Event.reports])
    have hfresh : ∀ number ∈ numbersOf stalled,
        timesReported o number (s.events ++ [.waited (live.map (·.number)) t]) = 0 := by
      intro number hnumber
      obtain ⟨x, hx, rfl⟩ := List.mem_map.1 hnumber
      have hstall := (List.mem_filter.1 (hstalled ▸ hx)).2
      cases hd : x.deadline with
      | none => simp [Run.isStalled, hd] at hstall
      | some d =>
        have hzero := hc.fresh rfl x (hsublist.subset hx) d hd
        have hle := (hfirst x.number).2
        simp only at hzero
        omega
    have hall := fun number => (hfirst number).1.reports (hstanding.1.sublist (hsublist.map _))
      (hfresh number)
    simp only [List.append_assoc, List.cons_append, List.nil_append] at hall
    refine ⟨fun number => (hall number).1, fun _ y hy d hd => ?_⟩
    obtain ⟨x, hx, rfl⟩ := List.mem_map.1 hy
    split_ifs at hd ⊢ with hcalm
    · cases hd
    · have hzero := hc.fresh rfl x hx d hd
      have hle := (hall x.number).2 hcalm
      have hle' := (hfirst x.number).2
      simp only at hzero ⊢
      omega
  | nextBatch hstate hreceive hq hsend =>
    refine hc.append rfl (by simp [Event.reports, Run.batchLine_ne_stallLine])
      fun _ y hy d hd => ?_
    rcases mem_change_cases hy with ⟨x, -, hnumber, rfl⟩ | ⟨hy, -⟩
    · exact .inr (timesReported_last hnumber)
    · exact .inl ⟨rfl, hy⟩
  | request hstate hreceive hq hsend =>
    refine hc.append rfl (by simp [Event.reports]) fun _ y hy d hd => ?_
    rcases mem_change_cases hy with ⟨x, -, -, rfl⟩ | ⟨hy, -⟩
    · cases hd
    · exact .inl ⟨rfl, hy⟩
  | report hstate hreceive =>
    refine hc.append rfl (by simp [Event.reports]) fun _ y hy d hd => ?_
    rcases mem_change_cases hy with ⟨x, -, -, rfl⟩ | ⟨hy, -⟩
    · cases hd
    · exact .inl ⟨rfl, hy⟩

theorem announced_opened (o : Settings) (u : σ) (files : List String) :
    Announced o ((RunState.ofFiles u files).opened o) := by
  have hnil : ∀ number, ReportedOnce o number [] := fun number front hfront => by
    rw [List.prefix_nil.1 hfront]
    exact Nat.zero_le _
  rw [RunState.opened]
  split_ifs
  · exact ⟨hnil, fun hgoing => by cases hgoing⟩
  · refine ⟨fun number => ((hnil number).append fun e he => ?_).1,
      fun _ x hx => absurd hx List.not_mem_nil⟩
    rw [List.mem_singleton.1 he]
    exact beq_eq_false_iff_ne.2 (announcement_ne_stallLine _ number)

/-- **Nobody is reported twice for a batch, ever.** -/
theorem announced_of_reaches {u : σ} {files : List String} {c : Moment σ}
    (h : Moment.Reaches w o ((RunState.ofFiles u files).opened o) c) : Announced o c :=
  h.of_action (announced_opened o u files) fun _ _ hd haction hc =>
    announced_action haction (standing_of_reaches hd) hc

end Dispatch

end Retype
