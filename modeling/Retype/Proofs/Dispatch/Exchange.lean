import Mathlib.Logic.Function.Basic
import Retype.Proofs.Dispatch.Conservation
import Retype.Proofs.Dispatch.Projection
/-!
# Every action is an exchange with one worker

Seen from the log of its calls, an action either calls nobody or has one
exchange with one worker: it is spawned and sent its first batch, or asked
what it has to say and answered, or ended. `Exchange` lists these, with where
the session of the worker stands before and after; `exchange_action` says
that there are no others and that nobody else's session changes.
-/

namespace Retype.Dispatch

variable {σ : Type} {w : Surroundings σ} {o : Settings}

open Session

/-! ## Where a session stands, by its number -/

/-- Where the session with a number stands, if there is one. -/
def statusIn (xs : List Session) (number : Nat) : Option SessionState :=
  (xs.find? (·.number = number)).map (·.state)

theorem statusIn_cons (x : Session) (xs : List Session) (number : Nat) :
    statusIn (x :: xs) number = if x.number = number then some x.state else statusIn xs number := by
  by_cases h : x.number = number <;> simp [statusIn, h]

theorem statusIn_eq_none {xs : List Session} {number : Nat} :
    statusIn xs number = none ↔ number ∉ numbersOf xs := by
  simp [statusIn, numbersOf]

theorem statusIn_of_mem {xs : List Session} (hnodup : (numbersOf xs).Nodup) {x : Session}
    (hx : x ∈ xs) : statusIn xs x.number = some x.state := by
  induction xs with
  | nil => exact absurd hx List.not_mem_nil
  | cons y ys ih =>
    rw [numbersOf, List.map_cons, List.nodup_cons] at hnodup
    rw [statusIn_cons]
    rcases List.mem_cons.1 hx with rfl | hx
    · rw [if_pos rfl]
    · have hne : y.number ≠ x.number := fun h => hnodup.1 (h ▸ mem_numbersOf hx)
      rw [if_neg hne, ih hnodup.2 hx]

/-- A session that stands somewhere is there. -/
theorem mem_of_statusIn {xs : List Session} {number : Nat} {state : SessionState}
    (h : statusIn xs number = some state) : ∃ x ∈ xs, x.number = number ∧ x.state = state := by
  obtain ⟨x, hx, rfl⟩ := Option.map_eq_some_iff.1 h
  exact ⟨x, List.mem_of_find?_eq_some hx, by simpa using List.find?_some hx, rfl⟩

/-- Changing one session changes where that one stands. -/
theorem statusIn_change {number : Nat} {f : Session → Session} {g : SessionState → SessionState}
    (hf : ∀ x, (f x).number = x.number) (hg : ∀ x, (f x).state = g x.state) (xs : List Session) :
    statusIn (change number f xs) =
      Function.update (statusIn xs) number ((statusIn xs number).map g) := by
  funext m
  induction xs with
  | nil => by_cases h : m = number <;> simp [change, statusIn, h, Function.update]
  | cons x xs ih =>
    rw [show change number f (x :: xs) = (if x.number = number then f x else x) ::
      change number f xs from rfl, statusIn_cons, ih]
    by_cases hx : x.number = number
    · by_cases hm : m = number
      · simp [hx, hm, hf, hg, statusIn_cons]
      · have hne : ¬ number = m := fun h => hm h.symm
        simp [hx, hm, hf, statusIn_cons, hne]
    · by_cases hm : m = number
      · simp [hx, hm, statusIn_cons]
      · simp [hx, hm, statusIn_cons]

theorem statusIn_calm (number : Nat) (xs : List Session) :
    statusIn (change number calm xs) = statusIn xs := by
  rw [statusIn_change (g := id) (by intro; rfl) (by intro; rfl), Option.map_id, id,
    Function.update_eq_self]

theorem statusIn_calmAll (stalled xs : List Session) :
    statusIn (calmAll stalled xs) = statusIn xs := by
  funext m
  induction xs with
  | nil => rfl
  | cons x xs ih =>
    have hcons : calmAll stalled (x :: xs) =
        (if x.number ∈ stalled.map (·.number) then x.calm else x) :: calmAll stalled xs := rfl
    rw [hcons, statusIn_cons, statusIn_cons, ih]
    by_cases hx : x.number ∈ stalled.map (·.number)
    · rw [if_pos hx]; rfl
    · rw [if_neg hx]

/-- A session that stands somewhere is changed to a state. -/
theorem statusIn_change_to {number : Nat} {f : Session → Session} {state state' : SessionState}
    (hf : ∀ x, (f x).number = x.number) (hstate : ∀ x, (f x).state = state') {xs : List Session}
    (h : statusIn xs number = some state) :
    statusIn (change number f xs) = Function.update (statusIn xs) number (some state') := by
  rw [statusIn_change (g := fun _ => state') hf hstate, h]
  rfl

theorem statusIn_append {xs : List Session} {number : Nat} (h : statusIn xs number = none) :
    statusIn (xs ++ [Session.ofNumber number]) =
      Function.update (statusIn xs) number (some .idle) := by
  funext m
  rw [statusIn, List.find?_append, Option.map_or]
  by_cases hm : m = number
  · subst hm
    rw [show (xs.find? (·.number = m)).map (·.state) = none from h]
    simp [Session.ofNumber]
  · have hne : ¬ number = m := fun h => hm h.symm
    simp [Session.ofNumber, hm, hne, statusIn]

/-! ## The log of a moment -/

namespace Moment

/-- The log of the calls. -/
def log (c : Moment (σ × List Call)) : List Call := c.state.surroundings.2

/-- Where the session with a number stands, if there is one. -/
def status (c : Moment σ) (number : Nat) : Option SessionState := statusIn c.state.sessions number

end Moment

section
variable {u v : σ × List Call} {number : Nat}

theorem log_spawn {failure : Option String} (h : w.recorded.spawn u number = (v, failure)) :
    v.2 = u.2 ++ [.spawned number failure] := by
  cases h
  rfl

theorem log_send {m : Message} {failure : Option Worker.Gone}
    (h : w.recorded.send u number m = (v, failure)) : v.2 = u.2 ++ [.sent number m failure] := by
  cases h
  rfl

theorem log_receive {answer : Except ProtocolError (Option Message)}
    (h : w.recorded.receive u number = (v, answer)) :
    v.2 = u.2 ++ [.received number answer] := by
  cases h
  rfl

theorem log_wait {numbers : List Nat} {t : Option Double} {ready : Option (List Nat)}
    (h : w.recorded.wait u numbers t = (v, ready)) : v.2 = u.2 := by
  cases h
  rfl

/-- Two calls, one after the other. -/
theorem log_append {log log' log'' : List Call} {a b : Call} (h : log' = log ++ [a])
    (h' : log'' = log' ++ [b]) : log'' = log ++ [a, b] := by
  rw [h', h, List.append_assoc]
  rfl

end

/-! ## The exchanges -/

/-- How a run has ended, if it has. -/
abbrev Outcome := Option (Except DispatchError Unit)

/-- **An exchange** with one worker: where its session stands before and
after, the calls, the reports that come of it, and how the run has ended
before and after. Batches are sent while files wait, and the report is
asked for when none do. -/
inductive Exchange (number : Nat) (queue : List String) :
    Option SessionState → Option SessionState → List Call → List Report →
      Outcome → Outcome → Prop
  | notSpawned {reason : String} :
      Exchange number queue none none [.spawned number (some reason)] []
        none (some (.error (.notSpawned reason)))
  | firstGone {batch : List String} {cause : Worker.Gone} (hq : queue ≠ []) :
      Exchange number queue none (some .idle)
        [.spawned number none, .sent number (.batch batch) (some cause)] []
        none (some (.error (.gone cause)))
  | spawned {batch : List String} (hq : queue ≠ []) :
      Exchange number queue none (some .awaitingBatchResult)
        [.spawned number none, .sent number (.batch batch) none] [] none none
  | unreadable {state : SessionState} {cause : ProtocolError} (hlive : state ≠ .terminated) :
      Exchange number queue (some state) (some state) [.received number (.error cause)] []
        none (some (.error (.unreadable cause)))
  | exited {state : SessionState} (hlive : state ≠ .terminated) :
      Exchange number queue (some state) (some state) [.received number (.ok none)] []
        none (some (.error (.exited number)))
  | illegal {state : SessionState} {m : Message} (hlive : state ≠ .terminated)
      (hdue : ¬ Due state m) :
      Exchange number queue (some state) (some state) [.received number (.ok (some m))] []
        none (some (.error (.illegal number m.kindName state)))
  | nextGone {batch : List String} {cause : Worker.Gone} (hq : queue ≠ []) :
      Exchange number queue (some .awaitingBatchResult) (some .idle)
        [.received number (.ok (some .next)), .sent number (.batch batch) (some cause)] []
        none (some (.error (.gone cause)))
  | nextBatch {batch : List String} (hq : queue ≠ []) :
      Exchange number queue (some .awaitingBatchResult) (some .awaitingBatchResult)
        [.received number (.ok (some .next)), .sent number (.batch batch) none] [] none none
  | requestGone {cause : Worker.Gone} (hq : queue = []) :
      Exchange number queue (some .awaitingBatchResult) (some .idle)
        [.received number (.ok (some .next)), .sent number .reportRequest (some cause)] []
        none (some (.error (.gone cause)))
  | request (hq : queue = []) :
      Exchange number queue (some .awaitingBatchResult) (some .awaitingReport)
        [.received number (.ok (some .next)), .sent number .reportRequest none] [] none none
  | report {data : Report} :
      Exchange number queue (some .awaitingReport) (some .terminated)
        [.received number (.ok (some (.report data))), .terminated number] [data] none none
  | ended {state : SessionState} {result : Except DispatchError Unit}
      (hlive : state ≠ .terminated) :
      Exchange number queue (some state) (some .terminated) [.terminated number] []
        (some result) (some result)

/-- An action that calls nobody, but may end the run: for good only when
nobody is left. -/
structure Quiet (c c' : Moment (σ × List Call)) : Prop where
  log : c'.log = c.log
  status : c'.status = c.status
  queue : c'.state.queue = c.state.queue
  reports : c'.state.reports = c.state.reports
  result : c'.phase.result? = c.phase.result? ∨
    (c.phase.result? = none ∧ ((∃ cause, c'.phase.result? = some (.error cause)) ∨
      (c'.phase.result? = some (.ok ()) ∧
        ∀ number state, c.status number = some state → state = .terminated)))

/-- An action that has an exchange with a worker. -/
structure Exchanged (c c' : Moment (σ × List Call)) (number : Nat)
    (before after : Option SessionState) (calls : List Call) (reports : List Report) : Prop where
  exchange : Exchange number c.state.queue before after calls reports
    c.phase.result? c'.phase.result?
  before : c.status number = before
  after : c'.status = Function.update c.status number after
  log : c'.log = c.log ++ calls
  queue : c.state.queue = [] → c'.state.queue = []
  reports : c'.state.reports = c.state.reports ++ reports

/-- The session of somebody who is dealt with is there and lives. -/
theorem status_of_handling {s : RunState σ} {x : Session} {rest : List Session}
    (hc : Standing ⟨.handling (x :: rest), s⟩) :
    statusIn s.sessions x.number = some x.state ∧ x.state ≠ .terminated := by
  obtain ⟨hnodup, -, -, hmem⟩ := hc
  obtain ⟨hx, hlive⟩ := hmem x (List.mem_cons_self ..)
  exact ⟨statusIn_of_mem hnodup hx, by simpa [isLive] using hlive⟩

/-- Nobody has the number of somebody who is to be spawned. -/
theorem status_of_spawning {s : RunState σ} {number : Nat} {rest : List Nat}
    (hc : Standing ⟨.spawning (number :: rest), s⟩) : statusIn s.sessions number = none := by
  rw [statusIn_eq_none]
  exact fun hmem => (List.nodup_append'.1 hc.1).2.2 hmem (List.mem_cons_self ..)

/-- The session of somebody who is to be ended is there and lives. -/
theorem status_of_closing {s : RunState σ} {result : Except DispatchError Unit} {x : Session}
    {rest : List Session} (hc : Standing ⟨.closing result (x :: rest), s⟩) :
    ∃ state, statusIn s.sessions x.number = some state ∧ state ≠ .terminated := by
  obtain ⟨hnodup, -, hlive, hmem⟩ := hc
  obtain ⟨y, hy, hnumber⟩ := List.mem_map.1 (hmem x (List.mem_cons_self ..))
  refine ⟨y.state, hnumber ▸ statusIn_of_mem hnodup hy, ?_⟩
  have hylive : y.isLive := (hlive y hy).2 (hnumber ▸ mem_numbersOf (List.mem_cons_self ..))
  simpa [isLive] using hylive

/-- **An action is quiet or an exchange.** -/
theorem exchange_action {c c' : Moment (σ × List Call)} (h : Action w.recorded o c c')
    (hc : Standing c) :
    Quiet c c' ∨ ∃ number before after calls reports,
      Exchanged c c' number before after calls reports := by
  cases h with
  | allSpawned | noFiles | roundOver | closed | concluded =>
    exact .inl ⟨rfl, rfl, rfl, rfl, .inl rfl⟩
  | @nobodyLeft s hlive =>
    refine .inl ⟨rfl, rfl, rfl, rfl, .inr ⟨rfl, .inr ⟨rfl, fun number state hstatus => ?_⟩⟩⟩
    obtain ⟨x, hx, -, rfl⟩ := mem_of_statusIn hstatus
    have hended := List.filter_eq_nil_iff.1 hlive x hx
    simpa [isLive] using hended
  | cannotWait hlive hne ht hwait =>
    exact .inl ⟨log_wait hwait, rfl, rfl, rfl, .inr ⟨rfl, .inl ⟨_, rfl⟩⟩⟩
  | waited hlive hne ht hwait hstalled =>
    exact .inl ⟨log_wait hwait, statusIn_calmAll .., rfl, rfl, .inl rfl⟩
  | @notSpawned s number rest u reason hq hspawn =>
    have hbefore := status_of_spawning hc
    exact .inr ⟨number, _, _, _, _,
      { exchange := .notSpawned
        before := hbefore
        after := (Function.update_eq_self_iff.2 hbefore.symm).symm
        log := log_spawn hspawn
        queue := fun h => absurd h hq
        reports := (List.append_nil _).symm }⟩
  | @firstGone s number rest u u' cause hq hspawn hsend =>
    have hbefore := status_of_spawning hc
    exact .inr ⟨number, _, _, _, _,
      { exchange := .firstGone hq
        before := hbefore
        after := statusIn_append hbefore
        log := log_append (log_spawn hspawn) (log_send hsend)
        queue := fun h => absurd h hq
        reports := (List.append_nil _).symm }⟩
  | @spawned s number rest u u' hq hspawn hsend =>
    have hbefore := status_of_spawning hc
    refine .inr ⟨number, _, _, _, _,
      { exchange := .spawned hq
        before := hbefore
        after := ?_
        log := log_append (log_spawn hspawn) (log_send hsend)
        queue := fun h => absurd h hq
        reports := (List.append_nil _).symm }⟩
    have hnew := statusIn_append hbefore
    have hidle : statusIn (s.sessions ++ [Session.ofNumber number]) number = some .idle := by
      rw [hnew, Function.update_self]
    refine (statusIn_change_to (by intro; rfl) (by intro; rfl) hidle).trans ?_
    rw [hnew, Function.update_idem]
    rfl
  | @unreadable s x rest u cause hreceive =>
    obtain ⟨hbefore, hlive⟩ := status_of_handling hc
    exact .inr ⟨x.number, _, _, _, _,
      { exchange := .unreadable hlive
        before := hbefore
        after := (Function.update_eq_self_iff.2 hbefore.symm).symm
        log := log_receive hreceive
        queue := id
        reports := (List.append_nil _).symm }⟩
  | @exited s x rest u hreceive =>
    obtain ⟨hbefore, hlive⟩ := status_of_handling hc
    exact .inr ⟨x.number, _, _, _, _,
      { exchange := .exited hlive
        before := hbefore
        after := (statusIn_calm ..).trans (Function.update_eq_self_iff.2 hbefore.symm).symm
        log := log_receive hreceive
        queue := id
        reports := (List.append_nil _).symm }⟩
  | @illegal s x rest u m hreceive hdue =>
    obtain ⟨hbefore, hlive⟩ := status_of_handling hc
    exact .inr ⟨x.number, _, _, _, _,
      { exchange := .illegal hlive hdue
        before := hbefore
        after := (statusIn_calm ..).trans (Function.update_eq_self_iff.2 hbefore.symm).symm
        log := log_receive hreceive
        queue := id
        reports := (List.append_nil _).symm }⟩
  | @nextGone s x rest u u' cause hstate hreceive hq hsend =>
    have hbefore := hstate ▸ (status_of_handling hc).1
    exact .inr ⟨x.number, _, _, _, _,
      { exchange := .nextGone hq
        before := hbefore
        after := statusIn_change_to (by intro; rfl) (by intro; rfl) hbefore
        log := log_append (log_receive hreceive) (log_send hsend)
        queue := fun h => absurd h hq
        reports := (List.append_nil _).symm }⟩
  | @nextBatch s x rest u u' hstate hreceive hq hsend =>
    have hbefore := hstate ▸ (status_of_handling hc).1
    exact .inr ⟨x.number, _, _, _, _,
      { exchange := .nextBatch hq
        before := hbefore
        after := statusIn_change_to (by intro; rfl) (by intro; rfl) hbefore
        log := log_append (log_receive hreceive) (log_send hsend)
        queue := fun h => absurd h hq
        reports := (List.append_nil _).symm }⟩
  | @requestGone s x rest u u' cause hstate hreceive hq hsend =>
    have hbefore := hstate ▸ (status_of_handling hc).1
    exact .inr ⟨x.number, _, _, _, _,
      { exchange := .requestGone hq
        before := hbefore
        after := statusIn_change_to (by intro; rfl) (by intro; rfl) hbefore
        log := log_append (log_receive hreceive) (log_send hsend)
        queue := id
        reports := (List.append_nil _).symm }⟩
  | @request s x rest u u' hstate hreceive hq hsend =>
    have hbefore := hstate ▸ (status_of_handling hc).1
    exact .inr ⟨x.number, _, _, _, _,
      { exchange := .request hq
        before := hbefore
        after := statusIn_change_to (by intro; rfl) (by intro; rfl) hbefore
        log := log_append (log_receive hreceive) (log_send hsend)
        queue := id
        reports := (List.append_nil _).symm }⟩
  | @report s x rest u data hstate hreceive =>
    have hbefore := hstate ▸ (status_of_handling hc).1
    exact .inr ⟨x.number, _, _, _, _,
      { exchange := .report
        before := hbefore
        after := statusIn_change_to (by intro; rfl) (by intro; rfl) hbefore
        log := log_append (log_receive hreceive) rfl
        queue := id
        reports := rfl }⟩
  | @terminated s x rest result =>
    obtain ⟨state, hbefore, hlive⟩ := status_of_closing hc
    exact .inr ⟨x.number, _, _, _, _,
      { exchange := .ended hlive
        before := hbefore
        after := statusIn_change_to (by intro; rfl) (by intro; rfl) hbefore
        log := rfl
        queue := id
        reports := (List.append_nil _).symm }⟩

end Retype.Dispatch
