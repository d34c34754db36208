import Retype.Proofs.Dispatch.Machine
/-!
# What an action does

`Action` lists everything that one action of the primary can do, with what
the surroundings answered and the state that follows. `action_next` is the
only place where the code of an action is taken apart; invariants of runs
are proved by cases on `Action`.
-/

namespace Retype.Dispatch

variable {σ : Type}

/-! ## Changing one session -/

namespace Session

/-- Changes the sessions with a number. -/
def change (number : Nat) (f : Session → Session) (xs : List Session) : List Session :=
  xs.map fun x => if x.number = number then f x else x

/-- The session waits for no batch any more. -/
def calm (x : Session) : Session := { x with deadline := none }

/-- The session has been sent a batch. -/
def busy (batch : List String) (deadline : Double) (x : Session) : Session :=
  ⟨x.number, .awaitingBatchResult, some batch, some deadline⟩

/-- The session has answered and has been sent nothing. -/
def free (x : Session) : Session := ⟨x.number, .idle, none, none⟩

/-- The session has been asked for its report. -/
def asked (x : Session) : Session := ⟨x.number, .awaitingReport, none, none⟩

/-- The session has ended. -/
def ended (x : Session) : Session := { x with state := .terminated }

/-- Two changes of one session make one. -/
theorem change_change {number : Nat} {f : Session → Session} (hf : ∀ x, (f x).number = x.number)
    (g : Session → Session) (xs : List Session) :
    change number g (change number f xs) = change number (g ∘ f) xs := by
  simp only [change, List.map_map]
  refine List.map_congr_left fun x _ => ?_
  by_cases h : x.number = number <;> simp [h, hf]

/-- A change leaves the sessions' numbers. -/
@[simp] theorem map_number_change {number : Nat} {f : Session → Session}
    (hf : ∀ x, (f x).number = x.number) (xs : List Session) :
    (change number f xs).map (·.number) = xs.map (·.number) := by
  simp only [change, List.map_map]
  refine List.map_congr_left fun x _ => ?_
  by_cases h : x.number = number <;> simp [h, hf]

/-- The sessions after a change are those before it, one of them changed. -/
theorem mem_change {number : Nat} {f : Session → Session} {xs : List Session} {y : Session} :
    y ∈ change number f xs ↔
      ∃ x ∈ xs, y = if x.number = number then f x else x := by
  simp only [change, List.mem_map, eq_comm]

/-- The stalled sessions wait for no batch any more. -/
def calmAll (stalled : List Session) (xs : List Session) : List Session :=
  xs.map fun y => if y.number ∈ stalled.map (·.number) then y.calm else y

/-- The sessions that stalled are calmed one by one. -/
theorem calmAll_cons (x : Session) (stalled xs : List Session) :
    calmAll stalled (change x.number calm xs) = calmAll (x :: stalled) xs := by
  simp only [calmAll, change, List.map_map]
  refine List.map_congr_left fun y _ => ?_
  by_cases h : y.number = x.number <;>
    by_cases h' : y.number ∈ stalled.map (·.number) <;> simp_all [calm]

/-- Calming leaves the sessions' numbers. -/
@[simp] theorem map_number_calmAll (stalled xs : List Session) :
    (calmAll stalled xs).map (·.number) = xs.map (·.number) := by
  simp only [calmAll, List.map_map]
  refine List.map_congr_left fun y _ => ?_
  by_cases h : y.number ∈ stalled.map (·.number)
  · simp only [Function.comp, h, ↓reduceIte, calm]
  · simp only [Function.comp, h, ↓reduceIte]

end Session

open Session

/-! ## The operations, computed -/

namespace Run

variable (w : Surroundings σ) (o : Settings)

/-- The next batch is cut off the front of the queue, if anything is left. -/
theorem popBatch_apply (s : RunState σ) :
    popBatch o s = if s.queue = [] then (.ok none, s)
      else (.ok (some (s.queue.take o.batchSize)),
        { s with queue := s.queue.drop o.batchSize }) := by
  simp only [popBatch, bind_apply, get_apply, List.isEmpty_iff]
  split <;> simp [bind_apply]

/-- A spawn opens a session or fails with its reason. -/
theorem spawn_apply (number : Nat) (s : RunState σ) :
    spawn w number s =
      (match (w.spawn s.surroundings number).2 with
        | some reason => .error (.notSpawned reason)
        | none => .ok (),
      { s with
        surroundings := (w.spawn s.surroundings number).1
        events := s.events ++ [.spawned number] }) := by
  unfold Run.spawn
  simp only [bind_apply, emit_apply, get_apply, modify_apply]
  cases (w.spawn s.surroundings number).2 <;> rfl

/-- A message that cannot be sent ends the run with the cause. -/
theorem send_apply (number : Nat) (m : Message) (s : RunState σ) :
    send w number m s =
      (match (w.send s.surroundings number m).2 with
        | some cause => .error (.gone cause)
        | none => .ok (),
      { s with
        surroundings := (w.send s.surroundings number m).1
        events := s.events ++ [.sent number m] }) := by
  unfold Run.send
  simp only [bind_apply, emit_apply, get_apply, modify_apply]
  cases (w.send s.surroundings number m).2 <;> rfl

/-- A message is received, or the run ends. -/
theorem receive_apply (number : Nat) (s : RunState σ) :
    receive w number s =
      (match (w.receive s.surroundings number).2 with
        | .ok m => .ok m
        | .error cause => .error (.unreadable cause),
      { s with
        surroundings := (w.receive s.surroundings number).1
        events := s.events ++ [.received number] }) := by
  unfold Run.receive
  simp only [bind_apply, emit_apply, get_apply, modify_apply]
  cases (w.receive s.surroundings number).2 <;> rfl

/-- Updating changes the one session. -/
theorem update_apply (number : Nat) (f : Session → Session) (s : RunState σ) :
    update number f s = (.ok (), { s with sessions := change number f s.sessions }) := rfl

/-- Terminating always succeeds. -/
theorem terminate_apply (number : Nat) (s : RunState σ) :
    terminate w number s = (.ok (),
      { s with
        surroundings := w.terminate s.surroundings number
        sessions := change number ended s.sessions
        events := s.events ++ [.terminated number] }) := rfl

/-- The line that announces a batch. -/
def batchLine (number : Nat) (batch : List String) : String :=
  "Sending " ++ toString batch.length ++ " files to worker #" ++ toString number

/-- A batch is sent and its worker awaited, or the run ends. -/
theorem sendBatch_apply (number : Nat) (batch : List String) (s : RunState σ) :
    sendBatch w o number batch s =
      match w.send s.surroundings number (.batch batch) with
      | (u, some cause) => (.error (.gone cause),
          { s with
            surroundings := u
            events := s.events ++
              [.printed (batchLine number batch), .sent number (.batch batch)] })
      | (u, none) => (.ok (),
          { s with
            surroundings := u
            sessions := change number (busy batch ((w.now u).add o.stallSeconds)) s.sessions
            events := s.events ++
              [.printed (batchLine number batch), .sent number (.batch batch)] }) := by
  simp only [sendBatch, bind_apply, print_apply, send_apply]
  rcases w.send s.surroundings number (.batch batch) with ⟨u, _ | cause⟩
  · simp only [now, bind_apply, get_apply, pure_apply, update_apply, batchLine,
      List.append_assoc, List.cons_append, List.nil_append]
    rfl
  · simp only [batchLine, List.append_assoc, List.cons_append, List.nil_append]

/-- What is printed about a stalled batch. -/
def stallReport (x : Session) : List String :=
  stallLine o x.number :: (x.batch.getD []).map fun path => "• " ++ Path.display path o.cwd

/-- Lines are printed in order. -/
theorem printAll_apply (lines : List String) (f : String → String) (s : RunState σ) :
    (lines.forM fun line => print (f line) : Run σ Unit) s =
      (.ok (), { s with events := s.events ++ lines.map (.printed ∘ f) }) := by
  induction lines generalizing s with
  | nil => simp [List.forM]
  | cons line rest ih =>
    rw [forM_cons_apply, bind_apply, print_apply]
    simp [ih]

/-- A session that has stalled is reported and calmed, and nothing else happens. -/
theorem reportStall_apply (time : Double) (x : Session) (s : RunState σ) :
    reportStall o time x s = (.ok (),
      if isStalled time x then
        { s with
          sessions := change x.number calm s.sessions
          events := s.events ++ (stallReport o x).map .printed }
      else s) := by
  simp only [reportStall]
  split
  · simp only [bind_apply, update_apply, print_apply, printAll_apply, stallReport, List.map_cons,
      List.map_map, List.append_assoc, List.cons_append, List.nil_append]
    rfl
  · rfl

/-- Each session that has stalled is reported, in order. -/
theorem reportAll_apply (time : Double) (silent : List Session) (s : RunState σ) :
    (silent.forM (reportStall o time) : Run σ Unit) s = (.ok (),
      { s with
        sessions := calmAll (silent.filter (isStalled time)) s.sessions
        events := s.events ++
          ((silent.filter (isStalled time)).flatMap (stallReport o)).map .printed }) := by
  induction silent generalizing s with
  | nil => simp [List.forM, calmAll]
  | cons x rest ih =>
    rw [forM_cons_apply, bind_apply, reportStall_apply]
    by_cases h : isStalled time x
    · simp only [h, ↓reduceIte, ih, List.filter_cons, calmAll_cons, List.flatMap_cons,
        List.map_append, List.append_assoc]
    · simp only [h, Bool.false_eq_true, ↓reduceIte, ih, List.filter_cons]

/-- How long a run waits for some sessions. -/
def patience (live : List Session) (u : σ) : Option Double :=
  (earliest? live).map fun d =>
    let left := d.sub (w.now u)
    if left.isPositive then left else Double.zero false

/-- The time to wait is read, and nothing changes. -/
theorem timeout_apply (live : List Session) (s : RunState σ) :
    timeout w live s = (.ok (patience w live s.surroundings), s) := by
  simp only [timeout, patience]
  rcases earliest? live with _ | d <;> rfl

/-- A wait gives who is ready, or its deadline is too far. -/
theorem wait_apply (numbers : List Nat) (t : Option Double) (s : RunState σ) :
    wait w numbers t s =
      (match (w.wait s.surroundings numbers t).2 with
        | some ready => .ok ready
        | none => .error .deadlineTooFar,
      { s with
        surroundings := (w.wait s.surroundings numbers t).1
        events := s.events ++ [.waited numbers t] }) := by
  unfold Run.wait
  simp only [bind_apply, emit_apply, get_apply, modify_apply]
  cases (w.wait s.surroundings numbers t).2 <;> rfl

end Run

/-! ## Everything an action can do -/

section
variable (w : Surroundings σ) (o : Settings)

/-- A message is due in a state. -/
def Due : SessionState → Message → Prop
  | .awaitingBatchResult, .next => True
  | .awaitingReport, .report _ => True
  | _, _ => False

/-- **Everything an action can do**: the answers of the surroundings and the
moment that follows. -/
inductive Action : Moment σ → Moment σ → Prop
  | allSpawned {s : RunState σ} : Action ⟨.spawning [], s⟩ ⟨.waiting, s⟩
  /-- No files are left for a further worker. -/
  | noFiles {s : RunState σ} {number : Nat} {rest : List Nat} (hq : s.queue = []) :
      Action ⟨.spawning (number :: rest), s⟩ ⟨.waiting, s⟩
  /-- A worker cannot be spawned; the batch that was meant for it is lost. -/
  | notSpawned {s : RunState σ} {number : Nat} {rest : List Nat} {u : σ} {reason : String}
      (hq : s.queue ≠ []) (hspawn : w.spawn s.surroundings number = (u, some reason)) :
      Action ⟨.spawning (number :: rest), s⟩
        (RunState.close
          { s with
            surroundings := u
            queue := s.queue.drop o.batchSize
            events := s.events ++ [.spawned number] }
          (.error (.notSpawned reason)))
  /-- A worker is spawned, but its first batch cannot be sent. -/
  | firstGone {s : RunState σ} {number : Nat} {rest : List Nat} {u u' : σ} {cause : Worker.Gone}
      (hq : s.queue ≠ []) (hspawn : w.spawn s.surroundings number = (u, none))
      (hsend : w.send u number (.batch (s.queue.take o.batchSize)) = (u', some cause)) :
      Action ⟨.spawning (number :: rest), s⟩
        (RunState.close
          { s with
            surroundings := u'
            queue := s.queue.drop o.batchSize
            sessions := s.sessions ++ [Session.ofNumber number]
            events := s.events ++ [.spawned number,
              .printed (Run.batchLine number (s.queue.take o.batchSize)),
              .sent number (.batch (s.queue.take o.batchSize))] }
          (.error (.gone cause)))
  /-- A worker is spawned and has its first batch. -/
  | spawned {s : RunState σ} {number : Nat} {rest : List Nat} {u u' : σ}
      (hq : s.queue ≠ []) (hspawn : w.spawn s.surroundings number = (u, none))
      (hsend : w.send u number (.batch (s.queue.take o.batchSize)) = (u', none)) :
      Action ⟨.spawning (number :: rest), s⟩ ⟨.spawning rest,
        { s with
          surroundings := u'
          queue := s.queue.drop o.batchSize
          sessions := change number
            (busy (s.queue.take o.batchSize) ((w.now u').add o.stallSeconds))
            (s.sessions ++ [Session.ofNumber number])
          events := s.events ++ [.spawned number,
            .printed (Run.batchLine number (s.queue.take o.batchSize)),
            .sent number (.batch (s.queue.take o.batchSize))] }⟩
  /-- Every worker has ended. -/
  | nobodyLeft {s : RunState σ} (hlive : s.sessions.filter (·.isLive) = []) :
      Action ⟨.waiting, s⟩ (s.close (.ok ()))
  | cannotWait {s : RunState σ} {live : List Session} {t : Option Double} {u : σ}
      (hlive : s.sessions.filter (·.isLive) = live) (hne : live ≠ [])
      (ht : Run.patience w live s.surroundings = t)
      (hwait : w.wait s.surroundings (live.map (·.number)) t = (u, none)) :
      Action ⟨.waiting, s⟩
        (RunState.close
          { s with
            surroundings := u
            events := s.events ++ [.waited (live.map (·.number)) t] }
          (.error .deadlineTooFar))
  /-- Some workers have something to say; of the others some are stalled. -/
  | waited {s : RunState σ} {live stalled : List Session} {t : Option Double} {u : σ}
      {ready : List Nat} (hlive : s.sessions.filter (·.isLive) = live) (hne : live ≠ [])
      (ht : Run.patience w live s.surroundings = t)
      (hwait : w.wait s.surroundings (live.map (·.number)) t = (u, some ready))
      (hstalled : (live.filter fun x => !ready.contains x.number).filter
        (Run.isStalled (w.now u)) = stalled) :
      Action ⟨.waiting, s⟩ ⟨.handling (live.filter fun x => ready.contains x.number),
        { s with
          surroundings := u
          sessions := calmAll stalled s.sessions
          events := s.events ++ .waited (live.map (·.number)) t ::
            (stalled.flatMap (Run.stallReport o)).map .printed }⟩
  | roundOver {s : RunState σ} : Action ⟨.handling [], s⟩ ⟨.waiting, s⟩
  | unreadable {s : RunState σ} {x : Session} {rest : List Session} {u : σ}
      {cause : ProtocolError}
      (hreceive : w.receive s.surroundings x.number = (u, .error cause)) :
      Action ⟨.handling (x :: rest), s⟩
        (RunState.close
          { s with
            surroundings := u
            events := s.events ++ [.received x.number] }
          (.error (.unreadable cause)))
  | exited {s : RunState σ} {x : Session} {rest : List Session} {u : σ}
      (hreceive : w.receive s.surroundings x.number = (u, .ok none)) :
      Action ⟨.handling (x :: rest), s⟩
        (RunState.close
          { s with
            surroundings := u
            sessions := change x.number calm s.sessions
            events := s.events ++ [.received x.number] }
          (.error (.exited x.number)))
  | illegal {s : RunState σ} {x : Session} {rest : List Session} {u : σ} {m : Message}
      (hreceive : w.receive s.surroundings x.number = (u, .ok (some m))) (hdue : ¬ Due x.state m) :
      Action ⟨.handling (x :: rest), s⟩
        (RunState.close
          { s with
            surroundings := u
            sessions := change x.number calm s.sessions
            events := s.events ++ [.received x.number] }
          (.error (.illegal x.number m.kindName x.state)))
  /-- A worker has done its batch, but the next one cannot be sent. -/
  | nextGone {s : RunState σ} {x : Session} {rest : List Session} {u u' : σ}
      {cause : Worker.Gone} (hstate : x.state = .awaitingBatchResult)
      (hreceive : w.receive s.surroundings x.number = (u, .ok (some .next)))
      (hq : s.queue ≠ [])
      (hsend : w.send u x.number (.batch (s.queue.take o.batchSize)) = (u', some cause)) :
      Action ⟨.handling (x :: rest), s⟩
        (RunState.close
          { s with
            surroundings := u'
            queue := s.queue.drop o.batchSize
            sessions := change x.number free s.sessions
            events := s.events ++ [.received x.number,
              .printed (Run.batchLine x.number (s.queue.take o.batchSize)),
              .sent x.number (.batch (s.queue.take o.batchSize))] }
          (.error (.gone cause)))
  /-- A worker has done its batch and has the next one. -/
  | nextBatch {s : RunState σ} {x : Session} {rest : List Session} {u u' : σ}
      (hstate : x.state = .awaitingBatchResult)
      (hreceive : w.receive s.surroundings x.number = (u, .ok (some .next)))
      (hq : s.queue ≠ [])
      (hsend : w.send u x.number (.batch (s.queue.take o.batchSize)) = (u', none)) :
      Action ⟨.handling (x :: rest), s⟩ ⟨.handling rest,
        { s with
          surroundings := u'
          queue := s.queue.drop o.batchSize
          sessions := change x.number
            (busy (s.queue.take o.batchSize) ((w.now u').add o.stallSeconds)) s.sessions
          events := s.events ++ [.received x.number,
            .printed (Run.batchLine x.number (s.queue.take o.batchSize)),
            .sent x.number (.batch (s.queue.take o.batchSize))] }⟩
  /-- A worker has done its last batch, but cannot be asked for its report. -/
  | requestGone {s : RunState σ} {x : Session} {rest : List Session} {u u' : σ}
      {cause : Worker.Gone} (hstate : x.state = .awaitingBatchResult)
      (hreceive : w.receive s.surroundings x.number = (u, .ok (some .next)))
      (hq : s.queue = []) (hsend : w.send u x.number .reportRequest = (u', some cause)) :
      Action ⟨.handling (x :: rest), s⟩
        (RunState.close
          { s with
            surroundings := u'
            sessions := change x.number free s.sessions
            events := s.events ++ [.received x.number, .sent x.number .reportRequest] }
          (.error (.gone cause)))
  /-- A worker has done its last batch and is asked for its report. -/
  | request {s : RunState σ} {x : Session} {rest : List Session} {u u' : σ}
      (hstate : x.state = .awaitingBatchResult)
      (hreceive : w.receive s.surroundings x.number = (u, .ok (some .next)))
      (hq : s.queue = []) (hsend : w.send u x.number .reportRequest = (u', none)) :
      Action ⟨.handling (x :: rest), s⟩ ⟨.handling rest,
        { s with
          surroundings := u'
          sessions := change x.number asked s.sessions
          events := s.events ++ [.received x.number, .sent x.number .reportRequest] }⟩
  /-- A worker reports and is ended. -/
  | report {s : RunState σ} {x : Session} {rest : List Session} {u : σ} {data : Report}
      (hstate : x.state = .awaitingReport)
      (hreceive : w.receive s.surroundings x.number = (u, .ok (some (.report data)))) :
      Action ⟨.handling (x :: rest), s⟩ ⟨.handling rest,
        { s with
          surroundings := w.terminate u x.number
          sessions := change x.number (ended ∘ calm) s.sessions
          reports := s.reports ++ [data]
          events := s.events ++ [.received x.number, .terminated x.number] }⟩
  | terminated {s : RunState σ} {x : Session} {rest : List Session}
      {result : Except DispatchError Unit} :
      Action ⟨.closing result (x :: rest), s⟩ ⟨.closing result rest,
        { s with
          surroundings := w.terminate s.surroundings x.number
          sessions := change x.number ended s.sessions
          events := s.events ++ [.terminated x.number] }⟩
  | closed {s : RunState σ} {result : Except DispatchError Unit} :
      Action ⟨.closing result [], s⟩ ⟨.concluded result, s⟩
  | concluded {s : RunState σ} {result : Except DispatchError Unit} :
      Action ⟨.concluded result, s⟩ ⟨.concluded result, s⟩

end

/-! ## The code of an action, taken apart -/

section
variable {w : Surroundings σ} {o : Settings}

/-- Spawning the next worker is an action. -/
theorem action_spawnNext (number : Nat) (rest : List Nat) (s : RunState σ) :
    Action w o ⟨.spawning (number :: rest), s⟩
      (Moment.next w o ⟨.spawning (number :: rest), s⟩) := by
  simp only [Moment.next, Run.spawnNext, Run.bind_apply, Run.popBatch_apply]
  by_cases hq : s.queue = []
  · simp only [hq, ↓reduceIte, Run.pure_apply]
    exact .noFiles hq
  · simp only [hq, ↓reduceIte, Run.bind_apply, Run.spawn_apply]
    rcases hspawn : w.spawn s.surroundings number with ⟨u, _ | reason⟩
    · simp only [Run.modify_apply, Run.sendBatch_apply]
      rcases hsend : w.send u number (.batch (s.queue.take o.batchSize)) with ⟨u', _ | cause⟩
      · simpa using Action.spawned hq hspawn hsend
      · simpa using Action.firstGone hq hspawn hsend
    · exact .notSpawned hq hspawn

/-- So is waiting for who is ready. -/
theorem action_awaitReady (s : RunState σ) :
    Action w o ⟨.waiting, s⟩ (Moment.next w o ⟨.waiting, s⟩) := by
  simp only [Moment.next, Run.awaitReady, Run.live, Run.bind_apply, Run.get_apply, Run.pure_apply,
    List.isEmpty_iff]
  generalize hlive : s.sessions.filter (·.isLive) = live
  by_cases hne : live = []
  · simp only [hne, ↓reduceIte, Run.pure_apply]
    exact .nobodyLeft (hlive.trans hne)
  · simp only [hne, ↓reduceIte, Run.bind_apply, Run.timeout_apply, Run.wait_apply]
    generalize ht : Run.patience w live s.surroundings = t
    rcases hwait : w.wait s.surroundings (live.map (·.number)) t with ⟨u, _ | ready⟩
    · simp only [hwait]
      exact .cannotWait hlive hne ht hwait
    · simp only [hwait, Run.reportStalls, Run.now, Run.bind_apply, Run.get_apply, Run.pure_apply,
        Run.reportAll_apply, List.append_assoc, List.cons_append, List.nil_append]
      exact .waited hlive hne ht hwait rfl

/-- The two messages that are due, each in its state. -/
theorem due_iff (state : SessionState) (m : Message) :
    Due state m ↔ (state = .awaitingBatchResult ∧ m = .next) ∨
      (state = .awaitingReport ∧ ∃ data, m = .report data) := by
  cases state <;> cases m <;> simp [Due]

/-- Attending to a session is an action. -/
theorem action_attend (x : Session) (rest : List Session) (s : RunState σ) :
    Action w o ⟨.handling (x :: rest), s⟩ (Moment.next w o ⟨.handling (x :: rest), s⟩) := by
  simp only [Moment.next, Run.attend, Run.bind_apply, Run.receive_apply]
  rcases hreceive : w.receive s.surroundings x.number with ⟨u, cause | _ | m⟩
  · exact .unreadable hreceive
  · simp only [Run.handle, Run.bind_apply, Run.update_apply, Run.throw_apply]
    exact .exited hreceive
  · by_cases hdue : Due x.state m
    -- of the messages that are due one asks for work and the other is the report
    · rcases (due_iff x.state m).1 hdue with ⟨hstate, rfl⟩ | ⟨hstate, data, rfl⟩
      · simp only [Run.handle, Run.bind_apply, Run.update_apply, hstate, Run.advance,
          Run.popBatch_apply]
        rw [change_change (by intro; rfl)]
        by_cases hq : s.queue = []
        · simp only [if_pos hq, Run.bind_apply, Run.send_apply]
          rcases hsend : w.send u x.number .reportRequest with ⟨u', _ | cause⟩
          · simp only [Run.update_apply, List.append_assoc, List.cons_append, List.nil_append]
            rw [change_change (by intro; rfl)]
            exact .request hstate hreceive hq hsend
          · simp only [List.append_assoc, List.cons_append, List.nil_append]
            exact .requestGone hstate hreceive hq hsend
        · simp only [if_neg hq, Run.sendBatch_apply]
          rcases hsend : w.send u x.number (.batch (s.queue.take o.batchSize)) with
            ⟨u', _ | cause⟩
          · simp only [List.append_assoc, List.cons_append, List.nil_append]
            rw [change_change (by intro; rfl)]
            exact .nextBatch hstate hreceive hq hsend
          · simp only [List.append_assoc, List.cons_append, List.nil_append]
            exact .nextGone hstate hreceive hq hsend
      · simp only [Run.handle, Run.bind_apply, Run.update_apply, hstate, Run.modify_apply,
          Run.terminate_apply, List.append_assoc, List.cons_append, List.nil_append]
        rw [change_change (by intro; rfl)]
        exact .report hstate hreceive
    · -- whatever else is said in whatever state, the same error is thrown
      have hthrow : Run.handle w o x (some m) = (do
          Run.update x.number calm
          throw (.illegal x.number m.kindName x.state)) := by
        rcases x with ⟨number, state, batch, deadline⟩
        cases state <;> cases m <;> first | rfl | exact absurd trivial hdue
      simp only [hthrow, Run.bind_apply, Run.update_apply, Run.throw_apply]
      exact .illegal hreceive hdue

/-- **An action does what `Action` lists**, and nothing else. -/
theorem action_next (c : Moment σ) : Action w o c (c.next w o) := by
  rcases c with ⟨phase, s⟩
  cases phase with
  | spawning numbers =>
    cases numbers with
    | nil => exact .allSpawned
    | cons number rest => exact action_spawnNext number rest s
  | waiting => exact action_awaitReady s
  | handling ready =>
    cases ready with
    | nil => exact .roundOver
    | cons x rest => exact action_attend x rest s
  | closing result left =>
    cases left with
    | nil => exact .closed
    | cons x rest => exact .terminated
  | concluded result => exact .concluded

/-- What every action keeps and the beginning has, every reachable
moment has. -/
theorem Moment.Reaches.of_action {P : Moment σ → Prop} {c c' : Moment σ}
    (h : Moment.Reaches w o c c') (hc : P c)
    (hstep : ∀ d d', Moment.Reaches w o c d → Action w o d d' → P d → P d') : P c' :=
  h.invariant hc fun d hd hP => hstep d _ hd (action_next d) hP

end

end Retype.Dispatch
