import Retype.Proofs.Dispatch.Action
/-!
# Surroundings that are seen in others

A proof may add something to the surroundings of a run that nobody looks at,
such as a log. Then the surroundings are still seen in the richer ones, and a
run in the richer ones is, for all that can be seen, the same run
(`RunState.run_seen`): it ends in the same way, and what it leaves behind
differs in nothing but what was added. So a run is the same with a log of what
its workers answer and without it (`RunState.run_recorded`), and what the log says
of recorded runs holds of all runs. What every operation keeps may also be added
to the state; so it holds after a run (`RunState.run_keeps`).
-/

namespace Retype.Dispatch

variable {σ τ : Type}

/-- The surroundings `w` are **seen** in the surroundings `w'`: through `f`
every operation does what it does in `w`. -/
structure Surroundings.Seen (f : τ → σ) (w' : Surroundings τ) (w : Surroundings σ) : Prop where
  now : ∀ u, w.now (f u) = w'.now u
  spawn : ∀ u number, w.spawn (f u) number = Prod.map f id (w'.spawn u number)
  send : ∀ u number m, w.send (f u) number m = Prod.map f id (w'.send u number m)
  wait : ∀ u numbers t, w.wait (f u) numbers t = Prod.map f id (w'.wait u numbers t)
  receive : ∀ u number, w.receive (f u) number = Prod.map f id (w'.receive u number)
  terminate : ∀ u number, w.terminate (f u) number = f (w'.terminate u number)

/-- A state as it is seen. -/
def RunState.seen (f : τ → σ) (s : RunState τ) : RunState σ :=
  ⟨f s.surroundings, s.queue, s.sessions, s.reports, s.events⟩

/-- A step does the same in both surroundings. -/
def Run.Mirrors {α : Type} (f : τ → σ) (x : Run τ α) (y : Run σ α) : Prop :=
  ∀ s, y (s.seen f) = ((x s).1, (x s).2.seen f)

namespace Run.Mirrors

variable {α β : Type} {f : τ → σ} {w' : Surroundings τ} {w : Surroundings σ} {o : Settings}

/-! ## Steps that call nobody -/

/-- A value returned is the same in both. -/
theorem pure (a : α) : Mirrors f (Pure.pure a) (Pure.pure a) := fun _ => rfl

/-- So is a failure. -/
theorem throw (e : DispatchError) :
    Mirrors (α := α) f (MonadExcept.throw e) (MonadExcept.throw e) := fun _ => rfl

/-- Steps that do the same one after the other do the same together. -/
theorem bind {x : Run τ α} {y : Run σ α} {g' : α → Run τ β} {g : α → Run σ β}
    (hx : Mirrors f x y) (hg : ∀ a, Mirrors f (g' a) (g a)) :
    Mirrors f (x >>= g') (y >>= g) := by
  intro s
  rw [bind_apply, bind_apply, hx s]
  rcases x s with ⟨e | a, s'⟩
  · rfl
  · exact hg a s'

/-- So do the steps of a list. -/
theorem forM {g' : α → Run τ PUnit} {g : α → Run σ PUnit} (hg : ∀ a, Mirrors f (g' a) (g a))
    (as : List α) : Mirrors f (as.forM g') (as.forM g) := by
  induction as with
  | nil => exact pure _
  | cons a as ih => exact (hg a).bind fun _ => ih

/-- What looks at the state but not at the surroundings. -/
theorem get {g' : RunState τ → Run τ β} {g : RunState σ → Run σ β}
    (hg : ∀ s, Mirrors f (g' s) (g (s.seen f))) :
    Mirrors f (MonadState.get >>= g') (MonadState.get >>= g) :=
  fun s => hg s s

/-- Printing does not ask the surroundings. -/
theorem print (line : String) : Mirrors f (Run.print line) (Run.print line) := fun _ => rfl

/-- Nor does changing a session. -/
theorem update (number : Nat) (g : Session → Session) :
    Mirrors f (Run.update number g) (Run.update number g) := fun _ => rfl

/-- Nor does asking who is live. -/
theorem live : Mirrors f Run.live Run.live := fun _ => rfl

/-- Nor does taking a batch. -/
theorem popBatch : Mirrors f (Run.popBatch o) (Run.popBatch o) := by
  intro s
  rw [popBatch_apply, popBatch_apply]
  by_cases hq : s.queue = []
  · rw [if_pos hq, if_pos (show (s.seen f).queue = [] from hq)]
  · rw [if_neg hq, if_neg (show (s.seen f).queue ≠ [] from hq)]
    rfl

/-- Nor does reporting a stall. -/
theorem reportStall (time : Double) (x : Session) :
    Mirrors f (Run.reportStall o time x) (Run.reportStall o time x) := by
  unfold Run.reportStall
  split
  · exact (update _ _).bind fun _ => (print _).bind fun _ => forM (fun _ => print _) _
  · exact pure _

/-! ## Steps that call somebody -/

variable (h : w'.Seen f w)
include h

/-- The clock is read alike. -/
theorem now : Mirrors f (Run.now w') (Run.now w) := by
  intro s
  exact congrArg (fun time => (Except.ok time, s.seen f)) (h.now s.surroundings)

/-- A worker is terminated alike. -/
theorem terminate (number : Nat) :
    Mirrors f (Run.terminate w' number) (Run.terminate w number) := by
  intro s
  rw [terminate_apply, terminate_apply, RunState.seen]
  simp only [RunState.seen, h.terminate]

/-- A worker is spawned alike. -/
theorem spawn (number : Nat) : Mirrors f (Run.spawn w' number) (Run.spawn w number) := by
  intro s
  have hspawn : w.spawn (s.seen f).surroundings number = _ := h.spawn s.surroundings number
  rw [spawn_apply, spawn_apply, hspawn]
  rfl

/-- A message is sent alike. -/
theorem send (number : Nat) (m : Message) :
    Mirrors f (Run.send w' number m) (Run.send w number m) := by
  intro s
  have hsend : w.send (s.seen f).surroundings number m = _ := h.send s.surroundings number m
  rw [send_apply, send_apply, hsend]
  rfl

/-- A message is received alike. -/
theorem receive (number : Nat) : Mirrors f (Run.receive w' number) (Run.receive w number) := by
  intro s
  have hreceive : w.receive (s.seen f).surroundings number = _ := h.receive s.surroundings number
  rw [receive_apply, receive_apply, hreceive]
  rfl

/-- A wait is the same. -/
theorem wait (numbers : List Nat) (t : Option Double) :
    Mirrors f (Run.wait w' numbers t) (Run.wait w numbers t) := by
  intro s
  have hwait : w.wait (s.seen f).surroundings numbers t = _ := h.wait s.surroundings numbers t
  rw [wait_apply, wait_apply, hwait]
  rfl

/-- A batch is sent alike. -/
theorem sendBatch (number : Nat) (batch : List String) :
    Mirrors f (Run.sendBatch w' o number batch) (Run.sendBatch w o number batch) :=
  (print _).bind fun _ => (send h number _).bind fun _ => (now h).bind fun _ => update number _

/-- A crew is spawned alike. -/
theorem spawnAll (numbers : List Nat) :
    Mirrors f (Run.spawnAll w' o numbers) (Run.spawnAll w o numbers) := by
  induction numbers with
  | nil => exact pure _
  | cons number rest ih =>
    refine popBatch.bind fun batch => ?_
    cases batch with
    | none => exact pure _
    | some batch =>
      exact (spawn h number).bind fun _ => Mirrors.bind (fun _ => rfl) fun _ =>
        (sendBatch h number batch).bind fun _ => ih

/-- The start is the same. -/
theorem start : Mirrors f (Run.start w' o) (Run.start w o) := by
  refine get fun s => ?_
  by_cases hb : o.batchSize = 0
  · simp only [hb, ↓reduceIte]
    exact fun _ => rfl
  · simp only [hb, ↓reduceIte]
    exact (print _).bind fun _ => spawnAll h _

/-- The time to wait is the same. -/
theorem timeout (live : List Session) : Mirrors f (Run.timeout w' live) (Run.timeout w live) := by
  unfold Run.timeout
  rcases earliest? live with _ | d
  · exact pure _
  · exact (now h).bind fun _ => pure _

/-- A worker is given its next batch alike. -/
theorem advance (number : Nat) : Mirrors f (Run.advance w' o number) (Run.advance w o number) := by
  refine (update _ _).bind fun _ => popBatch.bind fun batch => ?_
  cases batch with
  | some batch => exact sendBatch h number batch
  | none => exact (send h number _).bind fun _ => update number _

/-- A message is handled alike. -/
theorem handle (x : Session) (m : Option Message) :
    Mirrors f (Run.handle w' o x m) (Run.handle w o x m) := by
  refine (update _ _).bind fun _ => ?_
  rcases x with ⟨number, state, batch, deadline⟩
  cases state <;> rcases m with _ | _ | _ | _ | _ <;>
    first
      | exact throw _
      | exact advance h _
      | exact Mirrors.bind (fun _ => rfl) fun _ => terminate h _

/-- A round is the same. -/
theorem round : Mirrors f (Run.round w' o) (Run.round w o) := by
  refine live.bind fun sessions => ?_
  by_cases hempty : sessions.isEmpty
  · simp only [hempty, ↓reduceIte]
    exact pure _
  · simp only [hempty, Bool.false_eq_true, ↓reduceIte]
    refine (timeout h _).bind fun _ => (wait h _ _).bind fun _ => ?_
    refine ((now h).bind fun _ => forM (reportStall _) _).bind fun _ => ?_
    exact (forM (fun x => (receive h _).bind fun m => handle h x m) _).bind fun _ => pure _

/-- Any number of rounds are the same. -/
theorem rounds (n : Nat) : Mirrors f (Run.rounds w' o n) (Run.rounds w o n) := by
  induction n with
  | zero => exact pure _
  | succ n ih =>
    refine (round h).bind fun goesOn => ?_
    cases goesOn with
    | true => exact ih
    | false => exact pure _

end Run.Mirrors

variable {f : τ → σ} {w' : Surroundings τ} {w : Surroundings σ}

/-- So is shutting down. -/
theorem RunState.shutDown_seen (h : w'.Seen f w) (s : RunState τ) :
    (s.seen f).shutDown w = (s.shutDown w').seen f := by
  have hsessions := Run.Mirrors.forM (fun x : Session => Run.Mirrors.terminate h x.number)
    (s.sessions.filter (·.isLive)) s
  rw [shutDown, shutDown]
  exact congrArg Prod.snd hsessions

/-- **A run is seen as a run.** -/
theorem RunState.run_seen (h : w'.Seen f w) (o : Settings) (n : Nat) (s : RunState τ) :
    (s.seen f).run w o n = ((s.run w' o n).1, (s.run w' o n).2.seen f) := by
  have hwork : Run.Mirrors f (Run.start w' o >>= fun _ => Run.rounds w' o n)
      (Run.start w o >>= fun _ => Run.rounds w o n) :=
    (Run.Mirrors.start h).bind fun _ => Run.Mirrors.rounds h n
  rw [RunState.run, RunState.run, hwork s]
  rcases (Run.start w' o >>= fun _ => Run.rounds w' o n : Run _ Bool) s with
    ⟨cause | _ | _, s'⟩
  · exact congrArg (Prod.mk _) (shutDown_seen h s')
  · rfl
  · exact congrArg (Prod.mk _) (shutDown_seen h s')

/-! ## What a run keeps -/

/-- The surroundings in which something always holds that every operation keeps. -/
def Surroundings.keeping (w : Surroundings σ) {P : σ → Prop}
    (hspawn : ∀ u number, P u → P (w.spawn u number).1)
    (hsend : ∀ u number m, P u → P (w.send u number m).1)
    (hwait : ∀ u numbers t, P u → P (w.wait u numbers t).1)
    (hreceive : ∀ u number, P u → P (w.receive u number).1)
    (hterminate : ∀ u number, P u → P (w.terminate u number)) : Surroundings { u // P u } where
  now u := w.now u.1
  spawn u number := (⟨(w.spawn u.1 number).1, hspawn _ _ u.2⟩, (w.spawn u.1 number).2)
  send u number m := (⟨(w.send u.1 number m).1, hsend _ _ _ u.2⟩, (w.send u.1 number m).2)
  wait u numbers t := (⟨(w.wait u.1 numbers t).1, hwait _ _ _ u.2⟩, (w.wait u.1 numbers t).2)
  receive u number := (⟨(w.receive u.1 number).1, hreceive _ _ u.2⟩, (w.receive u.1 number).2)
  terminate u number := ⟨w.terminate u.1 number, hterminate _ _ u.2⟩

/-- **What every operation keeps holds after a run.** -/
theorem RunState.run_keeps {P : σ → Prop} (hspawn : ∀ u number, P u → P (w.spawn u number).1)
    (hsend : ∀ u number m, P u → P (w.send u number m).1)
    (hwait : ∀ u numbers t, P u → P (w.wait u numbers t).1)
    (hreceive : ∀ u number, P u → P (w.receive u number).1)
    (hterminate : ∀ u number, P u → P (w.terminate u number)) {u : σ} (hu : P u) (o : Settings)
    (n : Nat) (files : List String) : P ((ofFiles u files).run w o n).2.surroundings := by
  let w' := w.keeping hspawn hsend hwait hreceive hterminate
  have hseen : w'.Seen Subtype.val w :=
    ⟨fun _ => rfl, fun _ _ => rfl, fun _ _ _ => rfl, fun _ _ _ =>
      rfl, fun _ _ => rfl, fun _ _ => rfl⟩
  have hrun := run_seen hseen o n (ofFiles ⟨u, hu⟩ files)
  have hstart : (ofFiles (⟨u, hu⟩ : { u // P u }) files).seen Subtype.val = ofFiles u files := rfl
  rw [hstart] at hrun
  rw [hrun]
  exact ((ofFiles ⟨u, hu⟩ files).run w' o n).2.surroundings.2

/-! ## A log of the calls -/

/-- What the primary does to one channel, and the answer. -/
inductive Call where
  | spawned (number : Nat) (failure : Option String)
  | sent (number : Nat) (message : Message) (failure : Option Worker.Gone)
  | received (number : Nat) (answer : Except ProtocolError (Option Message))
  | terminated (number : Nat)

/-- The surroundings with a log of every call. -/
def Surroundings.recorded (w : Surroundings σ) : Surroundings (σ × List Call) where
  now u := w.now u.1
  spawn u number :=
    (((w.spawn u.1 number).1, u.2 ++ [.spawned number (w.spawn u.1 number).2]),
      (w.spawn u.1 number).2)
  send u number m :=
    (((w.send u.1 number m).1, u.2 ++ [.sent number m (w.send u.1 number m).2]),
      (w.send u.1 number m).2)
  wait u numbers t := (((w.wait u.1 numbers t).1, u.2), (w.wait u.1 numbers t).2)
  receive u number :=
    (((w.receive u.1 number).1, u.2 ++ [.received number (w.receive u.1 number).2]),
      (w.receive u.1 number).2)
  terminate u number := (w.terminate u.1 number, u.2 ++ [.terminated number])

/-- The state without the log. -/
def RunState.plain (s : RunState (σ × List Call)) : RunState σ :=
  ⟨s.surroundings.1, s.queue, s.sessions, s.reports, s.events⟩

variable (w : Surroundings σ) (o : Settings)

/-- **Surroundings that record every call do what the plain ones do.** -/
theorem Surroundings.recorded_seen : w.recorded.Seen Prod.fst w :=
  ⟨fun _ => rfl, fun _ _ => rfl, fun _ _ _ => rfl, fun _ _ _ => rfl, fun _ _ => rfl, fun _ _ => rfl⟩

/-- **A recorded run is a run.** The log changes neither how a run ends nor
what has happened by then. -/
theorem RunState.run_recorded (n : Nat) (s : RunState (σ × List Call)) :
    s.plain.run w o n = ((s.run w.recorded o n).1, (s.run w.recorded o n).2.plain) :=
  run_seen w.recorded_seen o n s

end Retype.Dispatch
