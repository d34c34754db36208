import Retype.Proofs.Dispatch.Deadlines
import Retype.Proofs.Dispatch.Quiet
/-!
# Stalled batches

What a run does about workers that do not answer. Each wait lasts until the
earliest deadline, and after it the workers whose deadline is over are
reported, with the files of the batch that they were sent last (`Watchful`).
Nobody is reported twice for a batch, and apart from what is printed a run is
the same without the reports (`stalls_reported`).
-/

namespace Retype.Dispatch

variable {σ : Type} {w : Surroundings σ} {o : Settings}

open Session

/-! ## What is printed -/

/-- The report of a stalled worker: a line, and the files of the batch that it
was sent last. -/
def diagnosis (o : Settings) (events : List Event) (number : Nat) : List String :=
  Run.stallLine o number ::
    ((lastBatch? number events).getD []).map fun path => "• " ++ Path.display path o.cwd

/-- The reports that follow a wait. -/
def diagnoses (o : Settings) (events : List Event) (stalled : List Session) : List Event :=
  (stalled.flatMap fun x => diagnosis o events x.number).map .printed

/-- What a run prints about a stalled session is about the batch that the worker
was sent last. -/
theorem stallReports_eq {xs stalled : List Session} {events : List Event}
    (h : Clocked xs events) {time : Double}
    (hstalled : ∀ x ∈ stalled, x ∈ xs ∧ Run.isStalled time x) :
    (stalled.flatMap (Run.stallReport o)).map Event.printed = diagnoses o events stalled := by
  have heach : ∀ x ∈ stalled, Run.stallReport o x = diagnosis o events x.number := by
    intro x hx
    obtain ⟨hmem, hover⟩ := hstalled x hx
    cases hd : x.deadline with
    | none => simp [Run.isStalled, hd] at hover
    | some d =>
      obtain ⟨-, files, hbatch, hlast⟩ := h x hmem d hd
      rw [Run.stallReport, diagnosis, hbatch, hlast]
  rw [diagnoses, List.flatMap_congr heach]

/-- Nobody is reported before the next wait. -/
def Silent (o : Settings) (events : List Event) : Prop :=
  ∀ e ∈ events.takeWhile (fun e => e.patience?.isNone), ∀ number, e.reports o number = false

theorem Silent.of_forall {events : List Event}
    (h : ∀ e ∈ events, ∀ number, e.reports o number = false) : Silent o events :=
  fun e he => h e ((List.takeWhile_prefix _).subset he)

theorem Silent.append {events more : List Event} (h : Silent o events) (hmore : Silent o more) :
    Silent o (events ++ more) := by
  intro e he
  rw [List.takeWhile_append] at he
  split_ifs at he with hall
  · rcases List.mem_append.1 he with he | he
    · refine h e ?_
      rwa [(List.takeWhile_prefix _).eq_of_length hall]
    · exact hmore e he
  · exact h e he

/-! ## Waits -/

/-- **A wait as it should be**, in a state; `rest` is what the run does after
it.

Whoever has a deadline has not answered the batch that it was sent last. The
run waits for everybody who has not ended, until the earliest deadline. After
it those who are not ready and whose deadline is over are reported, in order,
and nobody else before the next wait. -/
structure Watchful (w : Surroundings σ) (o : Settings) (s : RunState σ) (numbers : List Nat)
    (t : Option Double) (rest : List Event) : Prop where
  clocked : Clocked s.sessions s.events
  numbers_eq : numbers = numbersOf (s.sessions.filter (·.isLive))
  patient : Patient w (s.sessions.filter (·.isLive)) s.surroundings t
  diagnosed : ∀ v ready, w.wait s.surroundings numbers t = (v, some ready) →
    ∃ more, rest = diagnoses o s.events (((s.sessions.filter (·.isLive)).filter fun x =>
      !ready.contains x.number).filter (Run.isStalled (w.now v))) ++ more ∧ Silent o more
  silent : ∀ v, w.wait s.surroundings numbers t = (v, none) → Silent o rest

/-- What is done later is not about this wait. -/
theorem Watchful.append {s : RunState σ} {numbers : List Nat} {t : Option Double}
    {rest more : List Event} (h : Watchful w o s numbers t rest) (hmore : Silent o more) :
    Watchful w o s numbers t (rest ++ more) where
  clocked := h.clocked
  numbers_eq := h.numbers_eq
  patient := h.patient
  diagnosed v ready hwait := by
    obtain ⟨after, hrest, hafter⟩ := h.diagnosed v ready hwait
    exact ⟨after ++ more, by rw [hrest, List.append_assoc], hafter.append hmore⟩
  silent v hwait := (h.silent v hwait).append hmore

/-- **Every wait of a run is as it should be.** The run comes through the state
in which it waits. -/
def Watched (w : Surroundings σ) (o : Settings) (c₀ c : Moment σ) : Prop :=
  ∀ front numbers t rest, c.state.events = front ++ .waited numbers t :: rest →
    ∃ s, Moment.Reaches w o c₀ ⟨.waiting, s⟩ ∧ Moment.Reaches w o ⟨.waiting, s⟩ c ∧
      s.events = front ∧ Watchful w o s numbers t rest

namespace Watched

variable {c₀ c c' : Moment σ} {more : List Event}

/-- An action after which all earlier waits are as they were, and a wait that it
does itself is as it should be. -/
theorem step (h : Watched w o c₀ c) (hreach : Moment.Reaches w o c₀ c) (hnext : c.next w o = c')
    (hevents : c'.state.events = c.state.events ++ more) (hsilent : Silent o more)
    (hnew : ∀ front numbers t rest, more = front ++ Event.waited numbers t :: rest →
      c.phase = .waiting ∧ front = [] ∧ Watchful w o c.state numbers t rest) :
    Watched w o c₀ c' := by
  intro front numbers t rest hsplit
  rw [hevents, List.append_eq_append_iff] at hsplit
  rcases hsplit with ⟨later, rfl, hmore⟩ | ⟨earlier, hearlier, hrest⟩
  · obtain ⟨hphase, rfl, hwatchful⟩ := hnew later numbers t rest hmore
    obtain ⟨phase, s⟩ := c
    obtain rfl : phase = .waiting := hphase
    exact ⟨s, hreach, .single hnext, (List.append_nil _).symm, hwatchful⟩
  · cases earlier with
    | nil =>
      obtain ⟨hphase, -, hwatchful⟩ := hnew [] numbers t rest hrest.symm
      obtain ⟨phase, s⟩ := c
      obtain rfl : phase = .waiting := hphase
      exact ⟨s, hreach, .single hnext, by simpa using hearlier, hwatchful⟩
    | cons e earlier =>
      obtain ⟨rfl, rfl⟩ := List.cons.inj hrest
      obtain ⟨s, hto, hfrom, hfront, hwatchful⟩ := h front numbers t earlier hearlier
      exact ⟨s, hto, hfrom.tail hnext, hfront, hwatchful.append hsilent⟩

/-- An action that neither waits nor reports anybody. -/
theorem quiet (h : Watched w o c₀ c) (hreach : Moment.Reaches w o c₀ c) (hnext : c.next w o = c')
    (hevents : c'.state.events = c.state.events ++ more)
    (hmore : ∀ e ∈ more, e.patience? = none ∧ ∀ number, e.reports o number = false) :
    Watched w o c₀ c' := by
  refine h.step hreach hnext hevents (.of_forall fun e he => (hmore e he).2) ?_
  rintro front numbers t rest rfl
  have hwait := (hmore (.waited numbers t) (by simp)).1
  cases hwait

end Watched

/-- What follows a wait that is answered. -/
theorem watchful_of_answered {s : RunState σ} {u : σ} {t : Option Double} {live : List Session}
    {ready : List Nat} (hclocked : Clocked s.sessions s.events)
    (hlive : s.sessions.filter (·.isLive) = live) (ht : Run.patience w live s.surroundings = t)
    (hwait : w.wait s.surroundings (live.map (·.number)) t = (u, some ready)) :
    Watchful w o s (live.map (·.number)) t
      ((((live.filter fun x => !ready.contains x.number).filter
        (Run.isStalled (w.now u))).flatMap (Run.stallReport o)).map .printed) where
  clocked := hclocked
  numbers_eq := by rw [hlive, numbersOf]
  patient := by
    rw [hlive, ← ht]
    exact patience_spec w live s.surroundings
  diagnosed v ready' hwait' := by
    obtain ⟨rfl, hready⟩ := Prod.mk.inj (hwait.symm.trans hwait')
    obtain rfl := Option.some.inj hready
    have hstalled : ∀ x ∈ (live.filter fun x => !ready.contains x.number).filter
        (Run.isStalled (w.now u)), x ∈ s.sessions ∧ Run.isStalled (w.now u) x := by
      intro x hx
      obtain ⟨hx, hover⟩ := List.mem_filter.1 hx
      rw [← hlive] at hx
      exact ⟨(List.mem_filter.1 (List.mem_filter.1 hx).1).1, hover⟩
    refine ⟨[], ?_, by simp [Silent]⟩
    rw [List.append_nil, hlive, stallReports_eq hclocked hstalled]
  silent v hwait' := by
    have hnone := (Prod.mk.inj (hwait.symm.trans hwait')).2
    cases hnone

/-- What follows a wait that cannot be. -/
theorem watchful_of_tooFar {s : RunState σ} {u : σ} {t : Option Double} {live : List Session}
    (hclocked : Clocked s.sessions s.events) (hlive : s.sessions.filter (·.isLive) = live)
    (ht : Run.patience w live s.surroundings = t)
    (hwait : w.wait s.surroundings (live.map (·.number)) t = (u, none)) :
    Watchful w o s (live.map (·.number)) t [] where
  clocked := hclocked
  numbers_eq := by rw [hlive, numbersOf]
  patient := by
    rw [hlive, ← ht]
    exact patience_spec w live s.surroundings
  diagnosed v ready hwait' := by
    have hsome := (Prod.mk.inj (hwait.symm.trans hwait')).2
    cases hsome
  silent v hwait' := by simp [Silent]

/-- **Every action waits as it should**, if it waits. -/
theorem watched_action {c₀ c c' : Moment σ} (h : Action w o c c') (hnext : c.next w o = c')
    (hreach : Moment.Reaches w o c₀ c)
    (hclocked : c.phase.result? = none → Clocked c.state.sessions c.state.events)
    (hc : Watched w o c₀ c) : Watched w o c₀ c' := by
  cases h with
  | allSpawned | noFiles | roundOver | closed | concluded | nobodyLeft =>
    exact hc.quiet hreach hnext (List.append_nil _).symm (by simp)
  | notSpawned | unreadable | exited | illegal | requestGone | terminated | request | report =>
    refine hc.quiet hreach hnext rfl ?_
    simp [Event.reports, Event.patience?]
  | firstGone | nextGone | spawned | nextBatch =>
    refine hc.quiet hreach hnext rfl ?_
    simp [Event.reports, Event.patience?, Run.batchLine_ne_stallLine]
  | @cannotWait s live t u hlive hne ht hwait =>
    refine hc.step hreach hnext rfl (by simp [Silent, Event.patience?]) ?_
    intro front numbers t' rest hmore
    cases front with
    | nil =>
      obtain ⟨⟨rfl, rfl⟩, rfl⟩ : (live.map (·.number) = numbers ∧ t = t') ∧ [] = rest := by
        simpa using hmore
      exact ⟨rfl, rfl, watchful_of_tooFar (hclocked rfl) hlive ht hwait⟩
    | cons e front => simp at hmore
  | @waited s live stalled t u ready hlive hne ht hwait hstalled =>
    refine hc.step hreach hnext rfl (by simp [Silent, Event.patience?]) ?_
    intro front numbers t' rest hmore
    cases front with
    | nil =>
      obtain ⟨⟨rfl, rfl⟩, rfl⟩ : (live.map (·.number) = numbers ∧ t = t') ∧
          (stalled.flatMap (Run.stallReport o)).map Event.printed = rest := by
        simpa using hmore
      subst hstalled
      exact ⟨rfl, rfl, watchful_of_answered (hclocked rfl) hlive ht hwait⟩
    | cons e front =>
      -- what is printed is no wait
      obtain ⟨-, hprinted⟩ := List.cons.inj hmore
      have hmem : Event.waited numbers t' ∈ (stalled.flatMap (Run.stallReport o)).map .printed := by
        rw [hprinted]
        simp
      obtain ⟨line, -, hline⟩ := List.mem_map.1 hmem
      cases hline

/-- **Every wait is as it should be, always.** -/
theorem watched_of_reaches {u : σ} {files : List String} {c : Moment σ}
    (h : Moment.Reaches w o ((RunState.ofFiles u files).opened o) c) :
    Watched w o ((RunState.ofFiles u files).opened o) c := by
  refine h.invariant ?_ fun c hreach hc => watched_action (action_next c) rfl hreach
    (clocked_of_reaches hreach) hc
  intro front numbers t rest hsplit
  have hmem : Event.waited numbers t ∈ ((RunState.ofFiles u files).opened o).state.events := by
    rw [hsplit]
    simp
  rw [RunState.opened] at hmem
  split_ifs at hmem <;> simp [RunState.close, RunState.announced, RunState.ofFiles] at hmem

/-! ## Whole runs -/

/-- **Stalled batches are reported**, each once, and nothing else comes of it.

Whatever the surroundings do: the run comes through a state for each of its
waits in which the wait is as it should be (`Watchful`), so that exactly those
are reported after it who are not ready and whose deadline is over, with the
files of their batch; and no batch is reported twice. A run without deadlines
and reports, whose waits are answered in the same way, ends as this one does,
with the same reports, and has done the same to the same workers. -/
theorem stalls_reported (w : Surroundings σ) (o : Settings) (n : Nat) (u : σ)
    (files : List String) :
    (∀ front numbers t rest,
      ((RunState.ofFiles u files).run w o n).2.events = front ++ .waited numbers t :: rest →
        ∃ s, Moment.Reaches w o ((RunState.ofFiles u files).opened o) ⟨.waiting, s⟩ ∧
          Moment.Reaches w o ⟨.waiting, s⟩
            ⟨((RunState.ofFiles u files).run w o n).1.phase,
              ((RunState.ofFiles u files).run w o n).2⟩ ∧
          s.events = front ∧ Watchful w o s numbers t rest) ∧
    (∀ number, ReportedOnce o number ((RunState.ofFiles u files).run w o n).2.events) ∧
    (∀ times, timesAsked ((RunState.ofFiles u files).run w o n).2.events = times →
      ((RunState.ofFiles (u, times) files).quietRun w.retimed o n).1 =
          ((RunState.ofFiles u files).run w o n).1 ∧
        Alike ((RunState.ofFiles u files).run w o n).2
          ((RunState.ofFiles (u, times) files).quietRun w.retimed o n).2 []) := by
  have hreach := reaches_run (w := w) (o := o) n (RunState.ofFiles u files)
  exact ⟨watched_of_reaches hreach, (announced_of_reaches hreach).once,
    fun times => quietRun_alike w o n u files⟩

/-- Surroundings of a worker that does not answer the first time it is waited
for; each wait lasts five seconds. -/
def Surroundings.drowsy : Surroundings Nat where
  now k := Double.ofInt (5 * k)
  spawn k _ := (k, none)
  send k _ _ := (k, none)
  wait k _ _ := (k + 1, some (if k = 0 then [] else [1]))
  receive k _ := (k, .ok (some (if k = 2 then .next else .report (.ofFindings []))))
  terminate k _ := k

/-- One worker, batches of one, and a second to answer. -/
def Settings.hasty : Settings := ⟨1, 1, Double.ofInt 1, "/"⟩

theorem stalls_reported_sample :
    ((RunState.ofFiles 0 ["/a"]).run .drowsy .hasty 3).2.events.any (·.reports .hasty 1) ∧
      ∃ front numbers rest,
        ((RunState.ofFiles 0 ["/a"]).run .drowsy .hasty 3).2.events =
          front ++ .waited numbers (some (Double.ofInt 1)) :: rest ∧
        ∃ s : RunState Nat, s.events = front ∧
          Watchful .drowsy .hasty s numbers (some (Double.ofInt 1)) rest := by
  refine ⟨by decide +kernel, ?_⟩
  have hasked : some (Double.ofInt 1) ∈
      timesAsked ((RunState.ofFiles 0 ["/a"]).run .drowsy .hasty 3).2.events := by
    decide +kernel
  obtain ⟨e, hmem, hwait⟩ := List.mem_filterMap.1 hasked
  cases e with
  | waited numbers t =>
    obtain rfl : t = some (Double.ofInt 1) := Option.some.inj hwait
    obtain ⟨front, rest, hsplit⟩ := List.append_of_mem hmem
    obtain ⟨hwatched, -⟩ := stalls_reported .drowsy .hasty 3 0 ["/a"]
    obtain ⟨s, -, -, hfront, hwatchful⟩ := hwatched front numbers _ rest hsplit
    exact ⟨front, numbers, rest, hsplit, s, hfront, hwatchful⟩
  | _ => cases hwait

end Retype.Dispatch
