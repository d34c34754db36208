import Mathlib
import Retype.Proofs.Dispatch.Standing
/-!
# Files are neither lost nor handed out twice

The files of a run wait in one queue and leave it in batches, at two places:
when a worker is spawned and when one has done its batch. Whatever workers
do, the files that were handed out and those that wait are the files of the
run (`conserved_of_reaches`), and as many workers are spawned as the run has
announced (`counted_of_reaches`). A worker that cannot be spawned is the one
thing that loses files, and it ends the run.
-/

namespace Retype.Dispatch

variable {σ : Type} {w : Surroundings σ} {o : Settings} {files : List String}

/-- The batch that is handed to a worker, whether or not it can be sent. -/
def Event.batch? : Event → Option (List String)
  | .sent _ (.batch files) => some files
  | _ => none

/-- The batches that were handed out, in order. -/
def RunState.batches (s : RunState σ) : List (List String) := s.events.filterMap Event.batch?

/-- How a run has ended, once it has. -/
def Phase.result? : Phase → Option (Except DispatchError Unit)
  | closing result _ => some result
  | concluded result => some result
  | _ => none

@[simp] theorem RunState.result?_close (s : RunState σ) (result : Except DispatchError Unit) :
    (s.close result).phase.result? = some result := rfl

@[simp] theorem RunState.state_close (s : RunState σ) (result : Except DispatchError Unit) :
    (s.close result).state = s := rfl

/-- Nothing that is printed is a batch. -/
theorem filterMap_batch?_printed (lines : List String) :
    (lines.map Event.printed).filterMap Event.batch? = [] := by
  rw [List.filterMap_map, List.filterMap_eq_nil_iff]
  exact fun _ _ => rfl

/-! ## Every file is in one place -/

/-- A worker could not be spawned. -/
def Phase.NotSpawned (p : Phase) : Prop := ∃ reason, p.result? = some (.error (.notSpawned reason))

/-- **Every file is in one place**: it waits, or it has been handed out in a
batch of the right size. Only the first batch of a worker that cannot be
spawned is in neither. -/
structure Conserved (o : Settings) (files : List String) (c : Moment σ) : Prop where
  kept : ∃ lost, (c.state.batches.flatten ++ c.state.queue ++ lost).Perm files ∧
    lost.length ≤ o.batchSize ∧ (lost = [] ∨ c.phase.NotSpawned)
  sized : ∀ batch ∈ c.state.batches, batch ≠ [] ∧ batch.length ≤ o.batchSize

namespace Conserved

variable {c c' : Moment σ}

/-- While a run goes on nothing is lost. -/
theorem perm_of_going (h : Conserved o files c) (hgoing : ¬ c.phase.NotSpawned) :
    (c.state.batches.flatten ++ c.state.queue).Perm files := by
  obtain ⟨lost, hperm, -, rfl | hspawn⟩ := h.kept
  · rwa [List.append_nil] at hperm
  · exact absurd hspawn hgoing

theorem of_perm (hperm : (c.state.batches.flatten ++ c.state.queue).Perm files)
    (hsized : ∀ batch ∈ c.state.batches, batch ≠ [] ∧ batch.length ≤ o.batchSize) :
    Conserved o files c :=
  ⟨⟨[], by rwa [List.append_nil], Nat.zero_le _, .inl rfl⟩, hsized⟩

/-- An action that hands nothing out keeps every file in its place. -/
theorem of_batches_eq (h : Conserved o files c)
    (hphase : c.phase.NotSpawned → c'.phase.NotSpawned)
    (hbatches : c'.state.batches = c.state.batches) (hqueue : c'.state.queue = c.state.queue) :
    Conserved o files c' := by
  obtain ⟨lost, hperm, hlength, hlost⟩ := h.kept
  refine ⟨⟨lost, ?_, hlength, hlost.imp_right hphase⟩, ?_⟩
  · rwa [hbatches, hqueue]
  · rw [hbatches]
    exact h.sized

/-- An action that hands out the next batch moves its files. -/
theorem of_handed (h : Conserved o files c) (hgoing : ¬ c.phase.NotSpawned)
    (hb : 1 ≤ o.batchSize) (hq : c.state.queue ≠ [])
    (hbatches : c'.state.batches = c.state.batches ++ [c.state.queue.take o.batchSize])
    (hqueue : c'.state.queue = c.state.queue.drop o.batchSize) : Conserved o files c' := by
  refine of_perm ?_ ?_
  · rw [hbatches, hqueue, List.flatten_append, List.flatten_singleton, List.append_assoc,
      List.take_append_drop]
    exact h.perm_of_going hgoing
  · intro batch hbatch
    rw [hbatches, List.mem_append, List.mem_singleton] at hbatch
    rcases hbatch with hbatch | rfl
    · exact h.sized batch hbatch
    · refine ⟨fun hnil => ?_, List.length_take_le ..⟩
      rcases List.take_eq_nil_iff.1 hnil with hzero | hnil
      · omega
      · exact hq hnil

end Conserved

/-- A run that goes on has not failed to spawn anybody. -/
theorem not_notSpawned_of_none {p : Phase} (h : p.result? = none) : ¬ p.NotSpawned := by
  rintro ⟨reason, hreason⟩
  rw [h] at hreason
  exact absurd hreason (by simp)

/-- **Every action keeps every file in one place.** -/
theorem conserved_action (hb : 1 ≤ o.batchSize) {c c' : Moment σ} (h : Action w o c c')
    (hc : Conserved o files c) : Conserved o files c' := by
  cases h with
  | allSpawned | noFiles | roundOver | nobodyLeft =>
    exact hc.of_batches_eq (fun h => absurd h (not_notSpawned_of_none rfl)) rfl rfl
  | cannotWait | unreadable | exited | illegal | requestGone | request | report =>
    refine hc.of_batches_eq (fun h => absurd h (not_notSpawned_of_none rfl)) ?_ rfl
    exact (List.filterMap_append ..).trans (List.append_nil _)
  | waited =>
    refine hc.of_batches_eq (fun h => absurd h (not_notSpawned_of_none rfl)) ?_ rfl
    refine (List.filterMap_append ..).trans ?_
    rw [List.filterMap_cons_none rfl, filterMap_batch?_printed, List.append_nil]
    rfl
  | firstGone hq | spawned hq | nextGone _ _ hq | nextBatch _ _ hq =>
    refine hc.of_handed (not_notSpawned_of_none rfl) hb hq ?_ rfl
    exact List.filterMap_append ..
  | @notSpawned s number rest u reason hq hspawn =>
    have hbatches : (s.events ++ [Event.spawned number]).filterMap Event.batch? = s.batches :=
      (List.filterMap_append ..).trans (List.append_nil _)
    -- the batch that was taken for the worker is the one that is lost
    refine ⟨⟨s.queue.take o.batchSize, ?_, List.length_take_le .., .inr ⟨reason, rfl⟩⟩, ?_⟩
    · refine List.Perm.trans ?_ (hc.perm_of_going (not_notSpawned_of_none rfl))
      simp only [RunState.state_close, RunState.batches, hbatches, List.append_assoc]
      refine List.Perm.append_left _ (List.perm_append_comm.trans ?_)
      rw [List.take_append_drop]
    · simpa only [RunState.state_close, RunState.batches, hbatches] using hc.sized
  | terminated =>
    refine hc.of_batches_eq id ?_ rfl
    exact (List.filterMap_append ..).trans (List.append_nil _)
  | closed | concluded => exact hc.of_batches_eq id rfl rfl

theorem conserved_opened (o : Settings) (u : σ) {shuffled : List String}
    (hshuffled : shuffled.Perm files) :
    Conserved o files ((RunState.ofFiles u shuffled).opened o) := by
  have hqueue : (([] : List (List String)).flatten ++ shuffled.reverse).Perm files :=
    (List.reverse_perm _).trans hshuffled
  rw [RunState.opened]
  split
  · exact .of_perm hqueue fun batch hbatch => absurd hbatch List.not_mem_nil
  · exact .of_perm hqueue fun batch hbatch => absurd hbatch List.not_mem_nil

/-- **Every file is in one place, always.** -/
theorem conserved_of_reaches {u : σ} {shuffled : List String} {c : Moment σ}
    (hshuffled : shuffled.Perm files) (hb : 1 ≤ o.batchSize)
    (h : Moment.Reaches w o ((RunState.ofFiles u shuffled).opened o) c) : Conserved o files c :=
  h.of_action (conserved_opened o u hshuffled) fun _ _ _ => conserved_action hb

/-! ## As many workers as announced -/

/-- The number of batches that some files make. -/
def batchesOf (o : Settings) (files : Nat) : Nat := (files + o.batchSize - 1) / o.batchSize

theorem batchesOf_zero (hb : 1 ≤ o.batchSize) : batchesOf o 0 = 0 :=
  Nat.div_eq_of_lt (by omega)

theorem batchesOf_le (hb : 1 ≤ o.batchSize) (n : Nat) : batchesOf o n ≤ n := by
  rw [batchesOf, Nat.div_le_iff_le_mul_add_pred hb]
  have := Nat.le_mul_of_pos_left n hb
  omega

/-- Handing out a batch leaves one batch less. -/
theorem batchesOf_drop (hb : 1 ≤ o.batchSize) {n : Nat} (hn : n ≠ 0) :
    batchesOf o (n - o.batchSize) + 1 = batchesOf o n := by
  by_cases hle : n ≤ o.batchSize
  · rw [Nat.sub_eq_zero_of_le hle, batchesOf_zero hb, batchesOf]
    refine (Nat.div_eq_of_lt_le ?_ ?_).symm <;> omega
  · rw [batchesOf, batchesOf, ← Nat.add_div_right _ hb]
    congr 1
    omega

/-- The number of workers that are spawned. -/
def spawnedCount (o : Settings) (files : Nat) : Nat := min o.workers.toNat (batchesOf o files)

/-- What is spawned is what is announced. -/
theorem spawnedCount_eq (hworkers : 1 ≤ o.workers) (n : Nat) :
    (spawnedCount o n : Int) = Run.workerCount o n := by
  rw [spawnedCount, Run.workerCount, batchesOf]
  omega

/-- **As many workers as announced**: they are all there once the spawning is
done, unless the run breaks off, and on the way there are workers for as many
of the batches that wait as there are to be workers. -/
def Counted (o : Settings) (total : Nat) : Moment σ → Prop
  | ⟨.spawning numbers, s⟩ =>
    s.sessions.length + min numbers.length (batchesOf o s.queue.length) = total
  | ⟨.closing (.error _) _, _⟩ => True
  | ⟨.concluded (.error _), _⟩ => True
  | ⟨_, s⟩ => s.sessions.length = total

theorem Session.length_change (number : Nat) (f : Session → Session) (xs : List Session) :
    (change number f xs).length = xs.length :=
  List.length_map ..

theorem counted_action (hb : 1 ≤ o.batchSize) {total : Nat} {c c' : Moment σ}
    (h : Action w o c c') (hc : Counted o total c) : Counted o total c' := by
  cases h with
  | allSpawned => simpa [Counted] using hc
  | noFiles hq =>
    simpa only [Counted, hq, List.length_nil, batchesOf_zero hb, Nat.min_zero, Nat.add_zero]
      using hc
  | notSpawned | firstGone | cannotWait | unreadable | exited | illegal | nextGone | requestGone =>
    trivial
  | @spawned s number rest u u' hq =>
    have hdrop := batchesOf_drop hb (mt List.length_eq_zero_iff.1 hq)
    simp only [Counted, List.length_cons, Session.length_change, List.length_append,
      List.length_drop, List.length_nil] at hc ⊢
    omega
  | nobodyLeft | roundOver => exact hc
  | waited => exact (List.length_map ..).trans hc
  | nextBatch | request | report => exact (Session.length_change ..).trans hc
  | @terminated s x rest result =>
    cases result with
    | ok => exact (Session.length_change ..).trans hc
    | error => trivial
  | @closed s result =>
    cases result with
    | ok => exact hc
    | error => trivial
  | concluded => exact hc

theorem counted_opened (o : Settings) (u : σ) (shuffled : List String) (hb : 1 ≤ o.batchSize) :
    Counted o (spawnedCount o shuffled.length) ((RunState.ofFiles u shuffled).opened o) := by
  have hle := batchesOf_le hb shuffled.length
  rw [RunState.opened, if_neg (by omega)]
  simp only [Counted, RunState.announced, RunState.ofFiles, Run.workerNumbers, List.length_map,
    List.length_range, List.length_reverse, List.length_nil, spawnedCount]
  omega

/-- **As many workers as announced, always.** -/
theorem counted_of_reaches {u : σ} {shuffled : List String} {c : Moment σ} (hb : 1 ≤ o.batchSize)
    (h : Moment.Reaches w o ((RunState.ofFiles u shuffled).opened o) c) :
    Counted o (spawnedCount o shuffled.length) c :=
  h.of_action (counted_opened o u shuffled hb) fun _ _ _ => counted_action hb

/-- The spawning is done. -/
def Phase.Spawned (p : Phase) : Prop := ∀ numbers, p ≠ .spawning numbers

/-- Once the spawning is done nobody is spawned any more. -/
theorem length_sessions_action {c c' : Moment σ} (h : Action w o c c') (hc : c.phase.Spawned) :
    c'.phase.Spawned ∧ c'.state.sessions.length = c.state.sessions.length := by
  cases h with
  | allSpawned | noFiles | notSpawned | firstGone | spawned => exact absurd rfl (hc _)
  | nobodyLeft | cannotWait | roundOver | unreadable | closed | concluded =>
    exact ⟨fun _ => Phase.noConfusion, rfl⟩
  | waited => exact ⟨fun _ => Phase.noConfusion, List.length_map ..⟩
  | exited | illegal | nextGone | nextBatch | requestGone | request | report | terminated =>
    exact ⟨fun _ => Phase.noConfusion, Session.length_change ..⟩

/-- What has happened stays. -/
theorem events_action {c c' : Moment σ} (h : Action w o c c') :
    c.state.events <+: c'.state.events := by
  cases h with
  | allSpawned | noFiles | nobodyLeft | roundOver | closed | concluded => exact List.prefix_rfl
  | notSpawned | firstGone | spawned | cannotWait | waited | unreadable | exited | illegal
    | nextGone | nextBatch | requestGone | request | report | terminated =>
    exact List.prefix_append ..

/-! ## The end of a run -/

/-- Files that nobody can be given do not wait: a run that finishes has
handed all of them out. -/
theorem queue_eq_nil_of_finished {u : σ} {shuffled : List String} {c : Moment σ}
    (hworkers : 1 ≤ o.workers) (hb : 1 ≤ o.batchSize)
    (h : Moment.Reaches w o ((RunState.ofFiles u shuffled).opened o) c)
    (hresult : c.phase.result? = some (.ok ())) : c.state.queue = [] := by
  refine h.of_action (P := fun c => c.phase.result? = some (.ok ()) → c.state.queue = []) ?_ ?_
    hresult
  · rw [RunState.opened, if_neg (by omega)]
    exact fun h => absurd h (by simp [Phase.result?])
  · intro c c' hreaches haction hc hresult
    cases haction with
    | allSpawned | noFiles | spawned | waited | roundOver | nextBatch | request | report =>
      exact absurd hresult (by simp [Phase.result?])
    | notSpawned | firstGone | cannotWait | unreadable | exited | illegal | nextGone
      | requestGone =>
      exact absurd hresult (by simp)
    | terminated | closed | concluded => exact hc hresult
    | @nobodyLeft s hlive =>
      rcases hsessions : s.sessions with _ | ⟨x, rest⟩
      · -- nobody was spawned, so there was nothing to hand out
        have hcount := counted_of_reaches hb hreaches
        have hperm := (conserved_of_reaches (.refl shuffled) hb hreaches).perm_of_going
          (not_notSpawned_of_none rfl)
        have hlength := hperm.length_eq
        simp only [Counted, hsessions, List.length_nil, spawnedCount] at hcount
        have hzero : batchesOf o shuffled.length = 0 := by omega
        rw [batchesOf, Nat.div_eq_zero_iff] at hzero
        rw [List.length_append] at hlength
        exact List.length_eq_zero_iff.1 (by simp only [RunState.state_close] at *; omega)
      · -- somebody has ended, who was asked for a report when no files were left
        have hx : x ∈ s.sessions := hsessions ▸ List.mem_cons_self ..
        have hended : x.isLive = false := by
          by_contra hne
          have hmem : x ∈ s.sessions.filter (·.isLive) := List.mem_filter.2 ⟨hx, by simpa using hne⟩
          exact absurd (hlive ▸ hmem) List.not_mem_nil
        refine ((standing_of_reaches hreaches).2 x hx).2 fun hstate => ?_
        rw [Session.isLive, hstate] at hended
        exact absurd hended (by decide)

/-- A run that finishes has handed out every file. -/
theorem handed_of_finished {u : σ} {shuffled : List String} {c : Moment σ}
    (hshuffled : shuffled.Perm files) (hworkers : 1 ≤ o.workers) (hb : 1 ≤ o.batchSize)
    (h : Moment.Reaches w o ((RunState.ofFiles u shuffled).opened o) c)
    (hresult : c.phase.result? = some (.ok ())) : c.state.batches.flatten.Perm files := by
  have hgoing : ¬ c.phase.NotSpawned := by
    rintro ⟨reason, hreason⟩
    exact absurd (hresult.symm.trans hreason) (by simp)
  have hperm := (conserved_of_reaches hshuffled hb h).perm_of_going hgoing
  rwa [queue_eq_nil_of_finished hworkers hb h hresult, List.append_nil] at hperm

/-- After the announcement everything else is done. -/
theorem announcement_of_reaches {u : σ} {shuffled : List String} {c : Moment σ}
    (hb : 1 ≤ o.batchSize) (h : Moment.Reaches w o ((RunState.ofFiles u shuffled).opened o) c) :
    [Event.printed (RunState.announcement o shuffled.length)] <+: c.state.events := by
  refine h.of_action
    (P := fun c => [Event.printed (RunState.announcement o shuffled.length)] <+: c.state.events) ?_
    fun _ _ _ haction hc => hc.trans (events_action haction)
  rw [RunState.opened, if_neg (by omega)]
  simp [RunState.announced, RunState.ofFiles]

/-- **Exactly once.** Let the workers send what they like and let any
sending, receiving or spawning fail. At every moment the files that were
handed out and those that wait are the files of the run, in batches of the
right size; only the first batch of a worker that cannot be spawned is lost,
which ends the run. A run that finishes has handed out every file once. And
once the spawning is done there are as many sessions as the run announced. -/
theorem dispatched_exactly_once (w : Surroundings σ) (o : Settings) (u : σ)
    {files shuffled : List String} (hshuffled : shuffled.Perm files) (hworkers : 1 ≤ o.workers)
    (hb : 1 ≤ o.batchSize) :
    (∀ c, Moment.Reaches w o ((RunState.ofFiles u shuffled).opened o) c →
      (∃ lost, (c.state.batches.flatten ++ c.state.queue ++ lost).Perm files ∧
        lost.length ≤ o.batchSize ∧ (lost = [] ∨ c.phase.NotSpawned)) ∧
      (∀ batch ∈ c.state.batches, batch ≠ [] ∧ batch.length ≤ o.batchSize) ∧
      (c.phase.result? = some (.ok ()) → c.state.batches.flatten.Perm files) ∧
      (c.phase = .waiting → ∀ c', Moment.Reaches w o c c' →
        [.printed (RunState.announcement o files.length)] <+: c'.state.events ∧
        (c'.state.sessions.length : Int) = Run.workerCount o files.length)) ∧
    ∀ n, ((RunState.ofFiles u shuffled).run w o n).1 = .finished →
      ((RunState.ofFiles u shuffled).run w o n).2.batches.flatten.Perm files := by
  refine ⟨fun c h => ⟨(conserved_of_reaches hshuffled hb h).kept,
    (conserved_of_reaches hshuffled hb h).sized, handed_of_finished hshuffled hworkers hb h, ?_⟩,
    fun n hn => ?_⟩
  · rintro hwaiting c' hc'
    have hlength : c.state.sessions.length = spawnedCount o shuffled.length := by
      have hcount := counted_of_reaches hb h
      rcases c with ⟨phase, s⟩
      subst hwaiting
      exact hcount
    -- from here on nobody is spawned, so the sessions stay as many
    have hsessions := hc'.of_action
      (P := fun d => d.phase.Spawned ∧ d.state.sessions.length = c.state.sessions.length)
      ⟨fun numbers => hwaiting ▸ Phase.noConfusion, rfl⟩ fun _ _ _ haction hd =>
        ⟨(length_sessions_action haction hd.1).1,
          (length_sessions_action haction hd.1).2.trans hd.2⟩
    rw [hsessions.2, hlength, spawnedCount_eq hworkers, ← hshuffled.length_eq]
    exact ⟨announcement_of_reaches hb (h.trans hc'), rfl⟩
  · refine handed_of_finished hshuffled hworkers hb (reaches_run n _) ?_
    rw [hn]
    rfl

/-- Surroundings in which time stands still, everything can be done and the
workers say what a list says, whoever is asked. -/
def Surroundings.scripted : Surroundings (List (Except ProtocolError (Option Message))) where
  now _ := Double.zero false
  spawn u _ := (u, none)
  send u _ _ := (u, none)
  wait u numbers _ := (u, some numbers)
  receive
    | [], _ => ([], .ok none)
    | answer :: rest, _ => (rest, answer)
  terminate u _ := u

/-- Three files, one of them twice, before a worker that does two batches and
reports. -/
def RunState.sample : RunState (List (Except ProtocolError (Option Message))) :=
  .ofFiles [.ok (some .next), .ok (some .next), .ok (some (.report (.ofFindings [])))]
    ["b", "a", "a"]

/-- One worker, batches of two. -/
def Settings.sample : Settings := ⟨1, 2, Double.zero false, "/"⟩

theorem dispatched_exactly_once_sample :
    (RunState.sample.run .scripted .sample 4).1 = .finished ∧
      (RunState.sample.run .scripted .sample 4).2.batches.flatten.Perm ["a", "b", "a"] := by
  have hfinished : (RunState.sample.run .scripted .sample 4).1 = .finished := by cbv
  have hshuffled : ["b", "a", "a"].Perm ["a", "b", "a"] := by decide
  have honce := dispatched_exactly_once .scripted .sample RunState.sample.surroundings hshuffled
    (by decide) (by decide)
  exact ⟨hfinished, honce.2 4 hfinished⟩

end Retype.Dispatch
