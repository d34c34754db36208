import Mathlib.Data.List.Nodup
import Retype.Proofs.Dispatch.Action
/-!
# Where the sessions stand

Every worker has one session and every session one number; those that are
still to be dealt with in a round are sessions as they are, not as they
were; and nobody is asked for a report while files are left. `Standing`
collects this phase by phase, and `standing_of_reaches` is that it holds
always.
-/

namespace Retype.Dispatch

variable {σ : Type} {w : Surroundings σ} {o : Settings}

open Session

/-- The numbers of some sessions. -/
def numbersOf (xs : List Session) : List Nat := xs.map (·.number)

namespace Session

theorem numbersOf_change {number : Nat} {f : Session → Session}
    (hf : ∀ x, (f x).number = x.number) (xs : List Session) :
    numbersOf (change number f xs) = numbersOf xs :=
  map_number_change hf xs

theorem nodup_change {number : Nat} {f : Session → Session} {xs : List Session}
    (hf : ∀ x, (f x).number = x.number) (h : (numbersOf xs).Nodup) :
    (numbersOf (change number f xs)).Nodup := by
  rwa [numbersOf_change hf]

@[simp] theorem numbersOf_calmAll (stalled xs : List Session) :
    numbersOf (calmAll stalled xs) = numbersOf xs :=
  map_number_calmAll stalled xs

@[simp] theorem numbersOf_append (xs ys : List Session) :
    numbersOf (xs ++ ys) = numbersOf xs ++ numbersOf ys :=
  List.map_append

@[simp] theorem number_ended (x : Session) : x.ended.number = x.number := rfl

theorem mem_numbersOf {xs : List Session} {x : Session} (h : x ∈ xs) : x.number ∈ numbersOf xs :=
  List.mem_map_of_mem h

/-- Sessions with one number are one session. -/
theorem eq_of_number_eq {xs : List Session} (hnodup : (numbersOf xs).Nodup) {x y : Session}
    (hx : x ∈ xs) (hy : y ∈ xs) (h : x.number = y.number) : x = y :=
  List.inj_on_of_nodup_map hnodup hx hy h

/-- A session with another number is not changed. -/
theorem mem_change_of_ne {number : Nat} {f : Session → Session} {xs : List Session} {x : Session}
    (hx : x ∈ xs) (h : x.number ≠ number) : x ∈ change number f xs :=
  mem_change.2 ⟨x, hx, by simp [h]⟩

/-- After a change there are the changed session and the others. -/
theorem mem_change_cases {number : Nat} {f : Session → Session} {xs : List Session} {y : Session}
    (hy : y ∈ change number f xs) :
    (∃ x ∈ xs, x.number = number ∧ y = f x) ∨ (y ∈ xs ∧ y.number ≠ number) := by
  obtain ⟨x, hx, rfl⟩ := mem_change.1 hy
  by_cases h : x.number = number
  · exact .inl ⟨x, hx, h, by simp [h]⟩
  · exact .inr ⟨by simpa [h] using hx, by simp [h]⟩

/-- A session that is not stalled stays as it is. -/
theorem mem_calmAll_of_not_mem {stalled xs : List Session} {x : Session} (hx : x ∈ xs)
    (h : x.number ∉ numbersOf stalled) : x ∈ calmAll stalled xs :=
  List.mem_map.2 ⟨x, hx, if_neg h⟩

/-- What a stalled session loses is its deadline. -/
theorem mem_calmAll_cases {stalled xs : List Session} {y : Session} (hy : y ∈ calmAll stalled xs) :
    ∃ x ∈ xs, y.number = x.number ∧ y.state = x.state ∧ y.batch = x.batch := by
  obtain ⟨x, hx, rfl⟩ := List.mem_map.1 hy
  refine ⟨x, hx, ?_⟩
  by_cases h : x.number ∈ stalled.map (·.number)
  · rw [if_pos h]; exact ⟨rfl, rfl, rfl⟩
  · rw [if_neg h]; exact ⟨rfl, rfl, rfl⟩

end Session

/-! ## The invariant -/

/-- While a run goes on no session is idle, and none is asked for its report
or ended while files are left. -/
def Working (xs : List Session) (queue : List String) : Prop :=
  ∀ x ∈ xs, x.state ≠ .idle ∧ (x.state ≠ .awaitingBatchResult → queue = [])

/-- **Where the sessions stand**, in each phase. -/
def Standing : Moment σ → Prop
  | ⟨.spawning numbers, s⟩ =>
    (numbersOf s.sessions ++ numbers).Nodup ∧ Working s.sessions s.queue
  | ⟨.waiting, s⟩ => (numbersOf s.sessions).Nodup ∧ Working s.sessions s.queue
  | ⟨.handling ready, s⟩ =>
    (numbersOf s.sessions).Nodup ∧ Working s.sessions s.queue ∧ (numbersOf ready).Nodup ∧
      ∀ x ∈ ready, x ∈ s.sessions ∧ x.isLive
  | ⟨.closing _ left, s⟩ =>
    (numbersOf s.sessions).Nodup ∧ (numbersOf left).Nodup ∧
      (∀ x ∈ s.sessions, (x.isLive ↔ x.number ∈ numbersOf left)) ∧
      ∀ x ∈ left, x.number ∈ numbersOf s.sessions
  | ⟨.concluded _, s⟩ => (numbersOf s.sessions).Nodup ∧ ∀ x ∈ s.sessions, ¬ x.isLive

/-- Every session has its own number. -/
theorem Standing.nodup {c : Moment σ} (hc : Standing c) : (numbersOf c.state.sessions).Nodup := by
  rcases c with ⟨_ | _ | _ | _ | _, s⟩
  · exact hc.1.of_append_left
  · exact hc.1
  · exact hc.1
  · exact hc.1
  · exact hc.1

/-- However a run ends, the sessions to be ended are those that live. -/
theorem standing_close {s : RunState σ} (h : (numbersOf s.sessions).Nodup)
    (result : Except DispatchError Unit) : Standing (s.close result) := by
  refine ⟨h, h.sublist (List.filter_sublist.map _), fun x hx => ⟨fun hlive => ?_, fun hmem => ?_⟩,
    fun x hx => mem_numbersOf (List.mem_filter.1 hx).1⟩
  · exact mem_numbersOf (List.mem_filter.2 ⟨hx, hlive⟩)
  · obtain ⟨y, hy, hnumber⟩ := List.mem_map.1 hmem
    obtain ⟨hy, hlive⟩ := List.mem_filter.1 hy
    rwa [eq_of_number_eq h hx hy hnumber.symm]

/-- Changing the session of somebody who is dealt with leaves the others who
are ready as they are. -/
theorem ready_change {xs rest : List Session} {x : Session} {f : Session → Session}
    (hnodup : (numbersOf (x :: rest)).Nodup) (hready : ∀ y ∈ x :: rest, y ∈ xs ∧ y.isLive) :
    ∀ y ∈ rest, y ∈ change x.number f xs ∧ y.isLive := by
  intro y hy
  obtain ⟨hmem, hlive⟩ := hready y (List.mem_cons_of_mem x hy)
  refine ⟨mem_change_of_ne hmem fun h => ?_, hlive⟩
  rw [numbersOf, List.map_cons, List.nodup_cons] at hnodup
  exact hnodup.1 (h ▸ mem_numbersOf hy)

/-- One session after a change is not idle, and free to be asked. -/
theorem working_change {xs : List Session} {queue queue' : List String} {number : Nat}
    {f : Session → Session} (h : Working xs queue) (hqueue : queue = [] → queue' = [])
    (hf : ∀ x ∈ xs, x.number = number → (f x).state ≠ .idle ∧
      ((f x).state ≠ .awaitingBatchResult → queue' = [])) :
    Working (change number f xs) queue' := by
  intro y hy
  rcases mem_change_cases hy with ⟨x, hx, hnumber, rfl⟩ | ⟨hy, -⟩
  · exact hf x hx hnumber
  · exact ⟨(h y hy).1, fun hne => hqueue ((h y hy).2 hne)⟩

/-- Those who are ready do not stall. -/
theorem ready_waited {xs live stalled : List Session} {ready : List Nat} {time : Double}
    (hlive : xs.filter (·.isLive) = live)
    (hstalled : (live.filter fun x => !ready.contains x.number).filter
      (Run.isStalled time) = stalled) :
    ∀ x ∈ live.filter fun x => ready.contains x.number, x ∈ calmAll stalled xs ∧ x.isLive := by
  intro x hx
  obtain ⟨hx, hready⟩ := List.mem_filter.1 hx
  obtain ⟨hx, hlive⟩ := List.mem_filter.1 (hlive ▸ hx)
  refine ⟨mem_calmAll_of_not_mem hx fun hmem => ?_, hlive⟩
  obtain ⟨y, hy, hnumber⟩ := List.mem_map.1 hmem
  obtain ⟨hy, -⟩ := List.mem_filter.1 (hstalled ▸ hy)
  have hsilent := (List.mem_filter.1 hy).2
  rw [hnumber, hready] at hsilent
  exact Bool.noConfusion hsilent

/-- **Every action keeps the sessions in their places.** -/
theorem standing_action {c c' : Moment σ} (h : Action w o c c') (hc : Standing c) :
    Standing c' := by
  cases h with
  | allSpawned => exact ⟨by simpa using hc.1, hc.2⟩
  | noFiles hq => exact ⟨hc.1.of_append_left, hc.2⟩
  | notSpawned hq hspawn =>
    refine standing_close ?_ _
    exact hc.1.of_append_left
  | @firstGone s number rest u u' cause hq hspawn hsend =>
    refine standing_close ?_ _
    rw [numbersOf_append]
    rw [Standing, ← List.singleton_append, ← List.append_assoc] at hc
    exact hc.1.of_append_left
  | @spawned s number rest u u' hq hspawn hsend =>
    obtain ⟨hnodup, hwork⟩ := hc
    refine ⟨?_, ?_⟩
    · show (numbersOf (Session.change number _ _) ++ rest).Nodup
      rw [numbersOf_change (by intro; rfl), numbersOf_append, List.append_assoc]
      exact hnodup
    · intro y hy
      rcases mem_change_cases hy with ⟨x, -, -, rfl⟩ | ⟨hy, hne⟩
      · exact ⟨by simp [busy], fun h => absurd rfl h⟩
      · rcases List.mem_append.1 hy with hy | hy
        -- files wait here, so that everybody else has a batch as well
        · exact ⟨(hwork y hy).1, fun h => absurd ((hwork y hy).2 h) hq⟩
        · rw [List.mem_singleton.1 hy] at hne
          exact absurd rfl hne
  | nobodyLeft hlive => exact standing_close hc.1 _
  | cannotWait hlive hne ht hwait =>
    refine standing_close ?_ _
    exact hc.1
  | @waited s live stalled t u ready hlive hne ht hwait hstalled =>
    obtain ⟨hnodup, hwork⟩ := hc
    refine ⟨by rwa [numbersOf_calmAll], fun y hy => ?_, ?_, ready_waited hlive hstalled⟩
    · obtain ⟨x, hx, -, hstate, -⟩ := mem_calmAll_cases hy
      rw [hstate]
      exact hwork x hx
    · subst hlive
      exact hnodup.sublist ((List.filter_sublist.trans List.filter_sublist).map _)
  | roundOver => exact ⟨hc.1, hc.2.1⟩
  | unreadable hreceive =>
    refine standing_close ?_ _
    exact hc.1
  | exited hreceive | illegal hreceive hdue =>
    refine standing_close ?_ _
    exact nodup_change (fun _ => rfl) hc.1
  | nextGone hstate hreceive hq hsend | requestGone hstate hreceive hq hsend =>
    refine standing_close ?_ _
    exact nodup_change (fun _ => rfl) hc.1
  | nextBatch hstate hreceive hq hsend =>
    obtain ⟨hnodup, hwork, hready, hmem⟩ := hc
    refine ⟨nodup_change (fun _ => rfl) hnodup, ?_, hready.of_cons, ready_change hready hmem⟩
    exact working_change hwork (fun h => absurd h hq) fun x _ _ =>
      ⟨by simp [busy], fun h => absurd rfl h⟩
  | request hstate hreceive hq hsend =>
    obtain ⟨hnodup, hwork, hready, hmem⟩ := hc
    refine ⟨nodup_change (fun _ => rfl) hnodup, ?_, hready.of_cons, ready_change hready hmem⟩
    exact working_change hwork id fun x _ _ => ⟨by simp [asked], fun _ => hq⟩
  | @report s x rest u data hstate hreceive =>
    obtain ⟨hnodup, hwork, hready, hmem⟩ := hc
    refine ⟨nodup_change (fun _ => rfl) hnodup, ?_, hready.of_cons, ready_change hready hmem⟩
    -- whoever reports was asked to, and that was when no files were left
    have hq : s.queue = [] := (hwork x (hmem x (List.mem_cons_self ..)).1).2 (by simp [hstate])
    exact working_change hwork id fun x _ _ => ⟨by simp [ended], fun _ => hq⟩
  | @terminated s x rest result =>
    obtain ⟨hnodup, hleft, hlive, hmem⟩ := hc
    refine ⟨nodup_change (fun _ => rfl) hnodup, hleft.of_cons, fun y hy => ?_, fun y hy => ?_⟩
    · have hx : x.number ∉ numbersOf rest := (List.nodup_cons.1 hleft).1
      rcases mem_change_cases hy with ⟨y, hy, hnumber, rfl⟩ | ⟨hy, hne⟩
      · rw [number_ended, hnumber]
        exact ⟨fun h => absurd h (by simp [ended, isLive]), fun h => absurd h hx⟩
      · rw [hlive y hy, numbersOf, List.map_cons, List.mem_cons]
        exact ⟨fun h => h.resolve_left hne, .inr⟩
    · rw [numbersOf_change (by intro; rfl)]
      exact hmem y (List.mem_cons_of_mem x hy)
  | closed => exact ⟨hc.1, fun x hx hlive => by simpa [numbersOf] using (hc.2.2.1 x hx).1 hlive⟩
  | concluded => exact hc

/-- The workers have different numbers. -/
theorem nodup_workerNumbers (o : Settings) (files : Nat) :
    (Run.workerNumbers o files).Nodup :=
  List.nodup_range.map fun _ _ h => Nat.succ.inj h

theorem standing_opened (o : Settings) (u : σ) (files : List String) :
    Standing ((RunState.ofFiles u files).opened o) := by
  rw [RunState.opened]
  split
  · refine standing_close ?_ _
    exact List.nodup_nil
  · exact ⟨nodup_workerNumbers o _, fun x hx => absurd hx List.not_mem_nil⟩

/-- **Where the sessions stand, always.** -/
theorem standing_of_reaches {u : σ} {files : List String} {c : Moment σ}
    (h : Moment.Reaches w o ((RunState.ofFiles u files).opened o) c) : Standing c :=
  h.of_action (standing_opened o u files) fun _ _ _ => standing_action

end Retype.Dispatch
