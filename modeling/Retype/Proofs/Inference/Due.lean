import Mathlib.Data.List.Nodup
import Retype.Proofs.Inference.Line
/-!
# What is due

The jobs that are ready are those that the calls and the callers wait for, each
once. So where nothing is ready no call is about to run or to be completed and
no caller is about to be served, and a desk left alone gets there.
-/

namespace Retype.Inference

/-- The call whose first step is due. -/
@[simp] def Job.run? : Job → Option (Entry Nat)
  | run e => some e
  | _ => none

namespace Desk

variable {ε : Type} {maxLength : Int} {s : Desk ε} {k : Nat}

/-- What is due is ready, once. -/
structure Scheduled (s : Desk ε) : Prop where
  nodup : s.ready.Nodup
  runs : ∀ e, .run e ∈ s.ready ↔ s.queue.active = some e ∧ (s.call e.caller).unrun
  finishes : ∀ k, .finish k ∈ s.ready ↔ ∃ e, s.call k = .ended e
  wakes : ∀ k, .wake k ∈ s.ready ↔ (s.caller k).woken
  absent : ∀ k, s.caller k = .absent ↔ s.count ≤ k

theorem scheduled_empty : Scheduled (empty : Desk ε) where
  nodup := List.nodup_nil
  runs e := by simp [empty, CallStage.unrun]
  finishes k := by simp [empty]
  wakes k := by simp [empty, CallerStage.woken]
  absent k := by simp [empty]

theorem nodup_snoc {l : List Job} {j : Job} (h : l.Nodup) (hj : j ∉ l) : (l ++ [j]).Nodup := by
  simpa [List.nodup_append, h] using fun i hi => ne_of_mem_of_not_mem hi hj

/-- The next call is made ready. -/
theorem Scheduled.dispatch (h : Scheduled s) (ho : Ordered s) : Scheduled s.dispatch := by
  rcases dispatch_cases s with ⟨he, -⟩ | ⟨e, rest, ha, hp, he⟩
  · rwa [he]
  · have hnew := ho.queued_of_pending hp
    have hrun x : Job.run x ∉ s.ready := by simp [h.runs, ha]
    rw [he]
    exact {
      nodup := nodup_snoc h.nodup (hrun e)
      runs := fun x => by
        simp only [List.mem_append, hrun, List.mem_singleton, false_or, Job.run.injEq]
        constructor
        · rintro rfl
          simp [CallStage.unrun]
        · exact fun hx => (Option.some.inj hx.1).symm
      finishes := fun k => by
        have hk := h.finishes k
        rcases eq_or_ne k e.caller with rfl | hne
        · simpa [hnew] using hk
        · simpa [hne] using hk
      wakes := by simpa using h.wakes
      absent := h.absent }

/-- A caller that is told is made ready. -/
theorem Scheduled.tell (h : Scheduled s) (k : Nat) (e : Ending ε) : Scheduled (s.tell k e) := by
  rcases tell_cases s k e with ⟨hk, hs⟩ | ⟨-, hs⟩ <;> rw [hs]
  · exact {
      nodup := nodup_snoc h.nodup (by simp [h.wakes, hk, CallerStage.woken])
      runs := by simpa using h.runs
      finishes := by simpa using h.finishes
      wakes := fun i => by
        have hi := h.wakes i
        rcases eq_or_ne i k with rfl | hne
        · simp [CallerStage.woken]
        · simpa [hne] using hi
      absent := fun i => by
        have hi := h.absent i
        rcases eq_or_ne i k with rfl | hne
        · simpa [hk] using hi
        · simpa [hne] using hi }
  · exact h

/-- A query is put. -/
theorem Scheduled.put (h : Scheduled s) (hl : Lined s) (q : Query) : Scheduled (s.put q) := by
  have hnew : s.caller s.count = .absent := (h.absent _).2 (Nat.le_refl _)
  refine Scheduled.dispatch (s := s.file q) ⟨h.nodup, h.runs, h.finishes, fun k => ?_, fun k => ?_⟩
    (hl.file q)
  · have hk := h.wakes k
    rcases eq_or_ne k s.count with rfl | hne
    · simpa [file, hnew, CallerStage.woken] using hk
    · simpa [file, hne] using hk
  · have hk := h.absent k
    rcases eq_or_ne k s.count with rfl | hne
    · simp [file]
    · simp [file, hne, hk]
      omega

/-- A call ends. -/
theorem Scheduled.callEnds (h : Scheduled s) (k : Nat) (e : Ending ε) :
    Scheduled (s.callEnds k e) := by
  rcases callEnds_cases s k e with ⟨hk, hs⟩ | ⟨hk, hs⟩ | hs <;> rw [hs]
  · exact {
      nodup := nodup_snoc h.nodup (by simp [h.finishes, hk])
      runs := fun x => by
        have hx := h.runs x
        rcases eq_or_ne x.caller k with rfl | hne
        · simpa [hk, CallStage.unrun] using hx
        · simpa [hne] using hx
      finishes := fun j => by
        have hj := h.finishes j
        rcases eq_or_ne j k with rfl | hne
        · simp
        · simpa [hne] using hj
      wakes := by simpa using h.wakes
      absent := h.absent }
  · exact {
      nodup := h.nodup
      runs := fun x => by
        have hx := h.runs x
        rcases eq_or_ne x.caller k with rfl | hne
        · simpa [hk, CallStage.unrun] using hx
        · simpa [hne] using hx
      finishes := fun j => by
        have hj := h.finishes j
        rcases eq_or_ne j k with rfl | hne
        · simpa [hk] using hj
        · simpa [hne] using hj
      wakes := h.wakes
      absent := h.absent }
  · exact h

/-- Where a caller is said to be woken makes no difference to calls. -/
theorem Scheduled.move_caller {c : CallerStage ε} {ready : List Job} {log : List (Event ε)}
    (h : Scheduled s) (hk : s.caller k ≠ .absent) (hc : c ≠ .absent) (hnodup : ready.Nodup)
    (hready : ∀ j, j ≠ .wake k → (j ∈ ready ↔ j ∈ s.ready)) (hwake : .wake k ∈ ready ↔ c.woken) :
    Scheduled { s with caller := Function.update s.caller k c, ready, log } where
  nodup := hnodup
  runs x := by simp [hready, h.runs]
  finishes j := by simp [hready, h.finishes]
  wakes j := by
    rcases eq_or_ne j k with rfl | hne
    · simpa using hwake
    · simp [hready, hne, h.wakes]
  absent j := by
    have hj := h.absent j
    rcases eq_or_ne j k with rfl | hne
    · simpa [hk, hc] using hj
    · simpa [hne] using hj

/-- A caller is cancelled. -/
theorem Scheduled.cancel (h : Scheduled s) (k : Nat) : Scheduled (s.cancel k) := by
  have hw := h.wakes k
  rcases cancel_cases s k with ⟨hk, hs⟩ | ⟨e, hk, hs⟩ | hs <;> rw [hs]
  · have hthere : s.caller k ≠ .absent := by rcases hk with hk | hk <;> simp [hk]
    have hnot : Job.wake k ∉ s.ready := by
      rcases hk with hk | hk <;> simp [hw, hk, CallerStage.woken]
    exact h.move_caller hthere nofun (nodup_snoc h.nodup hnot) (by simp +contextual)
      (by simp [CallerStage.woken])
  · exact h.move_caller (by simp [hk]) nofun h.nodup (by simp)
      (by simp [hw, hk, CallerStage.woken])
  · exact h

/-- A parse returns. -/
theorem Scheduled.parseEnds (h : Scheduled s) (k : Nat) (p : ParseEnd ε) :
    Scheduled (s.parseEnds k p) := by
  rcases parseEnds_cases s k p with ⟨hk, hs⟩ | ⟨-, hs⟩ <;> rw [hs]
  · exact h.move_caller (by simp [hk]) nofun h.nodup (by simp)
      (by simp [h.wakes, hk, CallerStage.woken])
  · exact h

/-! ## The oldest job -/

section Turn

variable {job : Job} {rest : List Job}

theorem Scheduled.pop (h : Scheduled s) (hr : s.ready = job :: rest) :
    rest.Nodup ∧ job ∉ rest ∧ ∀ j, j ≠ job → (j ∈ rest ↔ j ∈ s.ready) := by
  have hn := h.nodup
  rw [hr, List.nodup_cons] at hn
  exact ⟨hn.2, hn.1, fun j hj => by simp [hr, hj]⟩

/-- A call takes its first step. -/
theorem Scheduled.runCall {e : Entry Nat} (h : Scheduled s) (hr : s.ready = .run e :: rest) :
    Scheduled ({ s with ready := rest }.runCall e) := by
  obtain ⟨hnodup, hnot, hrest⟩ := h.pop hr
  obtain ⟨ha, hu⟩ := (h.runs e).1 (by simp [hr])
  -- The first step of the active call was the only one due.
  have hruns x : Job.run x ∉ rest := fun hx => by
    obtain rfl : e = x := Option.some.inj (ha.symm.trans
      ((h.runs x).1 (by rw [hr]; exact List.mem_cons_of_mem _ hx)).1)
    exact hnot hx
  rcases runCall_cases { s with ready := rest } e with ⟨hk, hs⟩ | ⟨hk, hs⟩ | ⟨hn, -⟩
  · rw [hs]
    replace hk : s.call e.caller = .created := hk
    exact {
      nodup := hnodup
      runs := fun x => by
        simp only [hruns, false_iff]
        rintro ⟨hx, hux⟩
        obtain rfl := Option.some.inj (ha.symm.trans hx)
        simp [CallStage.unrun] at hux
      finishes := fun j => by
        rcases eq_or_ne j e.caller with rfl | hne
        · simp [hrest, h.finishes, hk]
        · simp [hrest, h.finishes, hne]
      wakes := fun j => by simp [hrest, h.wakes]
      absent := h.absent }
  · rw [hs]
    replace hk : s.call e.caller = .givenUp := hk
    exact {
      nodup := nodup_snoc hnodup (by simp [hrest, h.finishes, hk])
      runs := fun x => by
        simp only [List.mem_append, hruns, List.mem_singleton, reduceCtorEq, or_self, false_iff]
        rintro ⟨hx, hux⟩
        obtain rfl := Option.some.inj (ha.symm.trans hx)
        simp [CallStage.unrun] at hux
      finishes := fun j => by
        rcases eq_or_ne j e.caller with rfl | hne
        · simp
        · simp [hrest, h.finishes, hne]
      wakes := fun j => by simp [hrest, h.wakes]
      absent := h.absent }
  · exact absurd hu (by simpa using hn)

/-- A call is completed. -/
theorem Scheduled.finish (h : Scheduled s) (hl : Lined s) (hr : s.ready = .finish k :: rest) :
    Scheduled ({ s with ready := rest }.finish k) := by
  obtain ⟨hnodup, hnot, hrest⟩ := h.pop hr
  obtain ⟨e, hk⟩ := (h.finishes k).1 (by simp [hr])
  rw [finish_eq (s := { s with ready := rest }) hk]
  refine (Scheduled.dispatch ?_ ((hl.with_ready rest).close hk)).tell k e
  exact {
    nodup := hnodup
    runs := fun x => by
      obtain ⟨a, ha, rfl⟩ := (hl.inHand k).1 (by simp [hk, CallStage.inHand])
      simp only [close, hrest _ (show Job.run x ≠ .finish a.caller by simp), h.runs, ha]
      simp only [reduceCtorEq, false_and, iff_false, not_and]
      intro hx
      obtain rfl := Option.some.inj hx
      simp [hk, CallStage.unrun]
    finishes := fun j => by
      rcases eq_or_ne j k with rfl | hne
      · simpa [close] using hnot
      · simp [close, hrest, h.finishes, hne]
    wakes := fun j => by simp [close, hrest, h.wakes]
    absent := h.absent }

/-- A caller takes its next step. -/
theorem Scheduled.wake (h : Scheduled s) (hr : s.ready = .wake k :: rest) :
    Scheduled ({ s with ready := rest }.wake maxLength k) := by
  obtain ⟨hnodup, hnot, hrest⟩ := h.pop hr
  have hw := (h.wakes k).1 (by simp [hr])
  have hk : s.caller k ≠ .absent := by
    intro hk
    simp [hk, CallerStage.woken] at hw
  have move {c : CallerStage ε} {log : List (Event ε)} (hc : c ≠ .absent) (hcw : c.woken = false) :
      Scheduled { s with caller := Function.update s.caller k c, ready := rest, log } :=
    h.move_caller hk hc hnodup hrest (by simp [hnot, hcw])
  rcases wake_cases { s with ready := rest } k maxLength with
    ⟨e, text, -, -, hs⟩ | ⟨e, -, -, hs⟩ | ⟨-, hs⟩ | ⟨hn, -⟩
  · exact hs ▸ move nofun rfl
  · exact hs ▸ move nofun rfl
  · exact hs ▸ move nofun rfl
  · exact absurd hw (by simpa using hn)

end Turn

/-- **What is due is ready**, whatever happens. -/
theorem Scheduled.step (h : Scheduled s) (hl : Lined s) (x : Happening ε) :
    Scheduled (s.step maxLength x) := by
  cases x with
  | put q => exact h.put hl q
  | callEnds k e => exact h.callEnds k e
  | cancel k => exact h.cancel k
  | parseEnds k p => exact h.parseEnds k p
  | turn =>
    rcases turn_cases s maxLength with ⟨-, hs⟩ | ⟨job, rest, hr, hs⟩ <;> rw [Desk.step, hs]
    · exact h
    · cases job with
      | run e => exact h.runCall hr
      | finish k => exact h.finish hl hr
      | wake k => exact h.wake hr

theorem scheduled_run (maxLength : Int) (xs : List (Happening ε)) : Scheduled (run maxLength xs) :=
  run_induction scheduled_empty (fun xs x h => h.step (lined_run maxLength xs) x) xs

/-! ## First steps -/

/-- The calls whose first step is due or done. -/
structure Reached (s : Desk ε) : Prop where
  inOrder : (s.log.filterMap Event.ask? ++ s.ready.filterMap Job.run?).Sublist
    (s.log.filterMap Event.start?)
  each : ∀ e ∈ s.log.filterMap Event.start?, (s.call e.caller).unrun ∨ .ask e ∈ s.log ∨
    .ended e.caller .cancelled ∈ s.log

theorem reached_empty : Reached (empty : Desk ε) where
  inOrder := List.Sublist.refl _
  each e he := by simp [empty] at he

/-- What starts nothing and asks nothing. -/
theorem Reached.extend {t : Desk ε} (xs : List (Event ε)) (h : Reached s)
    (hlog : t.log = s.log ++ xs) (hask : xs.filterMap Event.ask? = [])
    (hstart : xs.filterMap Event.start? = [])
    (hready : t.ready.filterMap Job.run? = s.ready.filterMap Job.run?)
    (hcall : ∀ k, (s.call k).unrun → (t.call k).unrun ∨ .ended k .cancelled ∈ xs) :
    Reached t where
  inOrder := by simpa [hlog, hask, hstart, hready] using h.inOrder
  each e he := by
    simp only [hlog, List.filterMap_append, hstart, List.append_nil] at he
    rcases h.each e he with hu | hdone
    · exact (hcall _ hu).imp id fun hx => .inr (hlog ▸ List.mem_append_right _ hx)
    · exact .inr (hlog ▸ hdone.imp (List.mem_append_left _) (List.mem_append_left _))

theorem Reached.dispatch (h : Reached s) : Reached s.dispatch := by
  rcases dispatch_cases s with ⟨he, -⟩ | ⟨e, rest, -, hp, he⟩ <;> rw [he]
  · exact h
  · refine ⟨?_, fun x hx => ?_⟩
    · simpa [List.filterMap_cons, ← List.append_assoc] using h.inOrder.append_right [e]
    · simp only [List.filterMap_append, List.mem_append] at hx
      rcases eq_or_ne x.caller e.caller with hxe | hne
      · exact .inl (by simp [hxe, CallStage.unrun])
      · have hold : x ∈ s.log.filterMap Event.start? :=
          hx.resolve_right fun hx => hne (by simp_all)
        rcases h.each x hold with hu | hdone
        · exact .inl (by simpa [hne] using hu)
        · exact .inr (hdone.imp (List.mem_append_left _) (List.mem_append_left _))

/-- Calls that started have different numbers. -/
theorem Ordered.eq_of_caller {x y : Entry Nat} (h : Ordered s)
    (hx : x ∈ s.log.filterMap Event.start?) (hy : y ∈ s.log.filterMap Event.start?)
    (he : x.caller = y.caller) : x = y :=
  List.inj_on_of_nodup_map (h.starts_numbered ▸ List.nodup_range) hx hy he

/-- A call takes its first step. -/
theorem Reached.runCall {y : Entry Nat} {rest : List Job} (h : Reached s) (hl : Lined s)
    (hd : Scheduled s) (hr : s.ready = .run y :: rest) :
    Reached ({ s with ready := rest }.runCall y) := by
  obtain ⟨ha, hu⟩ := (hd.runs y).1 (by simp [hr])
  have hy : y ∈ s.log.filterMap Event.start? := by
    obtain ⟨before, hb⟩ := hl.active y ha
    simp [hb]
  have horder := h.inOrder
  simp only [hr, List.filterMap_cons, Job.run?] at horder
  rcases runCall_cases { s with ready := rest } y with ⟨-, hs⟩ | ⟨-, hs⟩ | ⟨hn, -⟩
  · rw [hs]
    refine ⟨by simpa [List.filterMap_cons] using horder, fun x hx => ?_⟩
    replace hx : x ∈ s.log.filterMap Event.start? := by simpa [List.filterMap_cons] using hx
    rcases eq_or_ne x.caller y.caller with hxy | hne
    · obtain rfl := hl.eq_of_caller hx hy hxy
      exact .inr (.inl (by simp))
    · rcases h.each x hx with hu | hdone
      · exact .inl (by simpa [hne] using hu)
      · exact .inr (hdone.imp (List.mem_append_left _) (List.mem_append_left _))
  · rw [hs]
    refine ⟨?_, fun x hx => ?_⟩
    · have := ((List.sublist_cons_self y (rest.filterMap Job.run?)).append_left
        (s.log.filterMap Event.ask?)).trans horder
      simpa [List.filterMap_cons] using this
    · replace hx : x ∈ s.log.filterMap Event.start? := by simpa [List.filterMap_cons] using hx
      rcases eq_or_ne x.caller y.caller with hxy | hne
      · exact .inr (.inr (by simp [hxy]))
      · rcases h.each x hx with hu | hdone
        · exact .inl (by simpa [hne] using hu)
        · exact .inr (hdone.imp (List.mem_append_left _) (List.mem_append_left _))
  · exact absurd hu (by simpa using hn)

/-- A call ends. -/
theorem Reached.callEnds (h : Reached s) (k : Nat) (e : Ending ε) : Reached (s.callEnds k e) := by
  rcases callEnds_cases s k e with ⟨hk, hs⟩ | ⟨-, hs⟩ | hs <;> rw [hs]
  · refine h.extend [.ended k _] rfl rfl rfl (by simp [List.filterMap_cons]) fun j hj => .inl ?_
    have hne : j ≠ k := by
      rintro rfl
      simp [hk, CallStage.unrun] at hj
    simpa [hne] using hj
  · refine h.extend [] (by simp) rfl rfl rfl fun j hj => .inl ?_
    rcases eq_or_ne j k with rfl | hne
    · simp [CallStage.unrun]
    · simpa [hne] using hj
  · exact h

/-- A caller is cancelled. -/
theorem Reached.cancel (h : Reached s) (k : Nat) : Reached (s.cancel k) := by
  rcases cancel_cases s k with ⟨-, hs⟩ | ⟨e, -, hs⟩ | hs <;> rw [hs]
  · exact h.extend [.left k] rfl rfl rfl (by simp [List.filterMap_cons]) fun _ => .inl
  · exact h.extend [.left k] rfl rfl rfl rfl fun _ => .inl
  · exact h

/-- A parse returns. -/
theorem Reached.parseEnds (h : Reached s) (k : Nat) (p : ParseEnd ε) :
    Reached (s.parseEnds k p) := by
  rcases parseEnds_cases s k p with ⟨-, hs⟩ | ⟨-, hs⟩ <;> rw [hs]
  · exact h.extend [.parsed k p, .heard k (.done p.reply)] rfl rfl rfl rfl fun _ => .inl
  · exact h

/-- A caller takes its next step. -/
theorem Reached.wake (h : Reached s) (k : Nat) : Reached (s.wake maxLength k) := by
  rcases wake_cases s k maxLength with ⟨e, text, -, -, hs⟩ | ⟨e, -, -, hs⟩ | ⟨-, hs⟩ | ⟨-, hs⟩ <;>
    rw [hs]
  · exact h.extend [.heard k (.parse text)] rfl rfl rfl rfl fun _ => .inl
  · exact h.extend [.heard k (.done e.reply)] rfl rfl rfl rfl fun _ => .inl
  · exact h.extend [.gone k] rfl rfl rfl rfl fun _ => .inl
  · exact h

theorem Reached.tell (h : Reached s) (k : Nat) (e : Ending ε) : Reached (s.tell k e) := by
  rcases tell_cases s k e with ⟨-, hs⟩ | ⟨-, hs⟩ <;> rw [hs]
  · exact h.extend [] (by simp) rfl rfl (by simp [List.filterMap_cons]) fun _ => .inl
  · exact h

/-- A call is completed. -/
theorem Reached.finish (h : Reached s) (k : Nat) : Reached (s.finish k) := by
  cases hk : s.call k with
  | ended e =>
    rw [finish_eq hk]
    refine (Reached.dispatch ?_).tell k e
    refine h.extend [] (by simp [close]) rfl rfl rfl fun j hj => .inl ?_
    have hne : j ≠ k := by
      rintro rfl
      simp [hk, CallStage.unrun] at hj
    simpa [close, hne] using hj
  | _ => simpa [Desk.finish, hk] using h

theorem Reached.put (h : Reached s) (q : Query) : Reached (s.put q) :=
  Reached.dispatch (s := s.file q)
    (h.extend [.put ⟨s.count, q⟩] rfl rfl rfl rfl fun _ => .inl)

/-- **Calls take their first steps in order**, whatever happens. -/
theorem Reached.step (h : Reached s) (hl : Lined s) (hd : Scheduled s) (x : Happening ε) :
    Reached (s.step maxLength x) := by
  cases x with
  | put q => exact h.put q
  | callEnds k e => exact h.callEnds k e
  | cancel k => exact h.cancel k
  | parseEnds k p => exact h.parseEnds k p
  | turn =>
    rcases turn_cases s maxLength with ⟨-, hs⟩ | ⟨job, rest, hr, hs⟩ <;> rw [Desk.step, hs]
    · exact h
    · cases job with
      | run e => exact h.runCall hl hd hr
      | finish k =>
        refine Reached.finish ?_ k
        exact h.extend [] (by simp) rfl rfl (by simp [hr, List.filterMap_cons]) fun _ => .inl
      | wake k =>
        refine Reached.wake ?_ k
        exact h.extend [] (by simp) rfl rfl (by simp [hr, List.filterMap_cons]) fun _ => .inl

theorem reached_run (maxLength : Int) (xs : List (Happening ε)) : Reached (run maxLength xs) :=
  run_induction reached_empty
    (fun xs x h => h.step (lined_run maxLength xs) (scheduled_run maxLength xs) x) xs

end Desk

end Retype.Inference
