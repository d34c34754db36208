import Retype.Proofs.Inference.Due
/-!
# The callers

What a caller hears is decided by the ending of its own call alone: nothing
before the call is completed, then its answer to be parsed or its reply, and
the reply of the parse when that returns. A caller that was cancelled hears no
more.
-/

namespace Retype.Inference

variable {ε : Type} {maxLength : Int}

/-- The events of one caller. -/
def Event.ofCaller (k : Nat) : Event ε → Bool
  | .heard j _ | .parsed j _ | .left j | .gone j => j = k
  | _ => false

/-- It tells nothing about another caller. -/
theorem Event.silent_of_ofCaller {x : Event ε} {j k : Nat} (h : x.ofCaller k) (hj : j ≠ k) :
    x.heard? j = none ∧ x.parsed? j = none ∧ x.left? ≠ some j := by
  cases x with
  | put | start | ask | ended => cases h
  | heard i | parsed i | left i | gone i =>
    obtain rfl : i = k := of_decide_eq_true h
    simp [hj.symm]

/-- Completed. -/
def CallStage.isClosed : CallStage ε → Bool
  | closed _ => true
  | _ => false

/-- What a caller that was not cancelled has heard, and how its parse returned,
by where its call and it stand. -/
inductive Served (maxLength : Int) (c : CallStage ε) :
    CallerStage ε → List (Notice ε) → List (ParseEnd ε) → Prop
  | absent (hc : c.isClosed = false) : Served maxLength c .absent [] []
  | waiting (hc : c.isClosed = false) : Served maxLength c .waiting [] []
  | told (e : Ending ε) (hc : c = .closed e) : Served maxLength c (.told e) [] []
  | parsing (e : Ending ε) (text : String) (hc : c = .closed e)
      (ht : textToParse maxLength e.callEnd = some text) :
      Served maxLength c .parsing [.parse text] []
  | handed (e : Ending ε) (hc : c = .closed e) (ht : textToParse maxLength e.callEnd = none) :
      Served maxLength c .gone [.done e.reply] []
  | parsed (e : Ending ε) (text : String) (p : ParseEnd ε) (hc : c = .closed e)
      (ht : textToParse maxLength e.callEnd = some text) :
      Served maxLength c .gone [.parse text, .done p.reply] [p]

namespace Served

variable {c c' : CallStage ε} {r : CallerStage ε} {e : Ending ε} {ns : List (Notice ε)}
  {ps : List (ParseEnd ε)}

/-- A caller has no part in what its call does before it is completed. -/
theorem congr (h : Served maxLength c r ns ps) (hc : c.isClosed = false)
    (hc' : c'.isClosed = false) : Served maxLength c' r ns ps := by
  cases h with
  | absent => exact .absent hc'
  | waiting => exact .waiting hc'
  | told e he | parsing e _ he _ | handed e he _ | parsed e _ _ he _ =>
    simp [he, CallStage.isClosed] at hc

/-- A caller arrives. -/
theorem arrive (h : Served maxLength c .absent ns ps) : Served maxLength c .waiting ns ps := by
  cases h with
  | absent hc => exact .waiting hc

/-- A caller is told. -/
theorem tell (h : Served maxLength c .waiting ns ps) (e : Ending ε) :
    Served maxLength (.closed e) (.told e) ns ps := by
  cases h with
  | waiting => exact .told e rfl

/-- A caller has its answer parsed. -/
theorem parse (h : Served maxLength c (.told e) ns ps) {text : String}
    (ht : textToParse maxLength e.callEnd = some text) :
    Served maxLength c .parsing (ns ++ [.parse text]) ps := by
  cases h with
  | told _ hc => exact .parsing e text hc ht

/-- A caller is handed what needs no parsing. -/
theorem hand (h : Served maxLength c (.told e) ns ps)
    (ht : textToParse maxLength e.callEnd = none) :
    Served maxLength c .gone (ns ++ [.done e.reply]) ps := by
  cases h with
  | told _ hc => exact .handed e hc ht

/-- A caller is handed what its parse returned. -/
theorem parseEnds (h : Served maxLength c .parsing ns ps) (p : ParseEnd ε) :
    Served maxLength c .gone (ns ++ [.done p.reply]) (ps ++ [p]) := by
  cases h with
  | parsing e text hc ht => exact .parsed e text p hc ht

/-- Before its call is completed, a caller that is there waits. -/
theorem waits (h : Served maxLength c r ns ps) (hc : c.isClosed = false) (hr : r ≠ .absent) :
    r = .waiting := by
  cases h with
  | absent => exact absurd rfl hr
  | waiting => rfl
  | told e he | parsing e _ he _ | handed e he _ | parsed e _ _ he _ =>
    simp [he, CallStage.isClosed] at hc

/-- A caller that does not wait any more has a completed call. -/
theorem closed (h : Served maxLength c r ns ps) (ha : r ≠ .absent) (hw : r ≠ .waiting) :
    ∃ e, c = .closed e := by
  cases h with
  | absent => exact absurd rfl ha
  | waiting => exact absurd rfl hw
  | told e he | parsing e _ he _ | handed e he _ | parsed e _ _ he _ => exact ⟨e, he⟩

end Served

namespace Desk

variable {s t : Desk ε} {k : Nat}

/-- The callers of a desk. -/
structure Tended (maxLength : Int) (s : Desk ε) : Prop where
  served : ∀ k, k ∉ s.log.filterMap Event.left? →
    Served maxLength (s.call k) (s.caller k) (s.log.filterMap (Event.heard? k))
      (s.log.filterMap (Event.parsed? k))
  departed : ∀ k, k ∈ s.log.filterMap Event.left? →
    s.caller k = .leaving ∨ s.caller k = .gone

theorem tended_empty : Tended maxLength (empty : Desk ε) where
  served k _ := .absent rfl
  departed k hk := by simp [empty] at hk

/-- Only cancelled callers are leaving. -/
theorem Tended.of_leaving (h : Tended maxLength s) (hk : s.caller k = .leaving) :
    k ∈ s.log.filterMap Event.left? := by
  by_contra hn
  have := h.served k hn
  rw [hk] at this
  cases this

/-- What calls do before they are completed is nothing to the callers. -/
theorem Tended.of_calls_move (xs : List (Event ε)) (h : Tended maxLength s)
    (hcaller : t.caller = s.caller) (hlog : t.log = s.log ++ xs)
    (hxs : ∀ x ∈ xs, x.ofCall)
    (hcall : ∀ k, t.call k = s.call k ∨ (s.call k).isClosed = false ∧ (t.call k).isClosed = false) :
    Tended maxLength t := by
  have keep {β : Type} (r : Event ε → Option β) (hr : ∀ x, x.ofCall → r x = none) :
      t.log.filterMap r = s.log.filterMap r := by
    simp only [hlog, List.filterMap_append, List.append_right_eq_self,
      List.filterMap_eq_nil_iff]
    exact fun x hx => hr x (hxs x hx)
  have hleft : t.log.filterMap Event.left? = s.log.filterMap Event.left? :=
    keep _ (by rintro (_ | _) <;> simp [Event.ofCall])
  refine ⟨fun k hk => ?_, fun k hk => ?_⟩
  · rw [hleft] at hk
    have hs := h.served k hk
    rw [hcaller, keep (Event.heard? k) (by rintro (_ | _) <;> simp [Event.ofCall]),
      keep (Event.parsed? k) (by rintro (_ | _) <;> simp [Event.ofCall])]
    rcases hcall k with he | ⟨ho, ho'⟩
    · rwa [he]
    · exact hs.congr ho ho'
  · rw [hleft] at hk
    rw [hcaller]
    exact h.departed k hk

/-- A caller moves on, and nobody else. -/
theorem Tended.move_caller {c : CallerStage ε} {ready : List Job} {xs : List (Event ε)}
    (h : Tended maxLength s) (hxs : ∀ x ∈ xs, x.ofCaller k)
    (hserved : k ∉ s.log.filterMap Event.left? → k ∉ xs.filterMap Event.left? →
      Served maxLength (s.call k) c
        (s.log.filterMap (Event.heard? k) ++ xs.filterMap (Event.heard? k))
        (s.log.filterMap (Event.parsed? k) ++ xs.filterMap (Event.parsed? k)))
    (hdeparted : k ∈ s.log.filterMap Event.left? ∨ k ∈ xs.filterMap Event.left? →
      c = .leaving ∨ c = .gone) :
    Tended maxLength { s with
      caller := Function.update s.caller k c
      ready
      log := s.log ++ xs } := by
  have silent {j : Nat} (hj : j ≠ k) : xs.filterMap (Event.heard? j) = [] ∧
      xs.filterMap (Event.parsed? j) = [] ∧ j ∉ xs.filterMap Event.left? := by
    have hs (x) (hx : x ∈ xs) := Event.silent_of_ofCaller (hxs x hx) hj
    refine ⟨List.filterMap_eq_nil_iff.2 fun x hx => (hs x hx).1,
      List.filterMap_eq_nil_iff.2 fun x hx => (hs x hx).2.1, fun hm => ?_⟩
    obtain ⟨x, hx, hl⟩ := List.mem_filterMap.1 hm
    exact (hs x hx).2.2 hl
  refine ⟨fun j hj => ?_, fun j hj => ?_⟩
  · simp only [List.filterMap_append, List.mem_append, not_or] at hj ⊢
    rcases eq_or_ne j k with rfl | hne
    · simpa using hserved hj.1 hj.2
    · simpa [hne, (silent hne).1, (silent hne).2.1] using h.served j hj.1
  · simp only [List.filterMap_append, List.mem_append] at hj
    rcases eq_or_ne j k with rfl | hne
    · simpa using hdeparted hj
    · simpa [hne] using h.departed j (hj.resolve_right (silent hne).2.2)

/-! ## One step -/

theorem Tended.dispatch (h : Tended maxLength s) (ho : Ordered s) :
    Tended maxLength s.dispatch := by
  rcases dispatch_cases s with ⟨he, -⟩ | ⟨e, rest, -, hp, he⟩
  · rwa [he]
  · rw [he]
    refine h.of_calls_move [.start e] rfl rfl (by simp [Event.ofCall]) fun k => ?_
    rcases eq_or_ne k e.caller with rfl | hne
    · exact .inr (by simp [ho.queued_of_pending hp, CallStage.isClosed])
    · exact .inl (by simp [hne])

/-- A query is put. -/
theorem Tended.put (h : Tended maxLength s) (hl : Lined s) (hd : Scheduled s) (q : Query) :
    Tended maxLength (s.put q) := by
  have hnew : s.caller s.count = .absent := (hd.absent _).2 (Nat.le_refl _)
  refine Tended.dispatch (s := s.file q) ⟨fun k hk => ?_, fun k hk => ?_⟩ (hl.file q)
  · simp only [file, List.filterMap_append, List.filterMap_cons, List.filterMap_nil,
      Event.left?, Event.heard?, Event.parsed?, List.append_nil] at hk ⊢
    have hs := h.served k hk
    rcases eq_or_ne k s.count with rfl | hne
    · rw [hnew] at hs
      simpa using hs.arrive
    · simpa [hne] using hs
  · simp only [file, List.filterMap_append, List.filterMap_cons, List.filterMap_nil,
      Event.left?, List.append_nil] at hk ⊢
    have hs := h.departed k hk
    rcases eq_or_ne k s.count with rfl | hne
    · simp [hnew] at hs
    · simpa [hne] using hs

/-- A call moves on before it is completed. -/
theorem Tended.move_call {c : CallStage ε} (ready : List Job) (xs : List (Event ε))
    (h : Tended maxLength s) (hk : (s.call k).isClosed = false) (hc : c.isClosed = false)
    (hxs : ∀ x ∈ xs, x.ofCall) :
    Tended maxLength { s with
      call := Function.update s.call k c
      ready
      log := s.log ++ xs } :=
  h.of_calls_move xs rfl rfl hxs fun j => by
    rcases eq_or_ne j k with rfl | hne
    · exact .inr (by simp [hk, hc])
    · exact .inl (by simp [hne])

/-- A call ends. -/
theorem Tended.callEnds (h : Tended maxLength s) (k : Nat) (e : Ending ε) :
    Tended maxLength (s.callEnds k e) := by
  rcases callEnds_cases s k e with ⟨hk, hs⟩ | ⟨hk, hs⟩ | hs <;> rw [hs]
  · exact h.move_call _ _ (by simp [hk, CallStage.isClosed]) rfl (by simp [Event.ofCall])
  · simpa using h.move_call (c := .givenUp) s.ready []
      (by simp [hk, CallStage.isClosed]) rfl (by simp)
  · exact h

/-- A call takes its first step. -/
theorem Tended.runCall (h : Tended maxLength s) (e : Entry Nat) :
    Tended maxLength (s.runCall e) := by
  rcases runCall_cases s e with ⟨hk, hs⟩ | ⟨hk, hs⟩ | ⟨-, hs⟩ <;> rw [hs]
  · exact h.move_call _ _ (by simp [hk, CallStage.isClosed]) rfl (by simp [Event.ofCall])
  · exact h.move_call _ _ (by simp [hk, CallStage.isClosed]) rfl (by simp [Event.ofCall])
  · exact h

theorem tell_call (s : Desk ε) (k : Nat) (e : Ending ε) : (s.tell k e).call = s.call := by
  rcases tell_cases s k e with ⟨-, hs⟩ | ⟨-, hs⟩ <;> rw [hs]

theorem tell_log (s : Desk ε) (k : Nat) (e : Ending ε) : (s.tell k e).log = s.log := by
  rcases tell_cases s k e with ⟨-, hs⟩ | ⟨-, hs⟩ <;> rw [hs]

theorem dispatch_caller (s : Desk ε) : s.dispatch.caller = s.caller := by
  rcases dispatch_cases s with ⟨he, -⟩ | ⟨e, rest, -, -, he⟩ <;> rw [he]

/-- Who is told does not depend on what is started before. -/
theorem dispatch_tell_caller (s : Desk ε) (k : Nat) (e : Ending ε) :
    (s.dispatch.tell k e).caller = (s.tell k e).caller := by
  simp only [tell, dispatch_caller]
  split <;> simp [dispatch_caller]

/-- A call is closed and its caller told. -/
theorem Tended.close {e : Ending ε} (h : Tended maxLength s) (hk : s.call k = .ended e)
    (hpresent : s.caller k ≠ .absent) : Tended maxLength ((s.close k e).tell k e) := by
  rcases tell_cases (s.close k e) k e with ⟨hw, htell⟩ | ⟨hw, htell⟩ <;> rw [htell]
  · replace hw : s.caller k = .waiting := hw
    have hstay : k ∉ s.log.filterMap Event.left? := fun hm => by
      simpa [hw] using h.departed k hm
    refine ⟨fun j hj => ?_, fun j hj => ?_⟩
    · rcases eq_or_ne j k with rfl | hne
      · simpa [Desk.close] using (hw ▸ h.served j hj).tell e
      · simpa [Desk.close, hne] using h.served j hj
    · have hne : j ≠ k := ne_of_mem_of_not_mem hj hstay
      simpa [Desk.close, hne] using h.departed j hj
  · refine ⟨fun j hj => ?_, h.departed⟩
    have hs := h.served j hj
    rcases eq_or_ne j k with rfl | hne
    · exact absurd (hs.waits (by simp [hk, CallStage.isClosed]) hpresent) hw
    · simpa [Desk.close, hne] using hs

/-- The caller of the active call is there. -/
theorem Lined.present {a : Entry Nat} (hl : Lined s) (ha : s.queue.active = some a)
    (hak : a.caller = k) (habsent : ∀ k, s.caller k = .absent ↔ s.count ≤ k) :
    s.caller k ≠ .absent := by
  have := hl.active_number ha
  have := hl.length_add
  rw [Ne, habsent]
  omega

/-- A call is completed. -/
theorem Tended.finish (h : Tended maxLength s) (hl : Lined s)
    (ha : ∀ k, s.caller k = .absent ↔ s.count ≤ k) (k : Nat) : Tended maxLength (s.finish k) := by
  cases hk : s.call k with
  | ended e =>
    have hpresent : s.caller k ≠ .absent := by
      obtain ⟨a, hactive, hak⟩ := (hl.inHand k).1 (by simp [hk, CallStage.inHand])
      exact hl.present hactive hak ha
    have ht := h.close hk hpresent
    rw [finish_eq hk]
    rcases dispatch_cases (s.close k e) with ⟨he, -⟩ | ⟨x, rest, -, hp, he⟩
    · rwa [he]
    · refine ht.of_calls_move [.start x] (dispatch_tell_caller _ k e)
        (by rw [tell_log, tell_log, he]) (by simp [Event.ofCall]) fun j => ?_
      rw [tell_call, tell_call, he]
      rcases eq_or_ne j x.caller with rfl | hne
      · exact .inr (by simp [(hl.close hk).queued_of_pending hp, CallStage.isClosed])
      · exact .inl (by simp [hne])
  | _ => simpa [Desk.finish, hk] using h

/-- A caller is cancelled. -/
theorem Tended.cancel (h : Tended maxLength s) (k : Nat) : Tended maxLength (s.cancel k) := by
  have leave (ready : List Job) : Tended maxLength { s with
      caller := Function.update s.caller k .leaving, ready, log := s.log ++ [.left k] } :=
    h.move_caller (by simp [Event.ofCaller]) (fun _ hk => by simp at hk)
      (fun _ => .inl rfl)
  rcases cancel_cases s k with ⟨-, hs⟩ | ⟨e, -, hs⟩ | hs <;> rw [hs]
  · exact leave _
  · exact leave _
  · exact h

/-- A parse returns. -/
theorem Tended.parseEnds (h : Tended maxLength s) (k : Nat) (p : ParseEnd ε) :
    Tended maxLength (s.parseEnds k p) := by
  rcases parseEnds_cases s k p with ⟨hk, hs⟩ | ⟨-, hs⟩ <;> rw [hs]
  · exact h.move_caller (by simp [Event.ofCaller])
      (fun hj _ => by simpa [List.filterMap_cons] using (hk ▸ h.served k hj).parseEnds p)
      (fun _ => .inr rfl)
  · exact h

/-- A caller takes its next step. -/
theorem Tended.wake (h : Tended maxLength s) (k : Nat) : Tended maxLength (s.wake maxLength k) := by
  rcases wake_cases s k maxLength with
    ⟨e, text, hk, ht, hs⟩ | ⟨e, hk, ht, hs⟩ | ⟨hk, hs⟩ | ⟨-, hs⟩ <;> rw [hs]
  · refine h.move_caller (by simp [Event.ofCaller])
      (fun hj _ => by simpa [List.filterMap_cons] using (hk ▸ h.served k hj).parse ht)
      (fun hj => ?_)
    have hdep := h.departed k (hj.resolve_right (by simp))
    simp [hk] at hdep
  · exact h.move_caller (by simp [Event.ofCaller])
      (fun hj _ => by simpa [List.filterMap_cons] using (hk ▸ h.served k hj).hand ht)
      (fun hj => .inr rfl)
  · exact h.move_caller (by simp [Event.ofCaller]) (fun hj _ => absurd (h.of_leaving hk) hj)
      (fun _ => .inr rfl)
  · exact h

/-- **Every caller is served by its own call**, whatever happens. -/
theorem Tended.step (h : Tended maxLength s) (hl : Lined s) (hd : Scheduled s)
    (x : Happening ε) : Tended maxLength (s.step maxLength x) := by
  cases x with
  | put q => exact h.put hl hd q
  | callEnds k e => exact h.callEnds k e
  | cancel k => exact h.cancel k
  | parseEnds k p => exact h.parseEnds k p
  | turn =>
    rcases turn_cases s maxLength with ⟨-, hs⟩ | ⟨job, rest, -, hs⟩ <;> rw [Desk.step, hs]
    · exact h
    · have hpop : Tended maxLength { s with ready := rest } := ⟨h.served, h.departed⟩
      cases job with
      | run e => exact hpop.runCall e
      | finish k => exact hpop.finish (hl.with_ready rest) hd.absent k
      | wake k => exact hpop.wake k

theorem tended_run (maxLength : Int) (xs : List (Happening ε)) :
    Tended maxLength (run maxLength xs) :=
  run_induction tended_empty
    (fun xs x h => h.step (lined_run maxLength xs) (scheduled_run maxLength xs) x) xs

end Desk

end Retype.Inference
