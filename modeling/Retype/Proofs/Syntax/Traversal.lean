import Retype.Proofs.Migration.Importing
import Retype.Proofs.Syntax.Calls
/-!
# The law of a traversal

A walk with handlers that may replace nodes ends, and its calls are those of a
depth-first traversal of the tree that it leaves (`traversal_law`), although
the tree changes under it: while the children of a node are walked, the node
`Advance`s, one child after the other, and keeps its kind and its keys.

The walk of a node is lawful wherever it stands if the walks of the children
are of what stands there after its call on the way down (`walks_of_stands`).
That is first said of trees in which nothing is replaced, and then of trees in
which something is, since nothing is replaced below what has replaced a node.
-/

namespace Retype.Syntax

open Migration (entriesOf)

variable {σ α β : Type}

/-! ## Computations that end -/

/-- With enough fuel a computation ends, and always in the same way. -/
def Ends {τ : Type} (x : Nat → StateM τ α) (t : τ) (ran : α × τ) : Prop :=
  ∃ bound, ∀ fuel, bound ≤ fuel → (x fuel).run t = ran

/-- A walk that ends and goes on with one that ends does end. -/
theorem Ends.bind {τ : Type} {x : Nat → StateM τ α} {f : Nat → α → StateM τ β} {t : τ} {ran : α × τ}
    {ran' : β × τ} (hx : Ends x t ran) (hf : Ends (fun fuel => f fuel ran.1) ran.2 ran') :
    Ends (fun fuel => x fuel >>= f fuel) t ran' := by
  obtain ⟨bound, hx⟩ := hx
  obtain ⟨bound', hf⟩ := hf
  refine ⟨max bound bound', fun fuel hfuel => ?_⟩
  rw [StateT.run_bind, hx fuel (le_trans (le_max_left _ _) hfuel)]
  exact hf fuel (le_trans (le_max_right _ _) hfuel)

/-- From every state, and whatever has been recorded before, a computation ends;
its value and the calls on the way are in a relation. -/
def Runs (x : Nat → StateM (σ × List Call) α) (P : α → List Call → Prop) : Prop :=
  ∀ s, ∃ a s' calls, (∀ before, Ends x (s, before) (a, s', before ++ calls)) ∧ P a calls

namespace Runs

variable {x : Nat → StateM (σ × List Call) α} {P : α → List Call → Prop}

/-- A value returned makes no call. -/
theorem pure {a : α} (h : P a []) : Runs (fun _ => (Pure.pure a : StateM (σ × List Call) α)) P :=
  fun s => ⟨a, s, [], fun before => ⟨0, fun _ _ => by rw [List.append_nil]; rfl⟩, h⟩

/-- The calls of two steps stand one after the other. -/
theorem bind {f : Nat → α → StateM (σ × List Call) β} {Q : β → List Call → Prop} (hx : Runs x P)
    (hf : ∀ a calls, P a calls →
      Runs (fun fuel => f fuel a) fun b calls' => Q b (calls ++ calls')) :
    Runs (fun fuel => x fuel >>= f fuel) Q := fun s => by
  obtain ⟨a, s', calls, hends, hP⟩ := hx s
  obtain ⟨b, s'', calls', hends', hQ⟩ := hf a calls hP s'
  refine ⟨b, s'', calls ++ calls', fun before => ?_, hQ⟩
  rw [← List.append_assoc]
  exact (hends before).bind (hends' _)

/-- A weaker relation to the calls holds too. -/
theorem mono {Q : α → List Call → Prop} (h : Runs x P) (hPQ : ∀ a calls, P a calls → Q a calls) :
    Runs x Q := fun s => by
  obtain ⟨a, s', calls, hends, hP⟩ := h s
  exact ⟨a, s', calls, hends, hPQ _ _ hP⟩

/-- Fuel for one step more does no harm. -/
theorem of_succ (h : Runs (fun fuel => x (fuel + 1)) P) : Runs x P := fun s => by
  obtain ⟨a, s', calls, hends, hP⟩ := h s
  refine ⟨a, s', calls, fun before => ?_, hP⟩
  obtain ⟨bound, hrun⟩ := hends before
  refine ⟨bound + 1, fun fuel hfuel => ?_⟩
  cases fuel with
  | zero => omega
  | succ fuel => exact hrun fuel (by omega)

/-- A visit is one call, and its node is one the handler gives. -/
theorem visit (h : Handlers σ) (place : Place) (node : Json) :
    Runs (fun _ => h.recorded.visit place node) fun new calls =>
      (∃ s, ((h.visit place node).run s).1 = new) ∧ calls = [.visit place node new] := fun s =>
  ⟨_, _, _, fun _ => ⟨0, fun _ _ => rfl⟩, ⟨s, rfl⟩, rfl⟩

/-- Leaving is one call. -/
theorem leave (h : Handlers σ) (place : Place) (node : Json) :
    Runs (fun _ => h.recorded.leave place node) fun _ calls => calls = [.leave place node] :=
  fun _ => ⟨_, _, _, fun _ => ⟨0, fun _ _ => rfl⟩, rfl⟩

end Runs

/-- A walk runs, what it leaves is in a relation to the calls on the way, and no
fields are given to the parent. -/
def Carries (x : Nat → StateM (σ × List Call) (Walked α)) (P : α → List Call → Prop) : Prop :=
  Runs x fun w calls => w.parentFields = [] ∧ P w.present calls

namespace Carries

variable {x : Nat → StateM (σ × List Call) (Walked α)} {P : α → List Call → Prop}

/-- A value returned without fields for the parent is carried. -/
theorem pure {w : Walked α} (hw : w.parentFields = []) (h : P w.present []) :
    Carries (fun _ => (Pure.pure w : StateM (σ × List Call) (Walked α))) P := Runs.pure ⟨hw, h⟩

/-- Steps that carry nothing to the parent do so one after the other. -/
theorem bind {f : Nat → Walked α → StateM (σ × List Call) (Walked β)} {Q : β → List Call → Prop}
    (hx : Carries x P)
    (hf : ∀ w calls, w.parentFields = [] → P w.present calls →
      Carries (fun fuel => f fuel w) fun b calls' => Q b (calls ++ calls')) :
    Carries (fun fuel => x fuel >>= f fuel) Q := Runs.bind hx fun w calls hw => hf w calls hw.1 hw.2

/-- A weaker relation to the calls is carried too. -/
theorem mono {Q : α → List Call → Prop} (h : Carries x P) (hPQ : ∀ a calls, P a calls → Q a calls) :
    Carries x Q := Runs.mono h fun _ _ hw => ⟨hw.1, hPQ _ _ hw.2⟩

end Carries

namespace Walked

variable {done : Walked (List α)} {w : Walked α}

/-- An item done stands before those to come. -/
theorem snoc_append (done : Walked (List α)) (w : Walked α) (rest : List α) :
    (done.snoc w).present ++ rest = done.present ++ w.present :: rest := by
  simp [snoc]

/-- A walked value is put back under its key. -/
theorem present_under (w : Walked α) (key : String) :
    (w.under key).present = (key, w.present) := rfl

/-- An item done is one more. -/
theorem length_snoc (done : Walked (List α)) (w : Walked α) :
    (done.snoc w).present.length = done.present.length + 1 := by
  simp [snoc]

/-- Nothing is given to the parent while no item gives anything. -/
theorem parentFields_snoc (hdone : done.parentFields = []) (hw : w.parentFields = []) :
    (done.snoc w).parentFields = [] := by
  rw [snoc, hdone, hw]
  rfl

end Walked

/-! ## Children -/

variable {h : Handlers σ} {up : Place} {kind key : String} {n n' n'' : Json}
  {calls calls' : List Call} {cs cs' : List (Slot × Json)}

/-- While calls are made, the node at a place becomes another one, and some
children are done, which now are regular trees. -/
structure Advance (up : Place) (kind : String) (n : Json) (calls : List Call) (n' : Json)
    (cs : List (Slot × Json)) : Prop where
  passage : Passage (up.whole n) calls (up.whole n')
    (listingBelow List.cons up.address kind cs)
    (listingBelow (fun own below => below ++ [own]) up.address kind cs)
  regular : ∀ c ∈ cs, c.1.key ≠ "type" ∧ AllNodes Regular c.2

namespace Advance

/-- No child done is no advance. -/
theorem nil (up : Place) (kind : String) (n : Json) : Advance up kind n [] n [] :=
  ⟨.nil _, List.forall_mem_nil _⟩

/-- One advance after another is an advance. -/
theorem append (h : Advance up kind n calls n' cs) (h' : Advance up kind n' calls' n'' cs') :
    Advance up kind n (calls ++ calls') n'' (cs ++ cs') where
  passage := by
    rw [listingBelow_append, listingBelow_append]
    exact h.passage.append h'.passage
  regular := List.forall_mem_append.2 ⟨h.regular, h'.regular⟩

end Advance

/-- The law for one node at a place and what has become of it. -/
structure Lawful (place : Place) (n n' : Json) (calls : List Call) : Prop where
  isNode : n'.isNode = true
  regular : AllNodes Regular n'
  passage : Passage (place.whole n) calls (place.whole n')
    (preorder place.address (place.parentKind? n') n')
    (postorder place.address (place.parentKind? n') n')

/-- Wherever a node stands, its walk ends and is lawful. -/
def Walks (h : Handlers σ) (n : Json) : Prop :=
  ∀ place : Place, place.Fits →
    Carries (fun fuel => walk h.recorded.visitor fuel place n) (Lawful place n)

/-- A child that is done. -/
theorem Lawful.advance {f : Frame} {child child' : Json} (hf : f.Fits)
    (h : Lawful (f :: up) child child' calls) :
    Advance up (f.fill child').kind (f.fill child) calls (f.fill child') [(f.slot, child')] where
  passage := by
    rw [listingBelow_singleton, listingBelow_singleton]
    exact h.passage
  regular := List.forall_mem_singleton.2 ⟨hf.kind, h.regular⟩

/-- Children of which the walk ends, none of them in the kind. -/
def Ready (h : Handlers σ) (cs : List (Slot × Json)) : Prop :=
  ∀ c ∈ cs, c.1.key ≠ "type" ∧ Walks h c.2

variable {before after entries : Entries}

/-- **The walk of a list's children is an advance.** -/
theorem walkItems_carries (hup : up.Fits) (hkey : key ∉ before.map (·.1)) (htype : key ≠ "type")
    (hkind : ∀ v, (Json.obj (before ++ (key, v) :: after)).kind = kind) {items : List Json}
    (left : Walked (List Json)) (hleft : left.parentFields = [])
    (hready : Ready h (childrenIn key left.present.length items)) :
    Carries (fun fuel => walkItems (walk h.recorded.visitor fuel)
        (fun left right => ⟨before, key, some (left, right), after⟩) up left items)
      fun items' calls => ∃ present, items' = left.present ++ present ∧
        Advance up kind (.obj (before ++ (key, .arr (left.present ++ items)) :: after)) calls
          (.obj (before ++ (key, .arr items') :: after))
          (childrenIn key left.present.length present) := by
  induction items generalizing left with
  | nil => exact .pure hleft ⟨[], (List.append_nil _).symm, by rw [List.append_nil]; exact .nil ..⟩
  | cons item rest ih =>
    simp only [walkItems]
    rw [childrenIn] at hready
    obtain ⟨hitem, hrest⟩ := List.forall_mem_append.1 hready
    have hnext (w : Walked Json) (hw : w.parentFields = []) :=
      ih (left.snoc w) (Walked.parentFields_snoc hleft hw) (by rwa [Walked.length_snoc])
    simp only [Walked.snoc_append, Walked.length_snoc] at hnext
    cases hnode : item.isNode with
    | false =>
      simp only [Bool.false_eq_true, if_false, pure_bind]
      refine (hnext (Walked.same item) rfl).mono fun items' calls hdone => ?_
      obtain ⟨present, hitems', hadvance⟩ := hdone
      refine ⟨item :: present, hitems', ?_⟩
      rw [childrenIn, hnode]
      exact hadvance
    | true =>
      simp only [if_true]
      rw [hnode] at hitem
      obtain ⟨-, hwalks⟩ := hitem _ (List.mem_singleton_self _)
      have hfits : Frame.Fits ⟨before, key, some (left.present, rest), after⟩ := ⟨hkey, htype⟩
      refine .bind (hwalks _ (hup.cons hfits)) fun w calls hfields hlawful => ?_
      refine (hnext w hfields).mono fun items' calls' hdone => ?_
      obtain ⟨present, hitems', hadvance⟩ := hdone
      refine ⟨w.present :: present, hitems', ?_⟩
      rw [childrenIn, hlawful.isNode]
      have hchild := hlawful.advance hfits
      rw [Frame.fill, hkind] at hchild
      exact hchild.append hadvance

/-- So is the walk of an entry. -/
theorem walkEntry_carries (hup : up.Fits) (hkey : key ∉ before.map (·.1)) (htype : key ≠ "type")
    (hkind : ∀ v, (Json.obj (before ++ (key, v) :: after)).kind = kind) {value : Json}
    (hsome : childrenUnder key value ≠ []) (hready : Ready h (childrenUnder key value)) :
    Carries (fun fuel => walkEntry (walk h.recorded.visitor fuel) up before key after value)
      fun v calls => Advance up kind (.obj (before ++ (key, value) :: after)) calls
        (.obj (before ++ (key, v) :: after)) (childrenUnder key v) := by
  cases hnode : value.isNode with
  | true =>
    rw [childrenUnder_of_isNode hnode] at hready
    obtain ⟨-, hwalks⟩ := hready _ (List.mem_singleton_self _)
    have hfits : Frame.Fits ⟨before, key, none, after⟩ := ⟨hkey, htype⟩
    simp only [walkEntry_of_isNode hnode]
    refine (hwalks _ (hup.cons hfits)).mono fun v calls hlawful => ?_
    rw [childrenUnder_of_isNode hlawful.isNode]
    have hchild := hlawful.advance hfits
    rw [Frame.fill, hkind] at hchild
    exact hchild
  | false =>
    cases value with
    | arr items =>
      simp only [walkEntry]
      refine .bind (walkItems_carries hup hkey htype hkind (Walked.same []) rfl hready)
        fun w calls hfields hdone => .pure hfields ?_
      obtain ⟨present, hpresent, hadvance⟩ := hdone
      rw [Walked.same, List.nil_append] at hpresent
      rw [List.append_nil, Walked.array, hpresent]
      rw [hpresent] at hadvance
      exact hadvance
    | _ => exact absurd (childrenUnder_eq_nil_iff.2 (Migration.nodes_of_not_isNode hnode rfl)) hsome

/-- Behind entries that are done, more become others with the same keys, and their children are
done. -/
def Advances (up : Place) (kind : String) (done rest l : Entries) (calls : List Call) : Prop :=
  (Json.obj l).kind = kind ∧ ∃ present, l = done ++ present ∧ present.map (·.1) = rest.map (·.1) ∧
    Advance up kind (.obj (done ++ rest)) calls (.obj l) (childrenAmong present)

/-- One entry more, in front. -/
theorem Advance.cons {done : Walked Entries} {value : Json} {w : Walked Json} {rest l : Entries}
    (hentry : Advance up kind (.obj (done.present ++ (key, value) :: rest)) calls
      (.obj (done.present ++ (key, w.present) :: rest))
      (if Json.metadataKeys.contains key then [] else childrenUnder key w.present))
    (h : Advances up kind (done.snoc (w.under key)).present rest l calls') :
    Advances up kind done.present ((key, value) :: rest) l (calls ++ calls') := by
  obtain ⟨hl, present, hpresent, hkeys, hadvance⟩ := h
  rw [Walked.snoc_append, Walked.present_under] at hpresent hadvance
  exact ⟨hl, (key, w.present) :: present, hpresent, by rw [List.map_cons, List.map_cons, hkeys],
    hentry.append hadvance⟩

/-- So is the walk of all entries. -/
theorem walkEntries_carries (hup : up.Fits) {rest : Entries} (done : Walked Entries)
    (hdone : done.parentFields = []) (hkeys : ((done.present ++ rest).map (·.1)).Nodup)
    (hkind : (Json.obj (done.present ++ rest)).kind = kind)
    (hready : Ready h (childrenAmong rest)) :
    Carries (fun fuel => walkEntries (walk h.recorded.visitor fuel) up done rest)
      (Advances up kind done.present rest) := by
  induction rest generalizing done with
  | nil =>
    refine .pure hdone ⟨?_, [], (List.append_nil _).symm, rfl, ?_⟩
    · rwa [List.append_nil] at hkind
    · rw [List.append_nil]
      exact .nil ..
  | cons entry rest ih =>
    obtain ⟨key, value⟩ := entry
    obtain ⟨hentry, hrest⟩ := List.forall_mem_append.1 hready
    have hnext (w : Walked Json) (hw : w.parentFields = [])
        (hsame : (Json.obj (done.present ++ (key, w.present) :: rest)).kind = kind) :=
      ih (done.snoc (w.under key)) (Walked.parentFields_snoc hdone hw)
        (by simpa [Walked.snoc_append, Walked.present_under] using hkeys)
        (by rwa [Walked.snoc_append]) hrest
    -- An entry without children stays as it is, and nothing is called.
    have hkept
        (hnone : (if Json.metadataKeys.contains key then [] else childrenUnder key value) = []) :
        Carries (fun fuel => walkEntries (walk h.recorded.visitor fuel) up
          (done.snoc ((Walked.same value).under key)) rest)
          (Advances up kind done.present ((key, value) :: rest)) := by
      have hfirst : Advance up kind (.obj (done.present ++ (key, value) :: rest)) []
          (.obj (done.present ++ (key, (Walked.same value).present) :: rest))
          (if Json.metadataKeys.contains key then [] else childrenUnder key value) := by
        rw [hnone]
        exact .nil ..
      exact (hnext (Walked.same value) rfl hkind).mono fun l calls => hfirst.cons
    simp only [walkEntries, hdone, Entries.contains, List.any_nil, Bool.or_false]
    cases hmeta : Json.metadataKeys.contains key with
    | true =>
      simp only [if_true]
      exact hkept (by rw [hmeta, if_pos rfl])
    | false =>
      simp only [Bool.false_eq_true, if_false]
      rw [hmeta] at hentry
      by_cases hnone : childrenUnder key value = []
      · simp only [walkEntry_of_no_node (childrenUnder_eq_nil_iff.1 hnone), pure_bind]
        exact hkept (by rw [hmeta, hnone, ite_self])
      · obtain ⟨c, hc⟩ := List.exists_mem_of_ne_nil _ hnone
        -- There are no children under `type`, so whatever becomes of the entry the kind stays.
        have htype : key ≠ "type" := key_of_mem_childrenUnder hc ▸ (hentry c hc).1
        have hkey : key ∉ done.present.map (·.1) := by
          rw [List.map_append, List.map_cons, List.nodup_middle, List.nodup_cons] at hkeys
          exact fun hmem => hkeys.1 (List.mem_append_left _ hmem)
        have hkinds (v : Json) : (Json.obj (done.present ++ (key, v) :: rest)).kind = kind := by
          rw [← hkind]
          exact Migration.kind_congr (Entries.get?_split_ne htype _ _)
        refine .bind (walkEntry_carries hup hkey htype hkinds hnone hentry)
          fun w calls hfields hadvance => ?_
        refine (hnext w hfields (hkinds _)).mono fun l calls' => Advance.cons ?_
        rw [hmeta]
        exact hadvance

/-- A node with a kind and keys of its own, and children of which the walk ends. -/
structure Stands (h : Handlers σ) (n : Json) : Prop where
  isNode : n.isNode = true
  regular : Regular n
  ready : Ready h (children n)

/-- So is the walk of a node's children, all of them. -/
theorem walkChildren_carries (hup : up.Fits) (hn : Stands h n) :
    Carries (fun fuel => walkChildren (walk h.recorded.visitor fuel) up n) fun n' calls =>
      n'.isNode = true ∧ ((entriesOf n').map (·.1)).Nodup ∧ n'.kind = n.kind ∧
        Advance up n.kind n calls n' (children n') := by
  obtain ⟨hnode, hregular, hready⟩ := hn
  cases n with
  | obj entries =>
    simp only [walkChildren]
    refine .bind (walkEntries_carries hup (Walked.same []) rfl hregular.keys rfl hready)
      fun w calls hfields hdone => .pure rfl ?_
    obtain ⟨hkind, present, hpresent, hkeys, hadvance⟩ := hdone
    have hobject : w.object.present = .obj present := by
      rw [Walked.object, hfields, hpresent]
      rfl
    rw [hpresent] at hkind hadvance
    rw [List.append_nil, hobject]
    refine ⟨?_, ?_, hkind, hadvance⟩
    · have hcontains (l : Entries) : (Json.obj l).isNode = (l.map (·.1)).any (· = "type") := by
        rw [List.any_map]
        rfl
      rw [hcontains, hkeys, ← hcontains]
      exact hnode
    · rw [entriesOf, hkeys]
      exact hregular.keys
  | _ => cases hnode

/-! ## Nodes -/

/-- **One node.** Its walk ends and is lawful if the children of what stands
there after its call on the way down are ready. -/
theorem walks_of_stands
    (hstands : ∀ place s, Stands h (standing n ((h.visit place n).run s).1)) : Walks h n := by
  intro place hplace
  refine Runs.of_succ ?_
  simp only [walk_visitor_succ]
  refine (Runs.visit h place n).bind fun new calls hvisit => ?_
  obtain ⟨⟨s, hnew⟩, hcalls⟩ := hvisit
  have hn := hstands place s
  rw [hnew] at hn
  refine Runs.bind (walkChildren_carries hplace hn) fun w inner hinside => ?_
  obtain ⟨-, hnode, hkeys, hkind, hadvance⟩ := hinside
  refine (Runs.leave h place w.present).bind fun _ calls' hcalls' => ?_
  have hregular : AllNodes Regular w.present :=
    .node ⟨hkeys, fun c hc => (hadvance.regular c hc).1⟩ fun c hc => (hadvance.regular c hc).2
  refine .pure ⟨rfl, hnode, hregular, ?_⟩
  have hpassage := hadvance.passage
  rw [← hkind] at hpassage
  rw [hcalls, hcalls', List.append_nil, preorder, postorder, listing_eq, listing_eq]
  exact .around hplace hkind hpassage

/-- Where no other node would be given for any node of a tree. -/
theorem walks_of_spared (hspared : AllNodes h.Spares n) (hnode : n.isNode = true)
    (hregular : AllNodes Regular n) : Walks h n := by
  induction hspared with
  | @node n self _ ih =>
    refine walks_of_stands fun place s => ?_
    rw [self place n s rfl]
    refine ⟨hnode, hregular.self, fun c hc => ⟨hregular.self.kind c hc, ?_⟩⟩
    exact ih c hc (isNode_of_mem_children hc) (hregular.child hc)

/-- Where nodes may be replaced, but none below what has replaced one. -/
theorem walks_of_settles (hsettles : h.Settles) (hnode : n.isNode = true)
    (hregular : AllNodes Regular n) : Walks h n := by
  induction hregular with
  | @node n self below ih =>
    refine walks_of_stands fun place s => ?_
    cases hnew : ((h.visit place n).run s).1 with
    | none =>
      refine ⟨hnode, self, fun c hc => ⟨self.kind c hc, ?_⟩⟩
      exact ih c hc (isNode_of_mem_children hc)
    | some new =>
      -- The hypothesis of the induction is about the children of `n`, which are gone.
      obtain ⟨hnewNode, hnewRegular, hspared⟩ := hsettles place n s new hnew
      refine ⟨?_, hnewRegular.self.inherit n, fun c hc => ?_⟩
      · rwa [standing, Migration.isNode_congr (Json.get?_type_inherit n new)]
      · rw [standing, children_inherit] at hc
        exact ⟨hnewRegular.self.kind c hc, walks_of_spared (hspared c hc)
          (isNode_of_mem_children hc) (hnewRegular.child hc)⟩

/-! ## The record -/

/-- Apart from the record, one computation is another. -/
def Records (x : StateM (σ × List Call) α) (y : StateM σ α) : Prop :=
  ∀ s calls, ((x.run (s, calls)).1, (x.run (s, calls)).2.1) = y.run s

/-- Recording calls is linked through every way of combining steps. -/
theorem Records.linked :
    Linked fun (α : Type) (x : StateM (σ × List Call) α) (y : StateM σ α) => Records x y where
  pure _ _ _ := rfl
  bind {_ _ _ y _ g} hx hf := fun s calls => by
    rw [StateT.run_bind, StateT.run_bind, ← hx s calls]
    exact hf _ _ _

/-- A walk is the same without the record. -/
theorem walk_recorded (h : Handlers σ) (fuel : Nat) (place : Place) (n : Json) :
    Records (walk h.recorded.visitor fuel place n) (walk h.visitor fuel place n) := by
  refine walk_linked Records.linked (fun place n => ?_) (fun place n => ?_) fuel place n
  · exact Records.linked.bind (fun _ _ => rfl) fun _ => Records.linked.pure _
  · exact Records.linked.bind (fun _ _ => rfl) fun _ => Records.linked.pure _

/-- **The law of a traversal.** Handlers may give another node for a node, if it
is the root of a regular tree with no node below it for which another one would
be given again. Then the walk of every regular tree ends. Each call is made at a
place that leads to its node in the tree as the calls before have left it, and so
do the places of its ancestors; the calls are nested. The calls on the way down
are the nodes of the final tree in preorder, each that was replaced with its
former kind, and the calls on the way up are its nodes in postorder, no address
twice. -/
theorem traversal_law (h : Handlers σ) (hsettles : h.Settles) {tree : Json}
    (hnode : tree.isNode = true) (htree : AllNodes Regular tree) (s : σ) :
    ∃ (final : Walked Json) (s' : σ) (calls : List Call),
      (∃ bound, ∀ fuel, bound ≤ fuel →
        (walk h.visitor fuel [] tree).run s = (final, s') ∧
        (walk h.recorded.visitor fuel [] tree).run (s, []) = (final, s', calls)) ∧
      Passage tree calls final.present (preorder [] none final.present)
        (postorder [] none final.present) ∧
      ((postorder [] none final.present).map Sighting.address).Nodup := by
  obtain ⟨final, s', calls, hends, -, hlawful⟩ :=
    walks_of_settles hsettles hnode htree [] (List.forall_mem_nil _) s
  refine ⟨final, s', calls, ?_, hlawful.passage, nodup_address_postorder hlawful.regular _ _⟩
  obtain ⟨bound, hrun⟩ := hends []
  refine ⟨bound, fun fuel hfuel => ?_⟩
  have hrecorded := hrun fuel hfuel
  refine ⟨?_, hrecorded⟩
  rw [← walk_recorded h fuel [] tree s [], hrecorded]

/-- A list with a number. -/
def numberList : Json :=
  .obj [("type", .str "ArrayExpression"),
    ("elements", .arr [.obj [("type", .str "NumericLiteral"), ("value", .int 1)]])]

/-- Handlers that put a list in the place of each text, and count them. -/
def textHandlers : Handlers Nat where
  visit _ node := fun count =>
    if node.kind = "StringLiteral" then (some numberList, count + 1) else (none, count)
  leave _ _ := fun count => ((), count)

/-- A call with a name and a text. -/
def callOfText : Json :=
  .obj [("type", .str "CallExpression"),
    ("callee", .obj [("type", .str "Identifier"), ("name", .str "f")]),
    ("arguments", .arr [.obj [("type", .str "StringLiteral"), ("value", .str "x")]])]

/-- A call of a text, walked by handlers that count. -/
theorem traversal_law_callOfText :
    textHandlers.Settles ∧ callOfText.isNode = true ∧ AllNodes Regular callOfText ∧
      ∃ (final : Walked Json) (count : Nat) (calls : List Call),
        (∃ bound, ∀ fuel, bound ≤ fuel →
          (walk textHandlers.visitor fuel [] callOfText).run 0 = (final, count) ∧
          (walk textHandlers.recorded.visitor fuel [] callOfText).run (0, []) =
            (final, count, calls)) ∧
        Passage callOfText calls final.present (preorder [] none final.present)
          (postorder [] none final.present) ∧
        ((postorder [] none final.present).map Sighting.address).Nodup := by
  have hleaf {n : Json} (hkeys : ((entriesOf n).map (·.1)).Nodup) (hchildren : children n = []) :
      AllNodes Regular n := by
    refine .node ⟨hkeys, ?_⟩ ?_
    · rw [hchildren]
      exact List.forall_mem_nil _
    · rw [hchildren]
      exact List.forall_mem_nil _
  have hsettles : textHandlers.Settles := by
    intro place node s new hnew
    have hlist : new = numberList := by
      by_cases hkind : node.kind = "StringLiteral"
      · simpa [textHandlers, hkind, StateT.run] using hnew.symm
      · simp [textHandlers, hkind, StateT.run] at hnew
    subst hlist
    refine ⟨rfl, .node ⟨by decide +kernel, by decide +kernel⟩ (List.forall_mem_singleton.2 ?_),
      List.forall_mem_singleton.2 (.node ?_ (List.forall_mem_nil _))⟩
    · exact hleaf (by decide +kernel) rfl
    · intro place node' s hkind
      have hne : node'.kind ≠ "StringLiteral" := hkind ▸ by decide +kernel
      simp [textHandlers, hne, StateT.run]
  have htree : AllNodes Regular callOfText := by
    refine .node ⟨by decide +kernel, by decide +kernel⟩
      (List.forall_mem_cons.2 ⟨?_, List.forall_mem_singleton.2 ?_⟩)
    · exact hleaf (by decide +kernel) rfl
    · exact hleaf (by decide +kernel) rfl
  exact ⟨hsettles, rfl, htree, traversal_law textHandlers hsettles rfl htree 0⟩

example : ((walk textHandlers.recorded.visitor 4 [] callOfText).run (0, [])).2.2.map
    (fun call => (call.isVisit, call.sighting.kind, call.place.index?)) =
      [(true, "CallExpression", none), (true, "Identifier", none), (false, "Identifier", none),
        (true, "StringLiteral", some 0), (true, "NumericLiteral", some 0),
        (false, "NumericLiteral", some 0), (false, "ArrayExpression", some 0),
        (false, "CallExpression", none)] := by
  decide +kernel

end Retype.Syntax
