import Retype.Proofs.Syntax.Listing
import Retype.Syntax.Walk
/-!
# What handlers are called with

The handlers of a visitor are called with a node and its place, once on the way
down, when they may give another node for it, and once on the way up. The calls
`Follow` a tree if each is made at a place that leads, as do those of all its
ancestors, to its node in the tree as the calls before have left it
(`Leads`). They are `Nested` if each call on the way down has its call on the
way up, and the calls between are nested.

A passage is a stretch of calls that turns one tree into another and sees some
nodes on the way down and on the way up; one passage behind another is a passage
(`Passage.append`).
-/

namespace Retype

namespace Entries

variable {before after : Entries} {key : String}

/-- The entry in the middle is the one that is read. -/
theorem get?_split (h : key ∉ before.map (·.1)) (value : Json) :
    get? (before ++ (key, value) :: after) key = some value := by
  induction before with
  | nil => rw [List.nil_append, get?, if_pos rfl]
  | cons entry rest ih =>
    rw [List.map_cons, List.mem_cons, not_or] at h
    rw [List.cons_append, get?, if_neg (Ne.symm h.1), ih h.2]

/-- It is the one that is set. -/
theorem set_split (h : key ∉ before.map (·.1)) (value new : Json) :
    set (before ++ (key, value) :: after) key new = before ++ (key, new) :: after := by
  induction before with
  | nil => rw [List.nil_append, set, if_pos rfl, List.nil_append]
  | cons entry rest ih =>
    rw [List.map_cons, List.mem_cons, not_or] at h
    rw [List.cons_append, set, if_neg (Ne.symm h.1), ih h.2, List.cons_append]

/-- One value does not show under another key. -/
theorem get?_split_ne {key' : String} (h : key ≠ key') (value new : Json) :
    get? (before ++ (key, value) :: after) key' = get? (before ++ (key, new) :: after) key' := by
  induction before with
  | nil => rw [List.nil_append, List.nil_append, get?, get?, if_neg h, if_neg h]
  | cons entry rest ih => rw [List.cons_append, List.cons_append, get?, get?, ih]

end Entries

namespace Json

/-- A route is followed part after part. -/
theorem part?_append (tree : Json) (route route' : Route) :
    tree.part? (route ++ route') = (tree.part? route).bind (part? · route') := by
  induction route generalizing tree with
  | nil => rfl
  | cons step route ih =>
    rw [List.cons_append, part?, part?, Option.bind_assoc]
    exact congrArg _ (funext fun child => ih child)

/-- What is put inside a part is put inside the tree. -/
theorem setPart_append {tree part : Json} {route : Route} (h : tree.part? route = some part)
    (route' : Route) (value : Json) :
    tree.setPart (route ++ route') value = tree.setPart route (part.setPart route' value) := by
  induction route generalizing tree with
  | nil =>
    cases h
    rfl
  | cons step route ih =>
    obtain ⟨child, hchild, hpart⟩ := Option.bind_eq_some_iff.1 h
    rw [List.cons_append, setPart, setPart, hchild]
    exact congrArg (tree.setChild step) (ih hpart)

end Json

namespace Syntax

/-! ## Places -/

/-- The steps from a node to the child in a slot. -/
def Slot.route (slot : Slot) : Json.Route := .key slot.key :: (slot.index?.map .item).toList

/-- The steps from a root to the node at an address. -/
def Address.route (address : Address) : Json.Route := address.reverse.flatMap Slot.route

def Frame.slot (f : Frame) : Slot := ⟨f.key, f.index?⟩

namespace Place

def address (place : Place) : Address := place.map Frame.slot

/-- The tree that has a node at a place. -/
def whole : Place → Json → Json
  | [], node => node
  | f :: up, node => whole up (f.fill node)

end Place

/-- The addresses of a node and of all its ancestors lead to them. -/
def Leads (tree : Json) (place : Place) (node : Json) : Prop :=
  ∀ path ∈ place.path node, tree.part? (Place.address path.1).route = some path.2

/-- The hole is in the first entry with its key, and not in the kind. -/
structure Frame.Fits (f : Frame) : Prop where
  key : f.key ∉ f.before.map (·.1)
  kind : f.key ≠ "type"

namespace Frame.Fits

variable {f : Frame}

/-- The slot of a frame leads to what fills it. -/
theorem part?_fill (h : f.Fits) (child : Json) :
    (f.fill child).part? f.slot.route = some child := by
  obtain ⟨before, key, around, after⟩ := f
  have hget (value : Json) : Entries.get? (before ++ (key, value) :: after) key = some value :=
    Entries.get?_split h.key value
  cases around <;>
    simp [Frame.fill, Frame.slot, Frame.index?, Slot.route, Json.part?, Json.child?, hget]

/-- What fills a frame is replaced there. -/
theorem setPart_fill (h : f.Fits) (child new : Json) :
    (f.fill child).setPart f.slot.route new = f.fill new := by
  obtain ⟨before, key, around, after⟩ := f
  have hget (value : Json) : Entries.get? (before ++ (key, value) :: after) key = some value :=
    Entries.get?_split h.key value
  have hset (value value' : Json) : Entries.set (before ++ (key, value) :: after) key value' =
      before ++ (key, value') :: after := Entries.set_split h.key value value'
  cases around <;>
    simp [Frame.fill, Frame.slot, Frame.index?, Slot.route, Json.setPart, Json.child?,
      Json.setChild, hget, hset]

/-- What is in the hole does not show in the kind. -/
theorem kind_fill (h : f.Fits) (child new : Json) : (f.fill child).kind = (f.fill new).kind :=
  Migration.kind_congr (Entries.get?_split_ne h.kind _ _)

end Frame.Fits

namespace Place

/-- The holes on the way down to a place. -/
def Fits (place : Place) : Prop := ∀ f ∈ place, f.Fits

variable {f : Frame} {up place : Place}

/-- A frame that fits stands in a place that does. -/
theorem Fits.cons (h : up.Fits) (hf : f.Fits) : Fits (f :: up) := List.forall_mem_cons.2 ⟨hf, h⟩

/-- The route to a frame's child goes on with its slot. -/
theorem route_cons (f : Frame) (up : Place) :
    (address (f :: up)).route = (address up).route ++ f.slot.route := by
  simp [address, Address.route]

/-- A place leads to its node. -/
theorem part?_whole (h : place.Fits) (node : Json) :
    (place.whole node).part? (address place).route = some node := by
  induction place generalizing node with
  | nil => rfl
  | cons f up ih =>
    obtain ⟨hf, hup⟩ := List.forall_mem_cons.1 h
    rw [whole, route_cons, Json.part?_append, ih hup, Option.bind_some, hf.part?_fill]

/-- A node is replaced at its place. -/
theorem setPart_whole (h : place.Fits) (node new : Json) :
    (place.whole node).setPart (address place).route new = place.whole new := by
  induction place generalizing node new with
  | nil => rfl
  | cons f up ih =>
    obtain ⟨hf, hup⟩ := List.forall_mem_cons.1 h
    rw [whole, route_cons, Json.setPart_append (part?_whole hup _), hf.setPart_fill, ih hup,
      whole]

/-- The frames of a place lead to its node. -/
theorem leads_whole (h : place.Fits) (node : Json) : Leads (place.whole node) place node := by
  induction place generalizing node with
  | nil => exact List.forall_mem_singleton.2 rfl
  | cons f up ih =>
    refine List.forall_mem_cons.2 ⟨part?_whole h node, ih (List.forall_mem_cons.1 h).2 _⟩

/-- What stands at a place does not change its parent's kind. -/
theorem parentKind?_congr (h : place.Fits) (node new : Json) :
    place.parentKind? node = place.parentKind? new := by
  cases place with
  | nil => rfl
  | cons f up => exact congrArg some ((List.forall_mem_cons.1 h).1.kind_fill node new)

end Place

/-! ## Handlers -/

/-- What is done with a node on the way down, which may give another node for
it, and on the way up. -/
structure Handlers (σ : Type) where
  visit : Place → Json → StateM σ (Option Json)
  leave : Place → Json → StateM σ Unit

/-- What stands where a node stood, if another one may have been given for it. -/
def standing (node : Json) : Option Json → Json
  | none => node
  | some new => Json.inherit node new

/-- What a visitor makes of that. -/
def visitOf (node : Json) : Option Json → Visit
  | none => .keep node
  | some new => .replace node new []

/-- A call of a handler. -/
inductive Call where
  | visit (place : Place) (node : Json) (new : Option Json)
  | leave (place : Place) (node : Json)

namespace Handlers

variable {σ : Type}

/-- The visitor that calls handlers. -/
def visitor (h : Handlers σ) : Visitor (StateM σ) where
  enter place node := do return visitOf node (← h.visit place node)
  leave place node := do
    h.leave place node
    return node

/-- The handlers, where each call is recorded. -/
def recorded (h : Handlers σ) : Handlers (σ × List Call) where
  visit place node := fun (s, calls) =>
    let ran := (h.visit place node).run s
    (ran.1, ran.2, calls ++ [.visit place node ran.1])
  leave place node := fun (s, calls) =>
    ((), ((h.leave place node).run s).2, calls ++ [.leave place node])

/-- No other node is given for nodes of the kind of a node. -/
def Spares (h : Handlers σ) (node : Json) : Prop :=
  ∀ place node' s, node'.kind = node.kind → ((h.visit place node').run s).1 = none

/-- What is given for a node is a tree with no node below it for which another
one would be given. -/
def Settles (h : Handlers σ) : Prop :=
  ∀ place node s new, ((h.visit place node).run s).1 = some new →
    new.isNode = true ∧ AllNodes Regular new ∧ ∀ c ∈ children new, AllNodes h.Spares c.2

end Handlers

/-- What has become of a node itself, when something stands there on the way up. -/
def remaining (node inside : Json) : Option Json → Json
  | none => inside
  | some _ => node

/-- One step of a walk that calls handlers. -/
theorem walk_visitor_succ {σ : Type} (h : Handlers σ) (fuel : Nat) (place : Place) (node : Json) :
    walk h.visitor (fuel + 1) place node = do
      let new ← h.visit place node
      let inside ← walkChildren (walk h.visitor fuel) place (standing node new)
      h.leave place inside.present
      return ⟨inside.present, remaining node inside.present new, []⟩ := by
  rw [walk]
  simp only [Handlers.visitor, bind_assoc, pure_bind]
  refine bind_congr fun new => ?_
  cases new <;> rfl

/-! ## Calls -/

namespace Call

def place : Call → Place
  | visit place _ _ => place
  | leave place _ => place

def node : Call → Json
  | visit _ node _ => node
  | leave _ node => node

/-- What a call tells of its node. -/
def sighting (c : Call) : Sighting := ⟨c.node.kind, c.place.parentKind? c.node, c.place.address⟩

def isVisit : Call → Bool
  | visit .. => true
  | leave .. => false

/-- The tree after a call. -/
def effect (tree : Json) : Call → Json
  | visit place node (some new) => tree.setPart (Place.address place).route (Json.inherit node new)
  | _ => tree

/-- A node is as it is told of in a call on the way down, but of another kind if
it was given there for the node that was called with. -/
inductive Reports : Call → Sighting → Prop
  | kept {place : Place} {node : Json} :
      Reports (visit place node none) (visit place node none).sighting
  | replaced {place : Place} {node new : Json} :
      Reports (visit place node (some new))
        { (visit place node (some new)).sighting with kind := new.kind }

end Call

/-- Calls that are made one after the other while one tree becomes another. -/
def Follow : Json → List Call → Json → Prop
  | tree, [], tree' => tree = tree'
  | tree, call :: rest, tree' =>
    Leads tree call.place call.node ∧ Follow (call.effect tree) rest tree'

/-- Each call on the way down has its call on the way up behind it, at the same
place, and the calls between are nested. -/
inductive Nested : List Call → Prop
  | nil : Nested []
  | node {place : Place} {node left : Json} {new : Option Json} {inner rest : List Call} :
      Nested inner → Nested rest →
        Nested (.visit place node new :: inner ++ .leave place left :: rest)

variable {tree tree' tree'' : Json} {calls calls' : List Call}

/-- Calls that follow one another make one sequence. -/
theorem Follow.append (h : Follow tree calls tree') (h' : Follow tree' calls' tree'') :
    Follow tree (calls ++ calls') tree'' := by
  induction calls generalizing tree with
  | nil =>
    cases h
    exact h'
  | cons call rest ih => exact ⟨h.1, ih h.2⟩

/-- Nested calls after nested calls are nested. -/
theorem Nested.append (h : Nested calls) (h' : Nested calls') : Nested (calls ++ calls') := by
  induction h with
  | nil => exact h'
  | node hinner _ _ ih =>
    rw [List.append_assoc, List.cons_append, List.cons_append]
    exact .node hinner ih

/-- Calls that are made while one tree becomes another, with what they see on
the way down and on the way up. -/
structure Passage (tree : Json) (calls : List Call) (tree' : Json) (seen left : List Sighting) :
    Prop where
  follow : Follow tree calls tree'
  nested : Nested calls
  visits : List.Forall₂ Call.Reports (calls.filter Call.isVisit) seen
  leaves : (calls.filter fun c => !c.isVisit).map Call.sighting = left

namespace Passage

variable {seen seen' left left' : List Sighting}

/-- A tree that is left alone is passed through. -/
theorem nil (tree : Json) : Passage tree [] tree [] [] := ⟨rfl, .nil, .nil, rfl⟩

/-- One passage after another is a passage. -/
theorem append (h : Passage tree calls tree' seen left)
    (h' : Passage tree' calls' tree'' seen' left') :
    Passage tree (calls ++ calls') tree'' (seen ++ seen') (left ++ left') where
  follow := h.follow.append h'.follow
  nested := h.nested.append h'.nested
  visits := by
    rw [List.filter_append]
    exact List.rel_append h.visits h'.visits
  leaves := by rw [List.filter_append, List.map_append, h.leaves, h'.leaves]

/-- **A node around its children.** The passage of the children of what stands
at a place, between the two calls for the node there. -/
theorem around {place : Place} (hplace : place.Fits) {node inside : Json} {new : Option Json}
    (hkind : inside.kind = (standing node new).kind)
    (h : Passage (place.whole (standing node new)) calls (place.whole inside) seen left) :
    Passage (place.whole node) (.visit place node new :: calls ++ [.leave place inside])
      (place.whole inside) (⟨inside.kind, place.parentKind? inside, place.address⟩ :: seen)
      (left ++ [⟨inside.kind, place.parentKind? inside, place.address⟩]) where
  follow := by
    refine ⟨Place.leads_whole hplace node, ?_⟩
    have heffect : (Call.visit place node new).effect (place.whole node) =
        place.whole (standing node new) := by
      cases new with
      | none => rfl
      | some new => exact Place.setPart_whole hplace node _
    rw [heffect]
    exact h.follow.append ⟨Place.leads_whole hplace inside, rfl⟩
  nested := .node h.nested .nil
  visits := by
    have hfilter : (Call.visit place node new :: calls ++ [Call.leave place inside]).filter
        Call.isVisit = .visit place node new :: calls.filter Call.isVisit := by
      rw [List.cons_append, List.filter_cons_of_pos rfl, List.filter_append]
      exact congrArg _ (List.append_nil _)
    rw [hfilter, Place.parentKind?_congr hplace inside node, hkind]
    refine .cons ?_ h.visits
    cases new with
    | none => exact .kept
    | some new =>
      rw [standing, Migration.kind_congr (Json.get?_type_inherit node new)]
      exact .replaced
  leaves := by
    have hfilter : (Call.visit place node new :: calls ++ [Call.leave place inside]).filter
        (fun c => !c.isVisit) = (calls.filter fun c => !c.isVisit) ++ [.leave place inside] := by
      rw [List.cons_append, List.filter_cons_of_neg Bool.false_ne_true, List.filter_append]
      rfl
    rw [hfilter, List.map_append, h.leaves]
    rfl

end Passage

end Syntax

end Retype
