import Retype.Proofs.Migration.Trailing
/-!
# Literals through and through

The grammar of the expressions that a cast may treat as literals: a literal,
the name `undefined`, and templates, arrays and objects of such expressions.
The test that the casts make accepts this grammar and nothing else
(`isStructuralLiteral_iff`). All that is evaluated when such an expression is
evaluated is again of the grammar (`Literal.evaluates`), so that nothing in it
calls, reads a member, makes a function, assigns, spreads an object or reads a
variable (`isStructuralLiteral_accepts_inert`).
-/

namespace Retype

open Retype.Flow (get?_of_below? get?_of_below?_none)

namespace Json

variable (n : Json) (key : String)

/-- The parts under a key are its items. -/
theorem all_partsAt (accepts : Json → Bool) :
    ((n.partsAt key).all fun part => accepts part.1) = (n.itemsAt key).all accepts := by
  rw [partsAt, itemsAt]
  split
  next items hsize hbelow =>
    rw [get?_of_below? hbelow]
    simp [List.all_map, Function.comp_def, Json.items]
  next hother =>
    cases hbelow : n.below? key with
    | none => rw [get?_of_below?_none hbelow]; rfl
    | some part =>
      obtain ⟨v, hsize⟩ := part
      rw [get?_of_below? hbelow]
      cases v with
      | arr items => exact absurd hbelow (hother items hsize)
      | _ => rfl

/-- Reading a part that may be absent is reading its field. -/
theorem elim_below? {α : Type} (absent : α) (f : Json → α) :
    (n.below? key).elim absent (fun part => f part.1) = (n.get? key).elim absent f := by
  cases hbelow : n.below? key with
  | some part => rw [get?_of_below? hbelow]; rfl
  | none => rw [get?_of_below?_none hbelow]; rfl

end Json

namespace Migration

variable {e x : Json}

/-! ## The grammar -/

mutual

/-- An expression of literals only. -/
inductive Literal : Json → Prop
  | plain {e : Json} : e.kindIn literalKinds = true → Literal e
  | undefined {e : Json} :
      e.hasText "type" "Identifier" = true → e.hasText "name" "undefined" = true → Literal e
  | template {e : Json} :
      e.hasText "type" "TemplateLiteral" = true → isListAt e "expressions" = true →
      (∀ part ∈ e.itemsAt "expressions", Literal part) → Literal e
  | array {e : Json} :
      e.hasText "type" "ArrayExpression" = true →
      (∀ element ∈ e.itemsAt "elements", LiteralElement element) → Literal e
  | object {e : Json} :
      e.hasText "type" "ObjectExpression" = true →
      (∀ property ∈ e.itemsAt "properties", LiteralProperty property) → Literal e

/-- An element of an array of literals: a hole, an expression, or a spread of
one. -/
inductive LiteralElement : Json → Prop
  | hole : LiteralElement .null
  | spread {element argument : Json} :
      element.hasText "type" "SpreadElement" = true → element.get? "argument" = some argument →
      Literal argument → LiteralElement element
  | expression {element : Json} : Literal element → LiteralElement element

/-- A property of an object of literals, which is neither a method nor a
spread. -/
inductive LiteralProperty : Json → Prop
  | named {property value : Json} :
      property.kindIn ["ObjectMethod", "SpreadElement"] = false →
      property.holds "computed" = false → property.get? "value" = some value → Literal value →
      LiteralProperty property
  | computed {property key value : Json} :
      property.kindIn ["ObjectMethod", "SpreadElement"] = false →
      property.get? "key" = some key → Literal key → property.get? "value" = some value →
      Literal value → LiteralProperty property

end

/-- What the test asks of an element of an array. -/
def isLiteralElement (element : Json) : Bool :=
  if element.isNull then true
  else if element.hasText "type" "SpreadElement" then
    (element.get? "argument").elim false isStructuralLiteral
  else isStructuralLiteral element

/-- What the test asks of a property of an object. -/
def isLiteralProperty (property : Json) : Bool :=
  if property.kindIn ["ObjectMethod", "SpreadElement"] then false
  else
    (!property.holds "computed" || (property.get? "key").elim false isStructuralLiteral)
      && (property.get? "value").elim false isStructuralLiteral

/-- The test, by the kind of the expression. -/
theorem isStructuralLiteral_eq (e : Json) : isStructuralLiteral e =
    if e.kindIn literalKinds then true
    else if e.hasText "type" "TemplateLiteral" then
      isListAt e "expressions" && (e.itemsAt "expressions").all isStructuralLiteral
    else if e.hasText "type" "Identifier" then e.hasText "name" "undefined"
    else if e.hasText "type" "ArrayExpression" then (e.itemsAt "elements").all isLiteralElement
    else if e.hasText "type" "ObjectExpression" then (e.itemsAt "properties").all isLiteralProperty
    else false := by
  rw [isStructuralLiteral, ← Json.all_partsAt, ← Json.all_partsAt, ← Json.all_partsAt]
  simp only [isLiteralElement, isLiteralProperty, ← Json.elim_below?]

/-! ## What the test accepts -/

/-- A node of one kind is of no list without that kind. -/
theorem kindIn_apart {kind : String} {kinds : List String} (h : e.hasText "type" kind = true)
    (hkind : kinds.contains kind = false) : e.kindIn kinds = false := by
  rw [kindIn_of_kind (get?_of_hasText h), hkind]

/-- The kinds of the expressions of the grammar. -/
def literalExpressionKinds : List String :=
  literalKinds ++ ["Identifier", "TemplateLiteral", "ArrayExpression", "ObjectExpression"]

/-- A node of one kind is of every list with it. -/
theorem kindIn_of_hasText {kind : String} {kinds : List String}
    (h : e.hasText "type" kind = true) (hkind : kinds.contains kind = true) :
    e.kindIn kinds = true := by
  rw [kindIn_of_kind (get?_of_hasText h), hkind]

/-- A node of a list of kinds is of one of them. -/
theorem kind_of_kindIn {kinds : List String} (h : e.kindIn kinds = true) :
    ∃ kind ∈ kinds, e.hasText "type" kind = true := by
  simpa [Json.kindIn] using h

/-- A node of one of some kinds is of no kind that is not among them. -/
theorem kindIn_disjoint {kinds others : List String} (h : e.kindIn kinds = true)
    (hapart : ∀ kind ∈ kinds, others.contains kind = false) : e.kindIn others = false := by
  obtain ⟨kind, hmem, hkind⟩ := kind_of_kindIn h
  exact kindIn_apart hkind (hapart kind hmem)

/-- A literal is of a kind for literal expressions. -/
theorem Literal.kindIn (literal : Literal e) : e.kindIn literalExpressionKinds = true := by
  cases literal with
  | plain h =>
    obtain ⟨kind, hmem, hkind⟩ := kind_of_kindIn h
    exact kindIn_of_hasText hkind (by simp [literalExpressionKinds, hmem])
  | undefined h => exact kindIn_of_hasText h (by decide)
  | template h => exact kindIn_of_hasText h (by decide)
  | array h => exact kindIn_of_hasText h (by decide)
  | object h => exact kindIn_of_hasText h (by decide)

/-- A literal is no spread. -/
theorem Literal.not_spread (literal : Literal e) : e.hasText "type" "SpreadElement" = false := by
  have hother := kindIn_disjoint literal.kindIn
    (show ∀ kind ∈ literalExpressionKinds, ["SpreadElement"].contains kind = false by decide)
  simpa [Json.kindIn] using hother

mutual

/-- **Every literal of the grammar is accepted.** -/
theorem Literal.accepted {e : Json} : Literal e → isStructuralLiteral e = true
  | .plain h => by rw [isStructuralLiteral_eq, if_pos h]
  | .undefined h hname => by
    rw [isStructuralLiteral_eq]
    simp [kindIn_apart h (show literalKinds.contains _ = false by decide),
      hasText_of_kind (get?_of_hasText h), hname]
  | .template h hlist hparts => by
    have hall := fun part hpart => (hparts part hpart).accepted
    rw [isStructuralLiteral_eq]
    simpa [kindIn_apart h (show literalKinds.contains _ = false by decide),
      hasText_of_kind (get?_of_hasText h), hlist] using hall
  | .array h helements => by
    have hall := fun element helement => (helements element helement).accepted
    rw [isStructuralLiteral_eq]
    simpa [kindIn_apart h (show literalKinds.contains _ = false by decide),
      hasText_of_kind (get?_of_hasText h)] using hall
  | .object h hproperties => by
    have hall := fun property hproperty => (hproperties property hproperty).accepted
    rw [isStructuralLiteral_eq]
    simpa [kindIn_apart h (show literalKinds.contains _ = false by decide),
      hasText_of_kind (get?_of_hasText h)] using hall

/-- So is every element. -/
theorem LiteralElement.accepted {element : Json} :
    LiteralElement element → isLiteralElement element = true
  | .hole => rfl
  | .spread h hargument literal => by
    simp [isLiteralElement, h, hargument, literal.accepted]
  | .expression literal => by
    rw [isLiteralElement, literal.not_spread]
    simp [literal.accepted]

/-- So is every property. -/
theorem LiteralProperty.accepted {property : Json} :
    LiteralProperty property → isLiteralProperty property = true
  | .named hkind hcomputed hvalue literal => by
    simp [isLiteralProperty, hkind, hcomputed, hvalue, literal.accepted]
  | .computed hkind hkey named hvalue literal => by
    simp [isLiteralProperty, hkind, hkey, hvalue, named.accepted, literal.accepted]

end

/-- An item is smaller than the node that lists it. -/
theorem sizeOf_mem_itemsAt_lt {key : String} {item : Json} (h : item ∈ e.itemsAt key) :
    sizeOf item < sizeOf e := by
  rw [Json.itemsAt] at h
  split at h
  next v hget => exact (Json.sizeOf_mem_items_lt h).trans (Json.sizeOf_get?_lt hget)
  next => cases h

/-- An accepted element is one of the grammar if accepted smaller parts are. -/
theorem literalElement_of_isLiteralElement {element : Json} (h : isLiteralElement element = true)
    (ih : ∀ part, sizeOf part ≤ sizeOf element → isStructuralLiteral part = true → Literal part) :
    LiteralElement element := by
  rw [isLiteralElement] at h
  split at h
  next hnull =>
    cases element with
    | null => exact .hole
    | _ => cases hnull
  split at h
  next hspread =>
    cases hargument : element.get? "argument" with
    | none => simp [hargument] at h
    | some argument =>
      rw [hargument] at h
      exact .spread hspread hargument (ih argument (Json.sizeOf_get?_lt hargument).le h)
  next => exact .expression (ih element le_rfl h)

/-- So is an accepted property. -/
theorem literalProperty_of_isLiteralProperty {property : Json}
    (h : isLiteralProperty property = true)
    (ih : ∀ part, sizeOf part < sizeOf property → isStructuralLiteral part = true → Literal part) :
    LiteralProperty property := by
  have found {key : String} (h : (property.get? key).elim false isStructuralLiteral = true) :
      ∃ part, property.get? key = some part ∧ Literal part := by
    cases hget : property.get? key with
    | none => simp [hget] at h
    | some part =>
      rw [hget] at h
      exact ⟨part, rfl, ih part (Json.sizeOf_get?_lt hget) h⟩
  rw [isLiteralProperty] at h
  split at h
  next => cases h
  next hkind =>
    obtain ⟨hkey, hvalue⟩ := Bool.and_eq_true_iff.1 h
    obtain ⟨value, hget, literal⟩ := found hvalue
    rcases Bool.or_eq_true_iff.1 hkey with hplain | hcomputed
    · exact .named (by simpa using hkind) (by simpa using hplain) hget literal
    · obtain ⟨key, hgetKey, named⟩ := found hcomputed
      exact .computed (by simpa using hkind) hgetKey named hget literal

/-- The test accepts the grammar and nothing else. -/
theorem isStructuralLiteral_iff (e : Json) : isStructuralLiteral e = true ↔ Literal e := by
  refine ⟨fun h => ?_, Literal.accepted⟩
  induction hsize : sizeOf e using Nat.strongRecOn generalizing e with
  | ind size ih =>
  subst hsize
  replace ih : ∀ part, sizeOf part < sizeOf e → isStructuralLiteral part = true → Literal part :=
    fun part hpart haccepted => ih _ hpart part haccepted rfl
  rw [isStructuralLiteral_eq] at h
  split at h
  next hplain => exact .plain hplain
  split at h
  next htemplate =>
    obtain ⟨hlist, hall⟩ := Bool.and_eq_true_iff.1 h
    exact .template htemplate hlist fun part hpart =>
      ih part (sizeOf_mem_itemsAt_lt hpart) (List.all_eq_true.1 hall part hpart)
  split at h
  next hname => exact .undefined hname h
  split at h
  next harray =>
    exact .array harray fun element helement =>
      literalElement_of_isLiteralElement (List.all_eq_true.1 h element helement)
        fun part hpart => ih part (hpart.trans_lt (sizeOf_mem_itemsAt_lt helement))
  split at h
  next hobject =>
    exact .object hobject fun property hproperty =>
      literalProperty_of_isLiteralProperty (List.all_eq_true.1 h property hproperty)
        fun part hpart => ih part (hpart.trans (sizeOf_mem_itemsAt_lt hproperty))
  next => cases h

/-! ## What is evaluated -/

/-- The second expression is evaluated when the first one is, as a part of a
template, an element of an array, the argument of a spread in one, or the value
or the computed key of a property of an object, at any depth. -/
inductive Evaluates : Json → Json → Prop
  | self (e : Json) : Evaluates e e
  | part {e part x : Json} : e.hasText "type" "TemplateLiteral" = true →
      part ∈ e.itemsAt "expressions" → Evaluates part x → Evaluates e x
  | element {e element x : Json} : e.hasText "type" "ArrayExpression" = true →
      element ∈ e.itemsAt "elements" → element.isNull = false →
      element.hasText "type" "SpreadElement" = false → Evaluates element x → Evaluates e x
  | spread {e element argument x : Json} : e.hasText "type" "ArrayExpression" = true →
      element ∈ e.itemsAt "elements" → element.hasText "type" "SpreadElement" = true →
      element.get? "argument" = some argument → Evaluates argument x → Evaluates e x
  | value {e property value x : Json} : e.hasText "type" "ObjectExpression" = true →
      property ∈ e.itemsAt "properties" → property.get? "value" = some value →
      Evaluates value x → Evaluates e x
  | key {e property key x : Json} : e.hasText "type" "ObjectExpression" = true →
      property ∈ e.itemsAt "properties" → property.holds "computed" = true →
      property.get? "key" = some key → Evaluates key x → Evaluates e x

/-- Kinds of expressions that call, read a member, make a function, assign or
spread. -/
def effectKinds : List String :=
  ["CallExpression", "OptionalCallExpression", "NewExpression", "TaggedTemplateExpression",
    "MemberExpression", "OptionalMemberExpression", "FunctionExpression",
    "ArrowFunctionExpression", "ObjectMethod", "ClassExpression", "AssignmentExpression",
    "UpdateExpression", "AwaitExpression", "YieldExpression", "SpreadElement"]

/-- An expression that has no effect of its own and reads no variable. -/
structure IsInert (x : Json) : Prop where
  effectless : x.kindIn effectKinds = false
  name : x.hasText "type" "Identifier" = true → x.hasText "name" "undefined" = true
  properties : x.hasText "type" "ObjectExpression" = true →
    ∀ property ∈ x.itemsAt "properties",
      property.kindIn ["ObjectMethod", "SpreadElement"] = false

/-! An expression of the grammar that is of a kind is built by the rule for that
kind. -/

/-- The parts of a template literal are literals. -/
theorem Literal.parts (literal : Literal e) (h : e.hasText "type" "TemplateLiteral" = true) :
    ∀ part ∈ e.itemsAt "expressions", Literal part := by
  have hkind := get?_of_hasText h
  cases literal with
  | template _ _ hparts => exact hparts
  | plain hother => exact absurd (kindIn_of_kind hkind _ ▸ hother) (by decide)
  | undefined hother | array hother | object hother =>
    exact absurd (hasText_of_kind hkind _ ▸ hother) (by decide)

/-- The elements of an array literal are elements of the grammar. -/
theorem Literal.elements (literal : Literal e) (h : e.hasText "type" "ArrayExpression" = true) :
    ∀ element ∈ e.itemsAt "elements", LiteralElement element := by
  have hkind := get?_of_hasText h
  cases literal with
  | array _ helements => exact helements
  | plain hother => exact absurd (kindIn_of_kind hkind _ ▸ hother) (by decide)
  | undefined hother | template hother | object hother =>
    exact absurd (hasText_of_kind hkind _ ▸ hother) (by decide)

/-- The properties of an object literal are properties of the grammar. -/
theorem Literal.properties (literal : Literal e)
    (h : e.hasText "type" "ObjectExpression" = true) :
    ∀ property ∈ e.itemsAt "properties", LiteralProperty property := by
  have hkind := get?_of_hasText h
  cases literal with
  | object _ hproperties => exact hproperties
  | plain hother => exact absurd (kindIn_of_kind hkind _ ▸ hother) (by decide)
  | undefined hother | template hother | array hother =>
    exact absurd (hasText_of_kind hkind _ ▸ hother) (by decide)

/-- An element that is neither a hole nor a spread is a literal. -/
theorem LiteralElement.literal {element : Json} (h : LiteralElement element)
    (hnull : element.isNull = false) (hspread : element.hasText "type" "SpreadElement" = false) :
    Literal element := by
  cases h with
  | hole => cases hnull
  | spread h => exact absurd h (by simp [hspread])
  | expression literal => exact literal

/-- What is spread is a literal. -/
theorem LiteralElement.argument {element argument : Json} (h : LiteralElement element)
    (hspread : element.hasText "type" "SpreadElement" = true)
    (hargument : element.get? "argument" = some argument) : Literal argument := by
  cases h with
  | hole => cases hargument
  | spread _ hget literal =>
    obtain rfl := Option.some.inj (hget.symm.trans hargument)
    exact literal
  | expression literal =>
    exact absurd hspread (by simp [literal.not_spread])

/-- The value of a property is a literal. -/
theorem LiteralProperty.value {property value : Json} (h : LiteralProperty property)
    (hvalue : property.get? "value" = some value) : Literal value := by
  cases h with
  | named _ _ hget literal | computed _ _ _ hget literal =>
    obtain rfl := Option.some.inj (hget.symm.trans hvalue)
    exact literal

/-- So is a computed key. -/
theorem LiteralProperty.key {property key : Json} (h : LiteralProperty property)
    (hcomputed : property.holds "computed" = true) (hkey : property.get? "key" = some key) :
    Literal key := by
  cases h with
  | named _ hplain => exact absurd hcomputed (by simp [hplain])
  | computed _ hget literal =>
    obtain rfl := Option.some.inj (hget.symm.trans hkey)
    exact literal

/-- A property is neither a method nor a spread. -/
theorem LiteralProperty.kindIn {property : Json} (h : LiteralProperty property) :
    property.kindIn ["ObjectMethod", "SpreadElement"] = false := by
  cases h with
  | named hkind | computed hkind => exact hkind

/-- What is evaluated in an expression of the grammar is of the grammar. -/
theorem Literal.evaluates (literal : Literal e) (h : Evaluates e x) : Literal x := by
  induction h with
  | self => exact literal
  | part hkind hmem _ ih => exact ih (literal.parts hkind _ hmem)
  | element hkind hmem hnull hspread _ ih =>
    exact ih ((literal.elements hkind _ hmem).literal hnull hspread)
  | spread hkind hmem hspread hargument _ ih =>
    exact ih ((literal.elements hkind _ hmem).argument hspread hargument)
  | value hkind hmem hvalue _ ih => exact ih ((literal.properties hkind _ hmem).value hvalue)
  | key hkind hmem hcomputed hkey _ ih =>
    exact ih ((literal.properties hkind _ hmem).key hcomputed hkey)

/-- **A literal calls nothing and reads no variable.** -/
theorem Literal.isInert (literal : Literal e) : IsInert e where
  effectless := kindIn_disjoint literal.kindIn (by decide)
  name hname := by
    have hkind := get?_of_hasText hname
    cases literal with
    | undefined _ h => exact h
    | plain hother => exact absurd (kindIn_of_kind hkind _ ▸ hother) (by decide)
    | template hother | array hother | object hother =>
      exact absurd (hasText_of_kind hkind _ ▸ hother) (by decide)
  properties hobject property hmem := (literal.properties hobject property hmem).kindIn

/-- **Literals through and through are inert.** The test accepts an expression
just when it is of the grammar, and all that is evaluated with an accepted one
is inert. -/
theorem isStructuralLiteral_accepts_inert (e : Json) :
    (isStructuralLiteral e = true ↔ Literal e) ∧
      (isStructuralLiteral e = true → ∀ x, Evaluates e x → IsInert x) :=
  ⟨isStructuralLiteral_iff e, fun h _ hx =>
    (((isStructuralLiteral_iff e).1 h).evaluates hx).isInert⟩

open TypeScript (node identifier) in
/-- `{a: [null, , ...[undefined]], [`${1}`]: /x/}` -/
def literalObject : Json :=
  let one := node "NumericLiteral" [("value", .int 1)]
  node "ObjectExpression" [("properties", .arr [
    node "ObjectProperty" [("key", identifier "a" []), ("computed", .bool false),
      ("value", node "ArrayExpression" [("elements", .arr [node "NullLiteral" [], .null,
        node "SpreadElement" [("argument", node "ArrayExpression"
          [("elements", .arr [identifier "undefined" []])])]])])],
    node "ObjectProperty" [("key", node "TemplateLiteral" [("expressions", .arr [one])]),
      ("computed", .bool true), ("value", node "RegExpLiteral" [])]])]

/-- An object literal is accepted, and everything it evaluates is inert. -/
theorem literalObject_inert :
    isStructuralLiteral literalObject = true ∧ ∀ x, Evaluates literalObject x → IsInert x :=
  have accepted : isStructuralLiteral literalObject = true := by decide +kernel
  ⟨accepted, (isStructuralLiteral_accepts_inert literalObject).2 accepted⟩

end Migration

end Retype
