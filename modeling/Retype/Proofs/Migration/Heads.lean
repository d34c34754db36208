import Retype.Proofs.Migration.Due
import Retype.Proofs.Migration.Formed
/-!
# The parameters of function types

What is written for the parameters of a function type is read off the function
type before (`Outlined.written`). Optional parameters stay where they were, so
one that stood before a required one still does (`signatures_ordered`). Names
that were given stay, and names are invented for the other parameters, from
their places alone: two parameters have one name where a name that was given is
one of those (`names_stay_distinct`).
-/

namespace Retype

namespace FlowType

/-- The parameters of a function type, without `this` and the rest parameter. -/
def params : FlowType → List (FlowParam FlowType)
  | function _ params _ _ _ _ => params
  | _ => []

/-- The rest parameter of a function type. -/
def rest? : FlowType → Option (FlowParam FlowType)
  | function _ _ _ rest _ _ => rest
  | _ => none

/-- The parameter `this` of a function type. -/
def this? : FlowType → Option (FlowParam FlowType)
  | function _ _ _ _ thisParam _ => thisParam
  | _ => none

/-- No parameter that may be left out stands before one that may not. -/
def OptionalLast (f : FlowType) : Prop :=
  f.params.Pairwise fun p q => p.optional = true → q.optional = true

end FlowType

namespace Migration

open TypeScript (node identifier encode encodeParams annotationNode)

/-- The head that a node of a parameter has. -/
def readHead (n : Json) : ParamHead :=
  if n.hasText "type" "RestElement" then
    ⟨((n.get? "argument").getD .null).textAt "name", false, true⟩
  else ⟨n.textAt "name", n.holds "optional", false⟩

/-- The heads of the parameters of a signature, as they are written. -/
def writtenHeads (s : TsSignature TsType) : List ParamHead := (encodeParams s.params).map readHead

/-! ## Writing -/

theorem readHead_congr {n n' : Json}
    (h : ∀ key ∈ ["type", "argument", "name", "optional"], n'.get? key = n.get? key) :
    readHead n' = readHead n := by
  rw [readHead, readHead, Json.hasText_congr (h "type" (by decide)), h "argument" (by decide),
    Json.holds, Json.holds, h "optional" (by decide)]
  simp only [Json.textAt, h "name" (by decide)]

theorem readHead_inheritOption (origin : Option Json) (n : Json) :
    readHead (Json.inheritOption origin n) = readHead n := by
  have hall : ∀ key ∈ ["type", "argument", "name", "optional"],
      key ∉ Json.inheritedKeys := by decide
  exact readHead_congr fun key hkey => get?_inheritOption_ne (hall key hkey)

/-- A parameter is written with the head that it has, since no rest parameter
is marked. -/
theorem writtenHeads_eq {s : TsSignature TsType}
    (h : ∀ p ∈ s.params.map headOf, p.rest = true → p.optional = false) :
    writtenHeads s = s.params.map headOf := by
  rw [writtenHeads]
  generalize s.params = params at h
  induction params with
  | nil => rfl
  | cons p params ih =>
    obtain ⟨origin, name, type, optional, isRest⟩ := p
    rw [List.map_cons, List.forall_mem_cons] at h
    rw [encodeParams, List.map_cons, List.map_cons, readHead_inheritOption, ih h.2]
    congr 1
    cases isRest with
    | true =>
      obtain rfl : optional = false := h.1 rfl
      rfl
    | false => cases optional <;> rfl

theorem rest_of_mem_headsFrom {number : Nat} {params : List (FlowParam FlowType)} {p : ParamHead}
    (h : p ∈ headsFrom number params) : p.rest = false := by
  induction params generalizing number with
  | nil => cases h
  | cons first params ih =>
    rcases List.mem_cons.1 h with rfl | h
    · rfl
    · exact ih h

theorem optional_of_rest {params : List (FlowParam FlowType)}
    {rest thisParam : Option (FlowParam FlowType)} :
    ∀ p ∈ headsOf params rest thisParam, p.rest = true → p.optional = false := by
  intro p hp hrest
  simp only [headsOf, List.mem_append, List.mem_map] at hp
  rcases hp with (⟨_, _, rfl⟩ | hp) | ⟨_, _, rfl⟩
  · rfl
  · rw [rest_of_mem_headsFrom hp] at hrest
    cases hrest
  · rfl

/-- What is written for the parameters of a function type. -/
theorem Outlined.written {f : FlowType} {s : TsSignature TsType} (h : Outlined f s) :
    writtenHeads s = headsOf f.params f.rest? f.this? := by
  cases h with
  | intro heads => exact (writtenHeads_eq (heads ▸ optional_of_rest)).trans heads

/-- Each signature in a rewritten type is that of a function type before. -/
theorem migrate_outlined (c : TypeContext) (t : FlowType) : (migrate c t).Yields fun u =>
    ∀ v : TsType, v.Within u → ∀ s ∈ v.signatures, ∃ f : FlowType, f.Within t ∧ Outlined f s := by
  have hformed : (migrate c t).Yields
      (Formed (fun _ => True) fun s => ∃ f : FlowType, f.Within t ∧ Outlined f s) :=
    migrate_formed c (fun _ _ => trivial) (fun _ _ _ => .trivial _ fun _ => trivial)
      fun f hf s hs => ⟨f, hf, hs⟩
  exact hformed.mono fun u hu v hv => (hu.within hv).signatures

/-! ## Optional parameters -/

/-- No parameter that may be left out stands before one that may not. -/
def OptionalLast (heads : List ParamHead) : Prop :=
  heads.Pairwise fun p q => p.optional = true → q.optional = true ∨ q.rest = true

instance (heads : List ParamHead) : Decidable (OptionalLast heads) :=
  inferInstanceAs (Decidable (List.Pairwise _ heads))

/-- Only `this` and the rest parameter come to the parameters, of which neither
is marked and only the latter may follow a marked one. -/
theorem optionalLast_headsOf {params : List (FlowParam FlowType)}
    {rest thisParam : Option (FlowParam FlowType)} :
    OptionalLast (headsOf params rest thisParam) ↔
      params.Pairwise fun p q => p.optional = true → q.optional = true := by
  have hmarkers (number : Nat) : (headsFrom number params).map (fun h => (h.optional, h.rest)) =
      params.map fun p => (p.optional, false) := by
    induction params generalizing number with
    | nil => rfl
    | cons p params ih => exact congrArg ((p.optional, false) :: ·) (ih (number + 1))
  have hparams : OptionalLast (headsFrom 1 params) ↔
      params.Pairwise fun p q => p.optional = true → q.optional = true := by
    have hpairwise := congrArg (List.Pairwise fun p q : Bool × Bool =>
      p.1 = true → q.1 = true ∨ q.2 = true) (hmarkers 1)
    rw [List.pairwise_map, List.pairwise_map] at hpairwise
    simpa [OptionalLast] using hpairwise
  have hrest : OptionalLast (headsFrom 1 params ++
      rest.toList.map fun p => ⟨paramName p.name "rest", false, true⟩) ↔
      OptionalLast (headsFrom 1 params) := by
    cases rest <;> simp [OptionalLast, List.pairwise_append]
  rw [← hparams, ← hrest, headsOf, List.append_assoc]
  cases thisParam <;> simp [OptionalLast]

/-- **Optional parameters stay where they were.** A signature, at any depth of a
rewritten type, is that of a function type before, and is written with a marked
parameter before one that has no marker and is no rest parameter if and only if
the function type had one. -/
theorem signatures_ordered (c : TypeContext) (t : FlowType) : (migrate c t).Yields fun u =>
    ∀ v : TsType, v.Within u → ∀ s ∈ v.signatures, ∃ f : FlowType, f.Within t ∧ Outlined f s ∧
      (OptionalLast (writtenHeads s) ↔ f.OptionalLast) := by
  refine (migrate_outlined c t).mono fun u hu v hv s hs => ?_
  obtain ⟨f, hf, houtlined⟩ := hu v hv s hs
  refine ⟨f, hf, houtlined, ?_⟩
  rw [houtlined.written]
  exact optionalLast_headsOf

/-- `(x?: string, y: number) => void` -/
def optionalFirst : FlowType :=
  .function .null
    [⟨.null, some "x", .keyword .null .string, true⟩,
      ⟨.null, some "y", .keyword .null .number, false⟩]
    (.keyword .null .void) none none none

/-- `x` may be left out, and `y` may not. -/
theorem optional_before_required : ∃ u, (migrate ⟨"a.js", "h"⟩ optionalFirst).result = .ok u ∧
    ∃ s ∈ u.signatures, ¬ OptionalLast (writtenHeads s) :=
  ⟨_, rfl, _, List.mem_cons_self, by decide⟩

/-! ## Names -/

/-- The name that was given to a parameter; an empty one counts for nothing. -/
def givenName? (p : FlowParam FlowType) : Option String := p.name.filter (· ≠ "")

/-- The names that were given to the parameters of a function type. -/
def givenNames (f : FlowType) : List String := (f.params ++ f.rest?.toList).filterMap givenName?

/-- The names for the parameters without one, of which the first one has the
given number. -/
def inventedFrom : Nat → List (FlowParam FlowType) → List String
  | _, [] => []
  | number, p :: rest =>
    match givenName? p with
    | some _ => inventedFrom (number + 1) rest
    | none => ("arg" ++ toString number) :: inventedFrom (number + 1) rest

/-- The names that are invented for the parameters of a function type. -/
def inventedNames (f : FlowType) : List String :=
  f.this?.toList.map (fun _ => "this") ++ inventedFrom 1 f.params
    ++ (f.rest?.toList.filter fun p => (givenName? p).isNone).map fun _ => "rest"

theorem paramName_of_given {p : FlowParam FlowType} {name : String} (h : givenName? p = some name)
    (fallback : String) : paramName p.name fallback = name := by
  obtain ⟨hname, hne⟩ := Option.filter_eq_some_iff.1 h
  rw [hname]
  exact if_neg (of_decide_eq_true hne)

theorem paramName_of_not_given {p : FlowParam FlowType} (h : givenName? p = none)
    (fallback : String) : paramName p.name fallback = fallback := by
  unfold givenName? at h
  cases hname : p.name with
  | none => rfl
  | some name =>
    rw [hname] at h
    exact if_pos (by simpa [Option.filter] using h)

theorem names_headsFrom (params : List (FlowParam FlowType)) (number : Nat) :
    ((headsFrom number params).map (·.name)).Perm
      (params.filterMap givenName? ++ inventedFrom number params) := by
  induction params generalizing number with
  | nil => exact .nil
  | cons p params ih =>
    rw [headsFrom, List.map_cons, inventedFrom]
    cases hgiven : givenName? p with
    | some name =>
      rw [List.filterMap_cons_some hgiven]
      simp only [paramName_of_given hgiven]
      exact (ih _).cons name
    | none =>
      rw [List.filterMap_cons_none hgiven]
      simp only [paramName_of_not_given hgiven]
      exact ((ih _).cons _).trans List.perm_middle.symm

/-- Each parameter has the name that was given, or one that was invented. -/
theorem names_headsOf (f : FlowType) : ((headsOf f.params f.rest? f.this?).map (·.name)).Perm
    (givenNames f ++ inventedNames f) := by
  have hparams := names_headsFrom f.params 1
  have hrest : f.rest?.toList.map (fun p => paramName p.name "rest") =
      f.rest?.toList.filterMap givenName? ++
        (f.rest?.toList.filter fun p => (givenName? p).isNone).map fun _ => "rest" := by
    cases f.rest? with
    | none => rfl
    | some p =>
      cases hgiven : givenName? p with
      | some name => simp [hgiven, paramName_of_given hgiven]
      | none => simp [hgiven, paramName_of_not_given hgiven]
  rw [List.perm_iff_count] at hparams ⊢
  intro name
  have hcount := hparams name
  simp only [headsOf, givenNames, inventedNames, List.map_append, List.map_map,
    List.filterMap_append, Function.comp_def, hrest, List.count_append] at hcount ⊢
  omega

/-- What is invented for a parameter says its number. -/
theorem mem_inventedFrom {number : Nat} {params : List (FlowParam FlowType)} {name : String}
    (h : name ∈ inventedFrom number params) : ∃ k, number ≤ k ∧ name = "arg" ++ toString k := by
  induction params generalizing number with
  | nil => cases h
  | cons p params ih =>
    have hlater (h : name ∈ inventedFrom (number + 1) params) :
        ∃ k, number ≤ k ∧ name = "arg" ++ toString k :=
      (ih h).imp fun _ hk => hk.imp_left Nat.le_of_succ_le
    rw [inventedFrom] at h
    split at h
    · exact hlater h
    · rcases List.mem_cons.1 h with rfl | h
      · exact ⟨number, Nat.le_refl _, rfl⟩
      · exact hlater h

theorem arg_toString_inj {m n : Nat} (h : "arg" ++ toString m = "arg" ++ toString n) : m = n := by
  have hdigits : Nat.toDigits 10 m = Nat.toDigits 10 n := by
    have htext := String.toList_inj.2 h
    simpa [Nat.repr] using htext
  rw [← Nat.ofDigitChars_toDigits (by decide : 1 < 10) (by decide) (n := m), hdigits,
    Nat.ofDigitChars_toDigits (by decide) (by decide)]

theorem inventedFrom_nodup (params : List (FlowParam FlowType)) (number : Nat) :
    (inventedFrom number params).Nodup := by
  induction params generalizing number with
  | nil => exact .nil
  | cons p params ih =>
    rw [inventedFrom]
    split
    · exact ih _
    · refine List.nodup_cons.2 ⟨fun hmem => ?_, ih _⟩
      -- the later ones have greater numbers
      obtain ⟨k, hk, heq⟩ := mem_inventedFrom hmem
      exact Nat.ne_of_lt hk (arg_toString_inj heq)

theorem not_mem_inventedFrom (name : String) (h : name.toList.head? ≠ some 'a') (number : Nat)
    (params : List (FlowParam FlowType)) : name ∉ inventedFrom number params := by
  intro hmem
  obtain ⟨k, -, rfl⟩ := mem_inventedFrom hmem
  exact h (by simp)

theorem inventedNames_nodup (f : FlowType) : (inventedNames f).Nodup := by
  have hthis := not_mem_inventedFrom "this" (by decide) 1 f.params
  have hrest := not_mem_inventedFrom "rest" (by decide) 1 f.params
  have hall : (["this"] ++ inventedFrom 1 f.params ++ ["rest"]).Nodup := by
    refine List.nodup_append.2 ⟨List.nodup_cons.2 ⟨hthis, inventedFrom_nodup f.params 1⟩,
      List.nodup_cons.2 ⟨nofun, .nil⟩, ?_⟩
    rintro name hname _ hother rfl
    obtain rfl := List.mem_singleton.1 hother
    exact (List.mem_cons.1 hname).elim (by decide) hrest
  -- one of the two that frame the names may be missing
  refine hall.sublist (.append (.append ?_ (.refl _)) ?_)
  · cases f.this? <;> simp
  · have hone : (f.rest?.toList.map fun _ => "rest").Sublist ["rest"] := by cases f.rest? <;> simp
    exact (List.filter_sublist.map _).trans hone

/-- **Names stay distinct unless one that was given is invented again.** The
names in a signature, at any depth of a rewritten type, are those of a function
type before. They are distinct if and only if those that were given there are,
and none of them is one of `this`, `rest` and `arg` with a number that is
invented in the same place. -/
theorem names_stay_distinct (c : TypeContext) (t : FlowType) : (migrate c t).Yields fun u =>
    ∀ v : TsType, v.Within u → ∀ s ∈ v.signatures, ∃ f : FlowType, f.Within t ∧ Outlined f s ∧
      (((writtenHeads s).map (·.name)).Nodup ↔
        (givenNames f).Nodup ∧ ∀ name ∈ givenNames f, name ∉ inventedNames f) := by
  refine (migrate_outlined c t).mono fun u hu v hv s hs => ?_
  obtain ⟨f, hf, houtlined⟩ := hu v hv s hs
  refine ⟨f, hf, houtlined, ?_⟩
  rw [houtlined.written, (names_headsOf f).nodup_iff, List.nodup_append]
  refine and_congr_right fun _ =>
    ⟨fun h name hname hmem => h.2 name hname name hmem rfl, fun h => ?_⟩
  refine ⟨inventedNames_nodup f, fun name hname other hother heq => ?_⟩
  exact h name hname (heq ▸ hother)

/-- `(string, arg1: number) => void` -/
def nameTaken : FlowType :=
  .function .null
    [⟨.null, none, .keyword .null .string, false⟩,
      ⟨.null, some "arg1", .keyword .null .number, false⟩]
    (.keyword .null .void) none none none

/-- Only one name is given, and both parameters get it. -/
theorem name_invented_twice : (givenNames nameTaken).Nodup ∧
    ∃ u, (migrate ⟨"a.js", "h"⟩ nameTaken).result = .ok u ∧
      ∃ s ∈ u.signatures, ¬ ((writtenHeads s).map (·.name)).Nodup :=
  ⟨by decide, _, rfl, _, List.mem_cons_self, by decide⟩

end Migration

end Retype
