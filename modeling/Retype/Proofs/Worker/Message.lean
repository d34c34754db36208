import Retype.Proofs.Json.RoundTrip
import Retype.Worker.Message
/-!
# Messages read back

The object that is written for a report or a message stands for that report
or message, and it is one that JSON gives back as it is. Only a report that
counts an alias twice has no such object, since it would give a key twice.
-/

namespace Retype

namespace Validated

variable {α β : Type}

/-- A list whose items are read back as they were written is read back. -/
theorem mapM_map {read : β → Validated α} {write : α → β} (h : ∀ a, read (write a) = some a)
    (as : List α) : (as.map write).mapM read = some as := by
  induction as with
  | nil => rfl
  | cons a as ih => simp only [List.map_cons, List.mapM_cons, h, ih]; rfl

/-- So is a list in a message. -/
theorem list_map {item : Json → Validated α} {write : α → Json}
    (h : ∀ a, item (write a) = some a) (as : List α) : list item (.arr (as.map write)) = some as :=
  mapM_map h as

/-- So is a list of texts. -/
theorem list_text_map (texts : List String) :
    list text (.arr (texts.map Json.str)) = some texts := by
  refine list_map (fun s => ?_) texts
  rfl

end Validated

namespace Json

/-- Items that are written plainly make a plain list. -/
theorem arePlain_map {α : Type} {f : α → Json} (h : ∀ a, (f a).isPlain) (as : List α) :
    arePlain (as.map f) := by
  induction as with
  | nil => rfl
  | cons a as ih => simp [arePlain, h a, ih]

/-- So do entries. -/
theorem entriesPlain_map {α : Type} {f : α → String × Json} (h : ∀ a, (f a).2.isPlain)
    (as : List α) : entriesPlain (as.map f) := by
  induction as with
  | nil => rfl
  | cons a as ih => simp [entriesPlain, h a, ih]

end Json

/-- A position is read back as it was written. -/
theorem Position.ofJson?_toJson (p : Position) : Position.ofJson? p.toJson = some p := by
  simp [Position.ofJson?, Position.toJson, Validated.field, Json.get?, Entries.get?, Validated.int]

/-- So is a location. -/
theorem Location.ofJson?_toJson (l : Location) : Location.ofJson? l.toJson = some l := by
  simp [Location.ofJson?, Location.toJson, Validated.field, Json.get?, Entries.get?,
    Validated.text, Position.ofJson?_toJson]

namespace Report

variable (r : Report)

/-- A report has a field for each category. -/
theorem get?_toJson (c : Category) : r.toJson.get? c.name = some (r.categoryJson c) := by
  rcases c with (_ | _) | (_ | _ | _ | _ | _) | _ | _ <;>
    simp [toJson, Category.all, Category.name, Json.get?, Entries.get?]

/-- Counts are read back as they were written. -/
theorem countsOfJson?_map (usage : List (String × Int)) :
    countsOfJson? (.obj (usage.map fun (name, count) => (name, Json.int count))) = some usage := by
  rw [countsOfJson?]
  refine Validated.mapM_map (fun entry => ?_) usage
  rfl

/-- A category that is read back needs no default. -/
theorem fieldOr_category {α : Type} {read : Json → Validated α} (c : Category) (default a : α)
    (h : read (r.categoryJson c) = some a) :
    Validated.fieldOr default read r.toJson c.name = some a := by
  rw [Validated.fieldOr, get?_toJson]
  exact h

/-- **A report is read back from its object.** -/
theorem ofJson?_toJson : ofJson? r.toJson = some r := by
  have hpaths : ∀ c, Validated.fieldOr [] (Validated.list Validated.text) r.toJson
      (Category.path c).name = some (r.files c) := fun c =>
    r.fieldOr_category (.path c) [] _ (Validated.list_text_map _)
  have hplaces : ∀ c, Validated.fieldOr [] (Validated.list Location.ofJson?) r.toJson
      (Category.place c).name = some (r.places c) := fun c =>
    r.fieldOr_category (.place c) [] _ (Validated.list_map Location.ofJson?_toJson _)
  have husage := r.fieldOr_category .anyAliasUsage [] _ (countsOfJson?_map r.aliasUsage)
  have hutilities := r.fieldOr_category .unrecognizedUtilityTypes [] _ (Validated.list_text_map _)
  rw [toJson] at hpaths hplaces husage hutilities ⊢
  simp only [ofJson?, hpaths, hplaces, husage, hutilities]
  refine congrArg some (Eq.trans ?_
    (rfl : (⟨r.files, r.places, r.aliasUsage, r.utilityTypes⟩ : Report) = r))
  congr 1 <;> funext c <;> cases c <;> rfl

/-- Whether a report counts every alias once. -/
def CountsOnce : Prop := (r.aliasUsage.map (·.1)).Nodup

variable {r}

/-- A location is written plainly. -/
theorem isPlain_location (l : Location) : l.toJson.isPlain := by
  simp [Location.toJson, Position.toJson, Json.isPlain, Json.entriesPlain]

/-- So is a category, if no name is counted twice. -/
theorem isPlain_categoryJson (h : r.CountsOnce) (c : Category) : (r.categoryJson c).isPlain := by
  cases c with
  | path c => exact Json.arePlain_map (fun _ => rfl) _
  | place c => exact Json.arePlain_map isPlain_location _
  | anyAliasUsage =>
    have hnames :
        ((r.aliasUsage.map fun (name, count) => (name, Json.int count)).map (·.1)).Nodup := by
      rw [List.map_map]
      exact h
    rw [categoryJson, Json.isPlain, decide_eq_true hnames, Bool.true_and]
    exact Json.entriesPlain_map (fun _ => rfl) _
  | unrecognizedUtilityTypes => exact Json.arePlain_map (fun _ => rfl) _

/-- So is a report. -/
theorem isPlain_toJson (h : r.CountsOnce) : r.toJson.isPlain := by
  have hnames : ((Category.all.map fun c => (c.name, r.categoryJson c)).map (·.1)).Nodup := by
    rw [List.map_map]
    exact (by decide : (Category.all.map Category.name).Nodup)
  rw [toJson, Json.isPlain, decide_eq_true hnames, Bool.true_and]
  exact Json.entriesPlain_map (isPlain_categoryJson h) _

end Report

namespace Message

/-- **A message is read back from its object.** -/
theorem ofJson?_toJson (m : Message) : ofJson? m.toJson = some m := by
  cases m with
  | batch files =>
    simp [toJson, ofJson?, Json.get?, Entries.get?, Validated.field, Validated.list_text_map]
  | next => simp [toJson, ofJson?, Json.get?, Entries.get?]
  | reportRequest => simp [toJson, ofJson?, Json.get?, Entries.get?]
  | report data =>
    simp [toJson, ofJson?, Json.get?, Entries.get?, Validated.field, Report.ofJson?_toJson]

/-- A message whose report, if it has one, counts every alias once. -/
def CountsOnce : Message → Prop
  | report data => data.CountsOnce
  | _ => True

/-- So is a message. -/
theorem isPlain_toJson {m : Message} (h : m.CountsOnce) : m.toJson.isPlain := by
  cases m with
  | batch files =>
    have hfiles : Json.arePlain (files.map Json.str) := Json.arePlain_map (fun _ => rfl) files
    simp [toJson, Json.isPlain, Json.entriesPlain, hfiles]
  | next => rfl
  | reportRequest => rfl
  | report data =>
    simp [toJson, Json.isPlain, Json.entriesPlain, Report.isPlain_toJson h]

/-- A message is an object. -/
theorem isObject_toJson (m : Message) : m.toJson.isObject := by
  cases m <;> rfl

end Message

end Retype
