import VerifierCI.Models.Conversion

/-! # What conforms to a declaration

A JSON value conforms to a declaration when every declared field is there, nothing
else is, and the members conform to the types of their fields. What stands for a
datetime and what may stand under `Any` is a parameter.
-/

namespace VerifierCI

open Python

namespace TypeHint

section Conforms

variable (isDatetime : WideString → Bool) (walks : WideJson → Bool)

mutual

/-- Does a JSON value conform to a declaration? -/
def conforms : TypeHint → WideJson → Bool
  | .any, value => walks value
  | .bool, .bool _ => true
  | .int, .int _ => true
  | .float, value => (numberOf PyFloat.ofInt? value).isSome
  | .str, .str _ => true
  | .datetime, .str text => isDatetime text
  | .literal values, .str text => values.any fun allowed => text == wide allowed
  | .optional _, .null => true
  | .optional alternative, value => alternative.conforms value
  | .tuple item, .arr items => items.all item.conforms
  | .mapping entry, .obj members => members.all fun member => entry.conforms member.2
  | .dataclass _ fields, .obj members =>
      members.all (fun member => fields.any fun field => member.1 == wide field.1) &&
        fieldsConform fields members
  | _, _ => false

/-- Is every declared field there, with a supported version if it is the schema's? -/
def fieldsConform : List (String × TypeHint) → List (WideString × WideJson) → Bool
  | [], _ => true
  | (name, hint) :: rest, members =>
      (match members.lookup (wide name) with
      | none => false
      | some value =>
          hint.conforms value && (name != "schema_version" || isSchemaVersion value)) &&
        fieldsConform rest members

end

end Conforms

mutual

def datetimeTexts : TypeHint → WideJson → List WideString
  | .datetime, .str text => [text]
  | .optional alternative, value => alternative.datetimeTexts value
  | .tuple item, .arr items => items.flatMap item.datetimeTexts
  | .mapping entry, .obj members => members.flatMap fun member => entry.datetimeTexts member.2
  | .dataclass _ fields, .obj members => fieldsTexts fields members
  | _, _ => []

def fieldsTexts : List (String × TypeHint) → List (WideString × WideJson) → List WideString
  | [], _ => []
  | (name, hint) :: rest, members =>
      (match members.lookup (wide name) with
      | none => []
      | some value => hint.datetimeTexts value) ++ fieldsTexts rest members

end

section Fields

variable {isDatetime : WideString → Bool} {walks : WideJson → Bool}
  {fields : List (String × TypeHint)} {members : List (WideString × WideJson)}

attribute [local simp] conforms fieldsConform datetimeTexts

/-- The recursive test over the declared fields, as a statement about each of them. -/
theorem fieldsConform_iff :
    fieldsConform isDatetime walks fields members = true ↔
      ∀ field ∈ fields, ∃ value, members.lookup (wide field.1) = some value ∧
        field.2.conforms isDatetime walks value = true ∧
        (field.1 = "schema_version" → isSchemaVersion value = true) := by
  induction fields with
  | nil => simp
  | cons field rest ih =>
      obtain ⟨name, hint⟩ := field
      rw [fieldsConform, Bool.and_eq_true, ih, List.forall_mem_cons]
      apply and_congr_left'
      cases members.lookup (wide name) with
      | none => simp
      | some value =>
          simp only [Bool.and_eq_true, Bool.or_eq_true, bne_iff_ne, Option.some_inj,
            exists_eq_left', imp_iff_not_or, ne_eq]

/-- An object conforms to a dataclass if it has exactly the declared fields and each of them
conforms. -/
theorem conforms_dataclass_iff {cls : String} :
    (dataclass cls fields).conforms isDatetime walks (.obj members) = true ↔
      (∀ member ∈ members, ∃ field ∈ fields, member.1 = wide field.1) ∧
        ∀ field ∈ fields, ∃ value, members.lookup (wide field.1) = some value ∧
          field.2.conforms isDatetime walks value = true ∧
          (field.1 = "schema_version" → isSchemaVersion value = true) := by
  rw [conforms, Bool.and_eq_true, fieldsConform_iff]
  simp only [List.all_eq_true, List.any_eq_true, beq_iff_eq]

theorem datetimeTexts_null (hint : TypeHint) : hint.datetimeTexts .null = [] := by
  induction hint using ind with
  | optional alternative ih => exact ih
  | _ => rfl

end Fields

/-! ## Datetimes text by text -/

section Texts

variable (isDatetime : WideString → Bool) (walks : WideJson → Bool)

/-- The check of a value is that of its shape and of the texts in it. -/
def SplitsTexts (hint : TypeHint) : Prop :=
  ∀ value, hint.conforms isDatetime walks value =
    (hint.conforms (fun _ => true) walks value &&
      (hint.datetimeTexts value).all isDatetime)

variable {isDatetime walks}

theorem all_of_splits {α : Type} {items : List α} {p q : α → Bool} {texts : α → List WideString}
    (h : ∀ item ∈ items, p item = (q item && (texts item).all isDatetime)) :
    items.all p = (items.all q && (items.flatMap texts).all isDatetime) := by
  induction items with
  | nil => rfl
  | cons item rest ih =>
      rw [List.forall_mem_cons] at h
      rw [List.all_cons, List.all_cons, List.flatMap_cons, List.all_append, h.1, ih h.2]
      simp only [Bool.and_assoc, Bool.and_left_comm]

theorem fieldsConform_splits {fields : List (String × TypeHint)}
    (h : ∀ field ∈ fields, SplitsTexts isDatetime walks field.2)
    (members : List (WideString × WideJson)) :
    fieldsConform isDatetime walks fields members =
      (fieldsConform (fun _ => true) walks fields members &&
        (fieldsTexts fields members).all isDatetime) := by
  induction fields with
  | nil => rfl
  | cons field rest ih =>
      obtain ⟨name, hint⟩ := field
      rw [List.forall_mem_cons] at h
      rw [fieldsConform, fieldsConform, fieldsTexts, List.all_append, ih h.2]
      cases members.lookup (wide name) with
      | none => rfl
      | some value =>
          have hvalue : hint.conforms isDatetime walks value = _ := h.1 value
          dsimp only
          rw [hvalue]
          simp only [Bool.and_assoc, Bool.and_left_comm]

/-- By induction on the declaration: the texts that stand for datetimes can be tested apart from
everything else. -/
theorem splitsTexts (isDatetime : WideString → Bool) (walks : WideJson → Bool)
    (hint : TypeHint) : SplitsTexts isDatetime walks hint := by
  induction hint using ind with
  | any => exact fun value => (Bool.and_true _).symm
  | float => exact fun value => (Bool.and_true _).symm
  | optional alternative ih =>
      intro value
      cases value with
      | null =>
          rw [datetimeTexts, datetimeTexts_null]
          rfl
      | _ => exact ih _
  | tuple item ih =>
      intro value
      cases value with
      | arr items => exact all_of_splits fun item _ => ih item
      | _ => rfl
  | mapping entry ih =>
      intro value
      cases value with
      | obj members => exact all_of_splits fun member _ => ih member.2
      | _ => rfl
  | dataclass name fields ih =>
      intro value
      cases value with
      | obj members =>
          rw [conforms, conforms, datetimeTexts, fieldsConform_splits ih, Bool.and_assoc]
      | _ => rfl
  | datetime =>
      intro value
      cases value with
      | str text => simp [conforms, datetimeTexts]
      | _ => rfl
  | literal values =>
      intro value
      cases value with
      | str text => exact (Bool.and_true _).symm
      | _ => rfl
  | _ =>
      intro value
      cases value <;> rfl

end Texts

end TypeHint

/-! ## Converting what conforms -/

def Interpreter.isAware (interpreter : Interpreter) (text : WideString) : Bool :=
  (interpreter.fromIsoformat text).any fun date => date.utcoffset.isSome

/-- What the conversion takes for a datetime: a text that is one with every `Z` replaced. -/
def Interpreter.readsDatetime (interpreter : Interpreter) (text : WideString) : Bool :=
  interpreter.isAware (replaceZ text)

/-- What the conversion can walk through under `Any`. -/
def Interpreter.walks (interpreter : Interpreter) (value : WideJson) : Bool :=
  interpreter.converts value.skeleton

section Accepts

variable (interpreter : Interpreter)

/-- The conversion succeeds on what conforms, and on nothing else. -/
def AcceptsConforming (hint : TypeHint) : Prop :=
  ∀ value, (∃ converted, convertField interpreter hint value = .ok converted) ↔
    hint.conforms interpreter.readsDatetime interpreter.walks value = true

variable {interpreter}

attribute [local simp] TypeHint.conforms

/-- The conversion of a text is the one parser the test is given as well. -/
theorem accepts_datetime : AcceptsConforming interpreter .datetime := by
  intro value
  simp only [convertField_datetime_ok_iff]
  cases value with
  | str text =>
      simp only [WideJson.str.injEq, TypeHint.conforms, Interpreter.readsDatetime,
        Interpreter.isAware, Option.any_eq_true]
      constructor
      · rintro ⟨_, _, date, rfl, hdate, haware, _⟩
        exact ⟨date, hdate, haware⟩
      · rintro ⟨date, hdate, haware⟩
        exact ⟨_, text, date, rfl, hdate, haware, rfl⟩
  | _ => simp

theorem accepts_float : AcceptsConforming interpreter .float := by
  intro value
  simp only [convertField_float_ok_iff]
  rw [TypeHint.conforms, Option.isSome_iff_exists]
  constructor
  · rintro ⟨_, x, hx, _⟩
    exact ⟨x, hx⟩
  · rintro ⟨x, hx⟩
    exact ⟨_, x, hx, rfl⟩

theorem accepts_literal (values : List String) :
    AcceptsConforming interpreter (.literal values) := by
  intro value
  simp only [convertField_literal_ok_iff]
  cases value with
  | str text => simp
  | _ => simp

variable {item : TypeHint}

theorem AcceptsConforming.optional (h : AcceptsConforming interpreter item) :
    AcceptsConforming interpreter (.optional item) := by
  intro value
  cases value with
  | null => simp [convertField_optional_eq]
  | _ => exact h _

theorem AcceptsConforming.tuple (h : AcceptsConforming interpreter item) :
    AcceptsConforming interpreter (.tuple item) := by
  intro value
  simp only [convertField_tuple_ok_iff]
  cases value with
  | arr items =>
      simp only [TypeHint.conforms, List.all_eq_true, ← h _]
      constructor
      · rintro ⟨_, _, results, ⟨rfl⟩, hresults, _⟩ item hitem
        obtain ⟨result, _, hresult⟩ := exists_of_mem_forall₂ hresults hitem
        exact ⟨result, hresult⟩
      · intro hitems
        obtain ⟨results, hresults⟩ := exists_forall₂ hitems
        exact ⟨_, items, results, rfl, hresults, rfl⟩
  | _ => simp

theorem AcceptsConforming.mapping (h : AcceptsConforming interpreter item) :
    AcceptsConforming interpreter (.mapping item) := by
  intro value
  simp only [convertField_mapping_ok_iff]
  cases value with
  | obj members =>
      simp only [TypeHint.conforms, List.all_eq_true, ← h _]
      constructor
      · rintro ⟨_, _, entries, ⟨rfl⟩, hentries, _⟩ member hmember
        obtain ⟨entry, _, _, hentry⟩ := exists_of_mem_forall₂ hentries hmember
        exact ⟨entry.2, hentry⟩
      · intro hmembers
        have hrows : ∀ member ∈ members, ∃ entry : WideString × Value, entry.1 = member.1 ∧
            convertField interpreter item member.2 = .ok entry.2 := by
          intro member hmember
          obtain ⟨converted, hconverted⟩ := hmembers member hmember
          exact ⟨(member.1, converted), rfl, hconverted⟩
        obtain ⟨entries, hentries⟩ := exists_forall₂ hrows
        exact ⟨_, members, entries, rfl, hentries, rfl⟩
  | _ => simp

/-- The keys are checked before any field is converted, and the version where it is declared.
What is left is asked of each field by itself, and the hypothesis on its hint answers it. -/
theorem instantiateDataclass_accepts {cls : String} {fields : List (String × TypeHint)}
    (h : ∀ field ∈ fields, AcceptsConforming interpreter field.2) (value : WideJson) :
    (∃ converted, instantiateDataclass interpreter cls fields value = .ok converted) ↔
      (TypeHint.dataclass cls fields).conforms interpreter.readsDatetime interpreter.walks value =
        true := by
  simp only [instantiateDataclass_ok_iff, checkKeys_ok_iff, convertFields_ok_iff]
  cases value with
  | obj members =>
      rw [TypeHint.conforms_dataclass_iff]
      constructor
      · rintro ⟨_, _, slots, ⟨rfl⟩, ⟨hversion, hdeclared⟩, hslots, _⟩
        refine ⟨fun member hmember => ?_, fun field hfield => ?_⟩
        · obtain ⟨name, hname, hkey⟩ := hdeclared member hmember
          obtain ⟨field, hfield, rfl⟩ := List.mem_map.mp hname
          exact ⟨field, hfield, hkey⟩
        · obtain ⟨slot, _, _, found, hfound, hconverted⟩ := exists_of_mem_forall₂ hslots hfield
          refine ⟨found, hfound, (h field hfield found).mp ⟨slot.2, hconverted⟩, ?_⟩
          intro hname
          rw [hname] at hfound
          exact hversion found hfound
      · rintro ⟨hdeclared, hfields⟩
        have hslots : ∀ field ∈ fields, ∃ slot : String × Value, slot.1 = field.1 ∧ ∃ found,
            members.lookup (wide field.1) = some found ∧
              convertField interpreter field.2 found = .ok slot.2 := by
          intro field hfield
          obtain ⟨found, hfound, hconforms, _⟩ := hfields field hfield
          obtain ⟨converted, hconverted⟩ := (h field hfield found).mpr hconforms
          exact ⟨(field.1, converted), rfl, found, hfound, hconverted⟩
        obtain ⟨slots, hslots⟩ := exists_forall₂ hslots
        refine ⟨_, members, slots, rfl, ⟨fun version hversion => ?_, fun member hmember => ?_⟩,
          hslots, rfl⟩
        · obtain ⟨field, hfield, hkey⟩ := hdeclared _ (mem_of_lookup_eq hversion)
          obtain ⟨found, hfound, _, hsupported⟩ := hfields field hfield
          rw [← hkey, hversion] at hfound
          obtain rfl := Option.some.inj hfound
          exact hsupported (wide_injective hkey).symm
        · obtain ⟨field, hfield, hkey⟩ := hdeclared member hmember
          exact ⟨field.1, List.mem_map_of_mem hfield, hkey⟩
  | _ => simp

/-- By induction on the declaration, with one lemma for each kind of hint. -/
theorem acceptsConforming (hint : TypeHint) : AcceptsConforming interpreter hint := by
  induction hint using TypeHint.ind with
  | any =>
      intro value
      simp [convertField_any_ok_iff, Interpreter.walks]
  | bool =>
      intro value
      simp only [convertField_bool_ok_iff]
      cases value <;> simp
  | int =>
      intro value
      simp only [convertField_int_ok_iff]
      cases value <;> simp
  | float => exact accepts_float
  | str =>
      intro value
      simp only [convertField_str_ok_iff]
      cases value <;> simp
  | datetime => exact accepts_datetime
  | literal values => exact accepts_literal values
  | optional alternative ih => exact ih.optional
  | tuple item ih => exact ih.tuple
  | mapping entry ih => exact ih.mapping
  | dataclass cls fields ih =>
      intro value
      simp only [convertField_dataclass_ok_iff]
      exact instantiateDataclass_accepts ih value

end Accepts

end VerifierCI
