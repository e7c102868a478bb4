import VerifierCI.Models.Conformance

/-! # Room for a conversion

A conversion can run out of frames: it walks through what stands under `Any`, and the
message about a value that is no text where a literal is declared spells the value out.
It ends at the first part that does not conform, and what comes after it takes no room.
-/

namespace VerifierCI

open Python

/-- Whether a conversion returns or raises a `ValidationError`. -/
def foreseen {α : Type} : Except DecodeError α → Bool
  | .ok _ => true
  | .error error => error.isValidationError

section Foreseen

variable {α β : Type}

@[simp] theorem foreseen_ok (a : α) : foreseen (.ok a) = true := rfl

@[simp] theorem foreseen_error (error : DecodeError) :
    foreseen (.error error : Except DecodeError α) = error.isValidationError := rfl

theorem foreseen_of_validates {convert : WideJson → Except DecodeError Value}
    (h : Validates convert) (value : WideJson) : foreseen (convert value) = true := by
  cases hvalue : convert value with
  | ok converted => rfl
  | error error => exact h value error hvalue

/-- What is done with a result that is always fine adds no errors. -/
theorem foreseen_bind_ok (x : Except DecodeError α) (f : α → β) :
    foreseen (x >>= fun a => .ok (f a)) = foreseen x := by
  cases x <;> rfl

/-- Items are tested one after the other, up to the first one refused. -/
def untilRefused (accepted test : α → Bool) : List α → Bool
  | [] => true
  | item :: rest => test item && (!accepted item || untilRefused accepted test rest)

/-- A mapping over items stops at the first one that is refused, and so does the test. -/
theorem foreseen_mapM {accepted test : α → Bool} {f : α → Except DecodeError β} {items : List α}
    (haccepted : ∀ item, (∃ result, f item = .ok result) ↔ accepted item = true)
    (htest : ∀ item, foreseen (f item) = test item) :
    foreseen (items.mapM f) = untilRefused accepted test items := by
  induction items with
  | nil => rfl
  | cons item rest ih =>
      rw [List.mapM_cons, untilRefused, ← htest]
      cases hitem : f item with
      | ok result =>
          rw [(haccepted item).mp ⟨result, hitem⟩, ← ih]
          exact foreseen_bind_ok (rest.mapM f) _
      | error error =>
          have hrefused : accepted item = false := by
            rw [← Bool.not_eq_true, ← haccepted]
            rintro ⟨result, hresult⟩
            rw [hitem] at hresult
            cases hresult
          rw [hrefused, Bool.not_false, Bool.true_or, Bool.and_true]
          rfl

/-- What makes no difference to the items that are tested makes none to all of them. -/
theorem all_congr_of_untilRefused {accepted test other : α → Bool} {items : List α}
    (h : untilRefused accepted test items = true)
    (hitems : ∀ item, test item = true → accepted item = other item) :
    items.all accepted = items.all other := by
  induction items with
  | nil => rfl
  | cons item rest ih =>
      rw [untilRefused, Bool.and_eq_true] at h
      rw [List.all_cons, List.all_cons, ← hitems item h.1]
      cases hitem : accepted item with
      | false => rfl
      | true =>
          rw [hitem, Bool.not_true, Bool.false_or] at h
          rw [ih h.2]

end Foreseen

def keysConform (names : List String) (members : List (WideString × WideJson)) : Bool :=
  (members.lookup (wide "schema_version")).all isSchemaVersion &&
    members.all fun member => names.any fun name => member.1 == wide name

theorem keysConform_iff {cls : String} {names : List String}
    {members : List (WideString × WideJson)} :
    keysConform names members = true ↔ checkKeys cls names members = .ok () := by
  rw [checkKeys_ok_iff, keysConform, Bool.and_eq_true, Option.all_eq_true]
  simp only [List.all_eq_true, List.any_eq_true, beq_iff_eq]

namespace TypeHint

section Manageable

variable (interpreter : Interpreter)

mutual

/-- Is there room for the conversion of a value, which ends at the first part that does not
conform? A value under `Any` is walked through, and one that is no text where a literal is
declared is spelled out. -/
def manageable : TypeHint → WideJson → Bool
  | .any, value => interpreter.walks value
  | .literal _, .null => true
  | .literal _, .str _ => true
  | .literal _, value => interpreter.formats value.skeleton
  | .optional _, .null => true
  | .optional alternative, value => alternative.manageable value
  | .tuple item, .arr items =>
      untilRefused (item.conforms interpreter.readsDatetime interpreter.walks) item.manageable items
  | .mapping entry, .obj members =>
      untilRefused
        (fun member => entry.conforms interpreter.readsDatetime interpreter.walks member.2)
        (fun member => entry.manageable member.2) members
  | .dataclass _ fields, .obj members =>
      !keysConform (fields.map Prod.fst) members || fieldsManageable fields members
  | _, _ => true

def fieldsManageable : List (String × TypeHint) → List (WideString × WideJson) → Bool
  | [], _ => true
  | (name, hint) :: rest, members =>
      match members.lookup (wide name) with
      | none => true
      | some value =>
          hint.manageable value &&
            (!hint.conforms interpreter.readsDatetime interpreter.walks value ||
              fieldsManageable rest members)

end

end Manageable

end TypeHint

/-! ## Conversions that are followed to their end -/

section Followed

variable {interpreter : Interpreter}

/-- Without room to spell a value out, the error is another one. -/
theorem isValidationError_spelling {found : WideJson} {error : DecodeError}
    (h : error.isValidationError = true) :
    (interpreter.spelling found error).isValidationError =
      interpreter.formats found.skeleton := by
  rw [Interpreter.spelling]
  cases interpreter.formats found.skeleton with
  | false => rfl
  | true => exact h

/-- A conversion raises `RecursionError` exactly where there is no room for it. -/
def Follows (interpreter : Interpreter) (hint : TypeHint) : Prop :=
  ∀ value, foreseen (convertField interpreter hint value) = hint.manageable interpreter value

/-- Fields are converted in the order of the declarations, and a version is checked behind its
conversion. -/
theorem foreseen_convertFields {cls : String} {fields : List (String × TypeHint)}
    (h : ∀ field ∈ fields, Follows interpreter field.2)
    (members : List (WideString × WideJson)) :
    foreseen (convertFields interpreter cls fields members) =
      TypeHint.fieldsManageable interpreter fields members := by
  induction fields with
  | nil => rfl
  | cons field rest ih =>
      obtain ⟨name, hint⟩ := field
      rw [List.forall_mem_cons] at h
      rw [convertFields, TypeHint.fieldsManageable]
      cases members.lookup (wide name) with
      | none => rfl
      | some value =>
          have hvalue : foreseen (convertField interpreter hint value) =
              hint.manageable interpreter value := h.1 value
          dsimp only
          rw [← hvalue, ← ih h.2]
          cases hconvert : convertField interpreter hint value with
          | ok converted =>
              rw [(acceptsConforming hint value).mp ⟨converted, hconvert⟩]
              exact foreseen_bind_ok (convertFields interpreter cls rest members) _
          | error error =>
              have hrefused : hint.conforms interpreter.readsDatetime interpreter.walks value =
                  false := by
                rw [← Bool.not_eq_true, ← acceptsConforming hint value]
                rintro ⟨converted, hconverted⟩
                rw [hconvert] at hconverted
                cases hconverted
              rw [hrefused, Bool.not_false, Bool.true_or, Bool.and_true]
              rfl

/-- Keys that are refused end the instantiation before any value is looked at. -/
theorem foreseen_instantiate {cls : String} {fields : List (String × TypeHint)}
    (h : ∀ field ∈ fields, Follows interpreter field.2) (value : WideJson) :
    foreseen (instantiateDataclass interpreter cls fields value) =
      (TypeHint.dataclass cls fields).manageable interpreter value := by
  cases value with
  | obj members =>
      rw [TypeHint.manageable, ← foreseen_convertFields h]
      cases hkeys : checkKeys cls (fields.map Prod.fst) members with
      | ok _ =>
          rw [keysConform_iff.mpr hkeys, Bool.not_true, Bool.false_or, instantiateDataclass,
            instantiateWith, hkeys]
          exact foreseen_bind_ok (convertFields interpreter cls fields members) _
      | error error =>
          have hrefused : keysConform (fields.map Prod.fst) members = false := by
            rw [← Bool.not_eq_true, @keysConform_iff cls, hkeys]
            intro haccepted
            cases haccepted
          rw [hrefused, Bool.not_false, Bool.true_or, instantiateDataclass, instantiateWith, hkeys]
          exact checkKeys_validates hkeys
  | _ => rfl

/-- By induction on the declaration. Only a literal and `Any` need frames of their own; the
others pass on what their parts need. -/
theorem follows (hint : TypeHint) : Follows interpreter hint := by
  induction hint using TypeHint.ind with
  | any =>
      intro value
      rw [convertField, TypeHint.manageable, Interpreter.walks]
      cases interpreter.converts value.skeleton <;> rfl
  | bool =>
      intro value
      rw [convertField, foreseen_of_validates (nonNull_validates convertBool_validates)]
      cases value <;> rfl
  | int =>
      intro value
      rw [convertField, foreseen_of_validates (nonNull_validates convertInt_validates)]
      cases value <;> rfl
  | float =>
      intro value
      rw [convertField, convertFloat_eq,
        foreseen_of_validates (nonNull_validates (convertNumber_validates _))]
      cases value <;> rfl
  | str =>
      intro value
      rw [convertField, foreseen_of_validates (nonNull_validates convertStr_validates)]
      cases value <;> rfl
  | datetime =>
      intro value
      rw [convertField,
        foreseen_of_validates (nonNull_validates (convertDatetime_validates interpreter))]
      cases value <;> rfl
  -- A refused literal is spelled into the message, which is what may lack the room.
  | literal values =>
      intro value
      rw [convertField]
      cases value with
      | null => rfl
      | str text =>
          dsimp only [nonNull, convertLiteral, TypeHint.manageable]
          split <;> rfl
      | _ => exact isValidationError_spelling rfl
  | optional alternative ih =>
      intro value
      rw [convertField_optional_eq]
      cases value with
      | null => rfl
      | _ => exact ih _
  -- A conversion of many ends with the first that fails, so the earlier ones must be accepted.
  | tuple item ih =>
      intro value
      cases value with
      | arr items =>
          rw [convertField, TypeHint.manageable, ← foreseen_mapM (acceptsConforming item) ih]
          exact foreseen_bind_ok (items.mapM (convertField interpreter item)) _
      | _ => rfl
  | mapping entry ih =>
      intro value
      cases value with
      | obj members =>
          rw [convertField, TypeHint.manageable]
          dsimp only [nonNull]
          rw [foreseen_bind_ok]
          apply foreseen_mapM
          · intro member
            rw [← acceptsConforming entry]
            simp only [bind_eq_ok, Except.ok.injEq]
            constructor
            · rintro ⟨_, converted, hconverted, _⟩
              exact ⟨converted, hconverted⟩
            · rintro ⟨converted, hconverted⟩
              exact ⟨(member.1, converted), converted, hconverted, rfl⟩
          · intro member
            rw [foreseen_bind_ok]
            exact ih member.2
      | _ => rfl
  | dataclass cls fields ih =>
      intro value
      rw [convertField]
      cases value with
      | null => rfl
      | _ => exact foreseen_instantiate ih _

/-- Where there is room, what conforms does not depend on what can be walked through. -/
def Regardless (interpreter : Interpreter) (hint : TypeHint) : Prop :=
  ∀ value, hint.manageable interpreter value = true →
    hint.conforms interpreter.readsDatetime interpreter.walks value =
      hint.conforms interpreter.readsDatetime (fun _ => true) value

theorem fieldsConform_regardless {fields : List (String × TypeHint)}
    (h : ∀ field ∈ fields, Regardless interpreter field.2)
    {members : List (WideString × WideJson)}
    (hroom : TypeHint.fieldsManageable interpreter fields members = true) :
    TypeHint.fieldsConform interpreter.readsDatetime interpreter.walks fields members =
      TypeHint.fieldsConform interpreter.readsDatetime (fun _ => true) fields members := by
  induction fields with
  | nil => rfl
  | cons field rest ih =>
      obtain ⟨name, hint⟩ := field
      rw [List.forall_mem_cons] at h
      rw [TypeHint.fieldsManageable] at hroom
      rw [TypeHint.fieldsConform, TypeHint.fieldsConform]
      cases hlookup : members.lookup (wide name) with
      | none => rfl
      | some value =>
          rw [hlookup] at hroom
          obtain ⟨hvalue, hrest⟩ := (Bool.and_eq_true _ _).mp hroom
          have hsame : hint.conforms interpreter.readsDatetime interpreter.walks value =
              hint.conforms interpreter.readsDatetime (fun _ => true) value := h.1 value hvalue
          dsimp only
          rw [← hsame]
          cases hconforms : hint.conforms interpreter.readsDatetime interpreter.walks value with
          | false => rfl
          | true =>
              rw [hconforms, Bool.not_true, Bool.false_or] at hrest
              rw [ih h.2 hrest]

/-- Keys that are refused are so by what conforms, too. -/
theorem not_conforms_of_keys {cls : String} {fields : List (String × TypeHint)}
    {members : List (WideString × WideJson)} {isDatetime : WideString → Bool}
    {walks : WideJson → Bool} (h : keysConform (fields.map Prod.fst) members = false) :
    (TypeHint.dataclass cls fields).conforms isDatetime walks (.obj members) = false := by
  rw [← Bool.not_eq_true] at h ⊢
  intro hconforms
  apply h
  rw [@keysConform_iff cls]
  obtain ⟨hdeclared, hfields⟩ := TypeHint.conforms_dataclass_iff.mp hconforms
  refine checkKeys_ok_iff.mpr ⟨fun version hversion => ?_, fun member hmember => ?_⟩
  · obtain ⟨field, hfield, hkey⟩ := hdeclared _ (mem_of_lookup_eq hversion)
    obtain ⟨found, hfound, _, hsupported⟩ := hfields field hfield
    rw [← hkey, hversion] at hfound
    obtain rfl := Option.some.inj hfound
    exact hsupported (wide_injective hkey).symm
  · obtain ⟨field, hfield, hkey⟩ := hdeclared member hmember
    exact ⟨field.1, List.mem_map_of_mem hfield, hkey⟩

/-- By induction on the declaration, as far as the conversion gets. -/
theorem regardless (hint : TypeHint) : Regardless interpreter hint := by
  induction hint using TypeHint.ind with
  | any => exact fun value hroom => hroom
  | optional alternative ih =>
      intro value hroom
      cases value with
      | null => rfl
      | _ => exact ih _ hroom
  | tuple item ih =>
      intro value hroom
      cases value with
      | arr items => exact all_congr_of_untilRefused hroom ih
      | _ => rfl
  | mapping entry ih =>
      intro value hroom
      cases value with
      | obj members => exact all_congr_of_untilRefused hroom fun member => ih member.2
      | _ => rfl
  | dataclass cls fields ih =>
      intro value hroom
      cases value with
      | obj members =>
          cases hkeys : keysConform (fields.map Prod.fst) members with
          | false => rw [not_conforms_of_keys hkeys, not_conforms_of_keys hkeys]
          | true =>
              rw [TypeHint.manageable, hkeys, Bool.not_true, Bool.false_or] at hroom
              rw [TypeHint.conforms, TypeHint.conforms, fieldsConform_regardless ih hroom]
      | _ => rfl
  | float => exact fun _ _ => rfl
  | _ =>
      intro value _
      cases value <;> rfl

end Followed

end VerifierCI
