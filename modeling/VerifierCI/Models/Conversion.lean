import VerifierCI.Models.Decoder

/-! # What each conversion accepts

One lemma for every form of a declaration: the JSON values that are converted to it,
what they become, and which errors the others raise.
-/

namespace VerifierCI

open Python

section Scalars

variable {value : WideJson} {converted : Value} {error : DecodeError}

theorem convertBool_ok_iff :
    convertBool value = .ok converted ↔ ∃ b, value = .bool b ∧ .bool b = converted := by
  cases value <;> simp [convertBool]

theorem convertInt_ok_iff :
    convertInt value = .ok converted ↔ ∃ n, value = .int n ∧ .int n = converted := by
  cases value <;> simp [convertInt]

theorem convertStr_ok_iff :
    convertStr value = .ok converted ↔ ∃ text, value = .str text ∧ .str text = converted := by
  cases value <;> simp [convertStr]

theorem convertLiteral_ok_iff {interpreter : Interpreter} {values : List String} :
    convertLiteral interpreter values value = .ok converted ↔ ∃ text, value = .str text ∧
      (values.any fun allowed => text == wide allowed) = true ∧ .str text = converted := by
  cases value with
  | str text =>
      simp only [convertLiteral, WideJson.str.injEq, exists_eq_left']
      cases values.any fun allowed => text == wide allowed <;> simp
  | _ => simp [convertLiteral]

/-- `float(val)` behind its checks, with the rounding of integers as a parameter. -/
def convertNumber (ofInt : Int → Option PyFloat) : WideJson → Except DecodeError Value
  | .int value =>
      match ofInt value with
      | some float => .ok (.float float)
      | none => .error (.invalidFloat value)
  | .float value => if value.isFinite then .ok (.float value) else .error .nonFiniteFloat
  | value => .error (.expectedType "float" (typeName value))

theorem convertFloat_eq : convertFloat = convertNumber PyFloat.ofInt? := rfl

def numberOf (ofInt : Int → Option PyFloat) : WideJson → Option PyFloat
  | .int n => ofInt n
  | .float x => if x.isFinite then some x else none
  | _ => none

theorem convertNumber_ok_iff {ofInt : Int → Option PyFloat} :
    convertNumber ofInt value = .ok converted ↔
      ∃ x, numberOf ofInt value = some x ∧ .float x = converted := by
  cases value with
  | int n =>
      rw [convertNumber, numberOf]
      cases ofInt n <;> simp
  | float x =>
      rw [convertNumber, numberOf]
      cases x.isFinite <;> simp
  | _ => simp [convertNumber, numberOf]

theorem isFinite_of_ofInt? {n : Int} {x : PyFloat} (h : PyFloat.ofInt? n = some x) :
    x.isFinite = true := by
  unfold PyFloat.ofInt? at h
  dsimp only at h
  split at h
  next hfinite =>
    obtain rfl := Option.some.inj h
    exact hfinite
  next => cases h

theorem isFinite_of_numberOf {ofInt : Int → Option PyFloat}
    (hofInt : ∀ n x, ofInt n = some x → x.isFinite = true) {x : PyFloat}
    (h : numberOf ofInt value = some x) : x.isFinite = true := by
  cases value with
  | int n => exact hofInt n x h
  | float y =>
      rw [numberOf] at h
      split at h
      next hfinite =>
        obtain rfl := Option.some.inj h
        exact hfinite
      next => cases h
  | _ => cases h

theorem convertDatetime_ok_iff {interpreter : Interpreter} :
    convertDatetime interpreter value = .ok converted ↔ ∃ text date, value = .str text ∧
      interpreter.fromIsoformat (replaceZ text) = some date ∧ date.utcoffset.isSome = true ∧
        .datetime date = converted := by
  cases value with
  | str text =>
      simp only [convertDatetime, WideJson.str.injEq, exists_and_left, exists_eq_left']
      cases interpreter.fromIsoformat (replaceZ text) with
      | none => simp
      | some date => cases hoffset : date.utcoffset <;> simp [hoffset]
  | _ => simp [convertDatetime]

end Scalars

/-! ## Errors -/

/-- All errors of a conversion are `ValidationError`s. -/
def Validates (convert : WideJson → Except DecodeError Value) : Prop :=
  ∀ value error, convert value = .error error → error.isValidationError = true

theorem convertBool_validates : Validates convertBool := by
  intro value error h
  cases value <;> cases h
  all_goals rfl

theorem convertInt_validates : Validates convertInt := by
  intro value error h
  cases value <;> cases h
  all_goals rfl

theorem convertStr_validates : Validates convertStr := by
  intro value error h
  cases value <;> cases h
  all_goals rfl

theorem convertNumber_validates (ofInt : Int → Option PyFloat) :
    Validates (convertNumber ofInt) := by
  intro value error h
  unfold convertNumber at h
  split at h
  · split at h
    · cases h
    · cases h
      rfl
  · split at h
    · cases h
    · cases h
      rfl
  · cases h
    rfl

theorem convertDatetime_validates (interpreter : Interpreter) :
    Validates (convertDatetime interpreter) := by
  intro value error h
  unfold convertDatetime at h
  split at h
  · split at h
    · cases h
      rfl
    · split at h
      · cases h
        rfl
      · cases h
  · cases h
    rfl

theorem nonNull_validates {hint : TypeHint}
    {convert : WideJson → Except DecodeError Value} (h : Validates convert) :
    Validates fun value => nonNull hint value convert := by
  intro value error herror
  dsimp only [nonNull] at herror
  split at herror
  · cases herror
    rfl
  · exact h _ error herror

/-- What refuses `None` anyway is not changed by the check for it. -/
theorem nonNull_ok_iff {hint : TypeHint} {convert : WideJson → Except DecodeError Value}
    {value : WideJson} {converted : Value} (hnull : ∀ c, convert .null ≠ .ok c) :
    nonNull hint value convert = .ok converted ↔ convert value = .ok converted := by
  cases value with
  | null =>
      constructor
      · intro h
        cases h
      · intro h
        exact absurd h (hnull converted)
  | _ => rfl

section Keys

variable {cls : String} {names : List String} {members : List (WideString × WideJson)}

theorem checkKeys_eq :
    checkKeys cls names members =
      ((match members.lookup (wide "schema_version") with
        | some version => checkSchemaVersion version
        | none => .ok ()) >>= fun _ =>
        if (members.filter fun member => names.all fun name => member.1 != wide name).isEmpty then
          .ok ()
        else .error (.unexpectedFields
          ((members.filter fun member => names.all fun name => member.1 != wide name).map
            Prod.fst) cls)) := by
  unfold checkKeys
  cases members.lookup (wide "schema_version") <;> rfl

/-- A `schema_version` that is supported. -/
def isSchemaVersion : WideJson → Bool
  | .str version => isSupportedVersion version
  | _ => false

theorem checkSchemaVersion_ok_iff {value : WideJson} :
    checkSchemaVersion value = .ok () ↔ isSchemaVersion value = true := by
  cases value with
  | str version =>
      rw [checkSchemaVersion, isSchemaVersion]
      cases isSupportedVersion version <;> simp
  | _ => simp [checkSchemaVersion, isSchemaVersion]

theorem checkSchemaVersion_validates {value : WideJson} {error : DecodeError}
    (h : checkSchemaVersion value = .error error) : error.isValidationError = true := by
  unfold checkSchemaVersion at h
  split at h
  · split at h
    · cases h
    · cases h
      rfl
  · cases h
    rfl

/-- Every key is declared, and the schema version, if there is one, is supported. -/
theorem checkKeys_ok_iff :
    checkKeys cls names members = .ok () ↔
      (∀ version, members.lookup (wide "schema_version") = some version →
        isSchemaVersion version = true) ∧
      ∀ member ∈ members, ∃ name ∈ names, member.1 = wide name := by
  rw [checkKeys_eq, bind_eq_ok_unit]
  apply and_congr
  · cases members.lookup (wide "schema_version") with
    | none => simp
    | some version => simp [checkSchemaVersion_ok_iff]
  · have hextra : (members.filter fun member => names.all fun name => member.1 != wide name) = [] ↔
        ∀ member ∈ members, ∃ name ∈ names, member.1 = wide name := by
      simp [List.filter_eq_nil_iff]
    rw [← hextra, ← List.isEmpty_iff]
    split
    next hempty => simp [hempty]
    next hsome => simp [hsome]

theorem checkKeys_validates {error : DecodeError} (h : checkKeys cls names members = .error error) :
    error.isValidationError = true := by
  rw [checkKeys_eq] at h
  rcases bind_eq_error.mp h with hversion | ⟨_, _, hextra⟩
  · split at hversion
    · exact checkSchemaVersion_validates hversion
    · cases hversion
  · split at hextra
    · cases hextra
    · cases hextra
      rfl

end Keys

/-! ## Fields -/

section Fields

variable {interpreter : Interpreter} {value : WideJson} {converted : Value}

attribute [local simp] convertField convertFields

theorem convertField_bool_ok_iff :
    convertField interpreter .bool value = .ok converted ↔
      ∃ b, value = .bool b ∧ .bool b = converted := by
  rw [convertField, nonNull_ok_iff (by rintro c ⟨⟩), convertBool_ok_iff]

theorem convertField_int_ok_iff :
    convertField interpreter .int value = .ok converted ↔
      ∃ n, value = .int n ∧ .int n = converted := by
  rw [convertField, nonNull_ok_iff (by rintro c ⟨⟩), convertInt_ok_iff]

theorem convertField_float_ok_iff :
    convertField interpreter .float value = .ok converted ↔
      ∃ x, numberOf PyFloat.ofInt? value = some x ∧ .float x = converted := by
  rw [convertField, convertFloat_eq, nonNull_ok_iff (by rintro c ⟨⟩), convertNumber_ok_iff]

theorem convertField_str_ok_iff :
    convertField interpreter .str value = .ok converted ↔
      ∃ text, value = .str text ∧ .str text = converted := by
  rw [convertField, nonNull_ok_iff (by rintro c ⟨⟩), convertStr_ok_iff]

theorem convertField_literal_ok_iff {values : List String} :
    convertField interpreter (.literal values) value = .ok converted ↔ ∃ text, value = .str text ∧
      (values.any fun allowed => text == wide allowed) = true ∧ .str text = converted := by
  rw [convertField, nonNull_ok_iff (by rintro c ⟨⟩), convertLiteral_ok_iff]

theorem convertField_datetime_ok_iff :
    convertField interpreter .datetime value = .ok converted ↔ ∃ text date, value = .str text ∧
      interpreter.fromIsoformat (replaceZ text) = some date ∧ date.utcoffset.isSome = true ∧
        .datetime date = converted := by
  rw [convertField, nonNull_ok_iff (by rintro c ⟨⟩), convertDatetime_ok_iff]

theorem convertField_tuple_ok_iff {item : TypeHint} :
    convertField interpreter (.tuple item) value = .ok converted ↔ ∃ items results,
      value = .arr items ∧ List.Forall₂ (fun entry result =>
        convertField interpreter item entry = .ok result) items results ∧
          .tuple results = converted := by
  rw [convertField, nonNull_ok_iff (by rintro c ⟨⟩)]
  cases value with
  | arr items =>
      simp only [bind_eq_ok, mapM_eq_ok, Except.ok.injEq, WideJson.arr.injEq, exists_and_left,
        exists_eq_left']
  | _ => simp

theorem convertField_mapping_ok_iff {entry : TypeHint} :
    convertField interpreter (.mapping entry) value = .ok converted ↔ ∃ members entries,
      value = .obj members ∧ List.Forall₂ (fun member result => result.1 = member.1 ∧
        convertField interpreter entry member.2 = .ok result.2) members entries ∧
          .mapping entries = converted := by
  rw [convertField, nonNull_ok_iff (by rintro c ⟨⟩)]
  cases value with
  | obj members =>
      simp only [bind_eq_ok, mapM_eq_ok, Except.ok.injEq, WideJson.obj.injEq, exists_and_left,
        exists_eq_left']
      have hentry : (fun (member : WideString × WideJson) (result : WideString × Value) =>
          ∃ a, convertField interpreter entry member.2 = .ok a ∧ (member.1, a) = result) =
            fun member result => result.1 = member.1 ∧
              convertField interpreter entry member.2 = .ok result.2 := by
        funext member result
        apply propext
        constructor
        · rintro ⟨a, ha, rfl⟩
          exact ⟨rfl, ha⟩
        · rintro ⟨hkey, ha⟩
          exact ⟨result.2, ha, Prod.ext hkey.symm rfl⟩
      rw [hentry]
  | _ => simp

theorem convertFields_ok_iff {cls : String} {fields : List (String × TypeHint)}
    {members : List (WideString × WideJson)} {slots : List (String × Value)} :
    convertFields interpreter cls fields members = .ok slots ↔
      List.Forall₂ (fun field slot => slot.1 = field.1 ∧ ∃ found,
        members.lookup (wide field.1) = some found ∧
          convertField interpreter field.2 found = .ok slot.2) fields slots := by
  induction fields generalizing slots with
  | nil =>
      rw [convertFields, List.forall₂_nil_left_iff, Except.ok.injEq]
      exact eq_comm
  | cons field rest ih =>
      obtain ⟨name, hint⟩ := field
      rw [convertFields, List.forall₂_cons_left_iff]
      cases hlookup : members.lookup (wide name) with
      | none => simp
      | some found =>
          simp only [bind_eq_ok, Except.ok.injEq, ih]
          constructor
          · rintro ⟨result, hresult, tail, htail, rfl⟩
            exact ⟨(name, result), tail, ⟨rfl, found, rfl, hresult⟩, htail, rfl⟩
          · rintro ⟨⟨_, result⟩, tail, ⟨rfl, other, hother, hresult⟩, htail, rfl⟩
            obtain rfl := Option.some.inj hother
            exact ⟨result, hresult, tail, htail, rfl⟩

theorem instantiateDataclass_ok_iff {cls : String} {fields : List (String × TypeHint)} :
    instantiateDataclass interpreter cls fields value = .ok converted ↔ ∃ members slots,
      value = .obj members ∧ checkKeys cls (fields.map Prod.fst) members = .ok () ∧
        convertFields interpreter cls fields members = .ok slots ∧
          .record cls slots = converted := by
  cases value with
  | obj members =>
      simp only [instantiateDataclass, instantiateWith, WideJson.obj.injEq, exists_and_left,
        exists_eq_left']
      rw [bind_eq_ok_unit]
      simp only [bind_eq_ok, Except.ok.injEq]
  | _ => simp [instantiateDataclass, instantiateWith]

theorem convertField_dataclass_ok_iff {cls : String} {fields : List (String × TypeHint)} :
    convertField interpreter (.dataclass cls fields) value = .ok converted ↔
      instantiateDataclass interpreter cls fields value = .ok converted := by
  rw [convertField, nonNull_ok_iff (by rintro c ⟨⟩)]
  rfl

theorem convertField_optional_eq (alternative : TypeHint) (value : WideJson) :
    convertField interpreter (.optional alternative) value = match value with
      | .null => .ok .none
      | value => convertField interpreter alternative value := by
  cases value <;> simp

theorem convertField_optional_ok_iff {alternative : TypeHint} :
    convertField interpreter (.optional alternative) value = .ok converted ↔
      (value = .null ∧ .none = converted) ∨
        (value ≠ .null ∧ convertField interpreter alternative value = .ok converted) := by
  rw [convertField_optional_eq]
  cases value <;> simp

theorem convertField_any_ok_iff :
    convertField interpreter .any value = .ok converted ↔
      interpreter.converts value.skeleton = true ∧ convertAny value = converted := by
  rw [convertField]
  cases interpreter.converts value.skeleton <;> simp

end Fields

end VerifierCI
