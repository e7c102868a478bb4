import VerifierCI.Models.StrictDecoding
import VerifierCI.Models.UtcTexts

/-! # Writing and reading values

What `canonical_repr` makes of a value is converted back to the value with its datetimes
in UTC, which is equal to it. The encoder keeps the shape of a value and refuses what
JSON cannot spell; the decoder refuses the years that were written short.
-/

namespace VerifierCI

open Python

namespace Value

/-! ## What survives -/

def scalarUnicode : Value → Bool
  | .str value => IsUnicode value
  | _ => true

def scalarFits : Value → Bool
  | .int value => WideJson.digitsFit value
  | _ => true

def scalarFinite : Value → Bool
  | .float value => value.isFinite
  | _ => true

/-- Do the datetimes lie in the years 1000 to 9999 in UTC? -/
def scalarLong : Value → Bool
  | .datetime value => value.utcoffset.isSome && hasLongYear value
  | _ => true

/-- What is written and read back as it was. -/
structure Kept (value : Value) : Prop where
  unicode : value.all IsUnicode scalarUnicode = true
  digits : value.all (fun _ => true) scalarFits = true
  finite : value.all (fun _ => true) scalarFinite = true
  years : value.all (fun _ => true) scalarLong = true

/-- Is the scalar written and read back as it was? -/
def scalarKept : Value → Bool
  | .int value => WideJson.digitsFit value
  | .float value => value.isFinite
  | .str value => IsUnicode value
  | .datetime value => value.utcoffset.isSome && hasLongYear value
  | _ => true

/-- All four checks at once. -/
theorem kept_iff_all {value : Value} : value.Kept ↔ value.all IsUnicode scalarKept = true := by
  have hsplit : value.Kept ↔ value.all IsUnicode scalarUnicode = true ∧
      value.all (fun _ => true) scalarFits = true ∧
      value.all (fun _ => true) scalarFinite = true ∧
      value.all (fun _ => true) scalarLong = true :=
    ⟨fun h => ⟨h.unicode, h.digits, h.finite, h.years⟩, fun h => ⟨h.1, h.2.1, h.2.2.1, h.2.2.2⟩⟩
  rw [hsplit]
  clear hsplit
  induction value using ind with
  | tuple items ih =>
      simp only [all_tuple, List.all_eq_true, ← forall_and]
      exact forall₂_congr ih
  | mapping entries ih =>
      simp only [all_mapping, List.all_eq_true, Bool.and_eq_true, true_and, ← forall_and]
      refine forall₂_congr fun entry hentry => ?_
      rw [and_assoc]
      exact and_congr_right' (ih entry hentry)
  | record cls fields ih =>
      simp only [all_record, List.all_eq_true, ← forall_and]
      exact forall₂_congr ih
  | _ => simp [all, scalarUnicode, scalarFits, scalarFinite, scalarLong, scalarKept]

mutual

/-- The arrays and objects a value is written as. -/
def skeleton : Value → WideJson
  | .tuple items => .arr (itemsSkeleton items)
  | .mapping entries => .obj (entriesSkeleton entries)
  | .record _ fields => .obj (dict (fieldsSkeleton fields))
  | _ => .null

def itemsSkeleton : List Value → List WideJson
  | [] => []
  | item :: rest => item.skeleton :: itemsSkeleton rest

def entriesSkeleton : List (WideString × Value) → List (WideString × WideJson)
  | [] => []
  | (key, value) :: rest => (key, value.skeleton) :: entriesSkeleton rest

def fieldsSkeleton : List (String × Value) → List (WideString × WideJson)
  | [] => []
  | (name, value) :: rest => (wide name, value.skeleton) :: fieldsSkeleton rest

end

section Lists

variable {items : List Value} {entries : List (WideString × Value)}
  {fields : List (String × Value)} {cls : String}

@[simp] theorem skeleton_tuple : (tuple items).skeleton = .arr (items.map skeleton) := by
  rw [skeleton]
  congr 1
  induction items with
  | nil => rfl
  | cons item rest ih => rw [itemsSkeleton, ih, List.map_cons]

@[simp] theorem skeleton_mapping :
    (mapping entries).skeleton = .obj (entries.map fun entry => (entry.1, entry.2.skeleton)) := by
  rw [skeleton]
  congr 1
  induction entries with
  | nil => rfl
  | cons entry rest ih => rw [entriesSkeleton, ih, List.map_cons]

@[simp] theorem skeleton_record : (record cls fields).skeleton =
    .obj (dict (fields.map fun field => (wide field.1, field.2.skeleton))) := by
  rw [skeleton]
  congr 2
  induction fields with
  | nil => rfl
  | cons field rest ih => rw [fieldsSkeleton, ih, List.map_cons]

end Lists

end Value

/-! ## Writing -/

section Write

variable {value : Value} {json : WideJson}

/-- The encoder returns a value, if its floats are finite and its datetimes have a year. -/
theorem canonicalRepr_returns (hfinite : value.all (fun _ => true) Value.scalarFinite = true)
    (hyears : value.all (fun _ => true) Value.scalarLong = true) :
    ∃ json, canonicalRepr value = .ok json := by
  induction value using Value.ind with
  | float x => exact ⟨_, canonicalRepr_float_ok_iff.mpr ⟨hfinite, rfl⟩⟩
  | datetime date =>
      have haware : date.utcoffset.isSome = true ∧ hasLongYear date = true := by
        simpa [Value.all, Value.scalarLong] using hyears
      obtain ⟨utc, hutc, _⟩ := (Option.any_eq_true _ _).mp haware.2
      exact ⟨_, canonicalRepr_datetime_ok_iff.mpr ⟨haware.1, utc, hutc, rfl⟩⟩
  | tuple items ih =>
      rw [Value.all_tuple, List.all_eq_true] at hfinite hyears
      obtain ⟨others, hothers⟩ := exists_forall₂ fun item hitem =>
        ih item hitem (hfinite item hitem) (hyears item hitem)
      exact ⟨_, canonicalRepr_tuple_ok_iff.mpr ⟨others, hothers, rfl⟩⟩
  | mapping entries ih =>
      simp only [Value.all_mapping, List.all_eq_true, Bool.true_and] at hfinite hyears
      have hrows : ∀ entry ∈ entries, ∃ member : WideString × WideJson, member.1 = entry.1 ∧
          canonicalRepr entry.2 = .ok member.2 := by
        intro entry hentry
        obtain ⟨json, hjson⟩ := ih entry hentry (hfinite entry hentry) (hyears entry hentry)
        exact ⟨(entry.1, json), rfl, hjson⟩
      obtain ⟨members, hmembers⟩ := exists_forall₂ hrows
      exact ⟨_, canonicalRepr_mapping_ok_iff.mpr ⟨members, hmembers, rfl⟩⟩
  | record cls fields ih =>
      rw [Value.all_record, List.all_eq_true] at hfinite hyears
      have hrows : ∀ field ∈ fields, ∃ member : WideString × WideJson,
          member.1 = wide field.1 ∧ canonicalRepr field.2 = .ok member.2 := by
        intro field hfield
        obtain ⟨json, hjson⟩ := ih field hfield (hfinite field hfield) (hyears field hfield)
        exact ⟨(wide field.1, json), rfl, hjson⟩
      obtain ⟨members, hmembers⟩ := exists_forall₂ hrows
      exact ⟨_, canonicalRepr_record_ok_iff.mpr ⟨members, hmembers, rfl⟩⟩
  | _ => exact ⟨_, rfl⟩

/-- A list is written with as much that fails a check as it had. -/
theorem all_eq_of_forall₂ {α β : Type} {p : α → Bool} {q : β → Bool} {items : List α}
    {others : List β} (h : List.Forall₂ (fun item other => p item = q other) items others) :
    items.all p = others.all q := by
  induction h with
  | nil => rfl
  | cons hhead _ ih => rw [List.all_cons, List.all_cons, hhead, ih]

/-- A check of what is written agrees with a check of the scalar it is written for. -/
structure ChecksAlike (written : WideJson → Bool) (scalar : Value → Bool) : Prop where
  none : written .null = scalar .none
  bool : ∀ value, written (.bool value) = scalar (.bool value)
  int : ∀ value, written (.int value) = scalar (.int value)
  float : ∀ value, written (.float value) = scalar (.float value)
  str : ∀ value, written (.str value) = scalar (.str value)
  datetime : ∀ (text : List Char) value,
    written (.str (text.map codePoint)) = scalar (.datetime value)

/-- What is written passes a check if and only if the value does. -/
theorem canonicalRepr_all {key : WideString → Bool} {scalar : Value → Bool}
    {written : WideJson → Bool} (hkey : ∀ name, key (wide name) = true)
    (halike : ChecksAlike written scalar) (h : canonicalRepr value = .ok json) :
    json.all key written = value.all key scalar := by
  induction value using Value.ind generalizing json with
  | none =>
      obtain rfl := Except.ok.inj h
      exact halike.none
  | bool b =>
      obtain rfl := Except.ok.inj h
      exact halike.bool b
  | int n =>
      obtain rfl := Except.ok.inj h
      exact halike.int n
  | float x =>
      obtain ⟨_, rfl⟩ := canonicalRepr_float_ok_iff.mp h
      exact halike.float x
  | str text =>
      obtain rfl := Except.ok.inj h
      exact halike.str text
  | datetime date =>
      obtain ⟨_, utc, _, rfl⟩ := canonicalRepr_datetime_ok_iff.mp h
      exact halike.datetime (utcText utc) date
  | tuple items ih =>
      obtain ⟨others, hothers, rfl⟩ := canonicalRepr_tuple_ok_iff.mp h
      rw [WideJson.all_arr, Value.all_tuple]
      refine (all_eq_of_forall₂ ?_).symm
      refine forall₂_imp_of_mem hothers fun item hitem other hother => ?_
      exact (ih item hitem hother).symm
  | mapping entries ih =>
      obtain ⟨members, hmembers, rfl⟩ := canonicalRepr_mapping_ok_iff.mp h
      rw [WideJson.all_obj, Value.all_mapping]
      refine (all_eq_of_forall₂ ?_).symm
      refine forall₂_imp_of_mem hmembers fun entry hentry member hmember => ?_
      rw [hmember.1, ih entry hentry hmember.2]
  | record cls fields ih =>
      obtain ⟨members, hmembers, rfl⟩ := canonicalRepr_record_ok_iff.mp h
      rw [WideJson.all_obj, Value.all_record, (dict_perm members).all_eq]
      refine (all_eq_of_forall₂ ?_).symm
      refine forall₂_imp_of_mem hmembers fun field hfield member hmember => ?_
      rw [hmember.1, hkey, Bool.true_and, ih field hfield hmember.2]

theorem canonicalRepr_unicode (h : canonicalRepr value = .ok json) :
    json.unicode = value.all IsUnicode Value.scalarUnicode := by
  refine canonicalRepr_all isUnicode_wide
    ⟨rfl, fun _ => rfl, fun _ => rfl, fun _ => rfl, fun _ => rfl, fun text _ => ?_⟩ h
  simp [WideJson.scalarUnicode, Value.scalarUnicode, IsUnicode, isSurrogate_codePoint]

theorem canonicalRepr_fits (h : canonicalRepr value = .ok json) :
    json.fits = value.all (fun _ => true) Value.scalarFits :=
  canonicalRepr_all (fun _ => rfl)
    ⟨rfl, fun _ => rfl, fun _ => rfl, fun _ => rfl, fun _ => rfl, fun _ _ => rfl⟩ h

/-- The encoder refuses floats that are not finite. -/
theorem finite_of_canonicalRepr (h : canonicalRepr value = .ok json) :
    value.all (fun _ => true) Value.scalarFinite = true := by
  have hall : json.all (fun _ => true) WideJson.scalarFinite =
      value.all (fun _ => true) Value.scalarFinite :=
    canonicalRepr_all (fun _ => rfl)
      ⟨rfl, fun _ => rfl, fun _ => rfl, fun _ => rfl, fun _ => rfl, fun _ _ => rfl⟩ h
  rw [← hall]
  exact canonicalRepr_finite h

/-- The encoder keeps the shape of a value. -/
theorem canonicalRepr_skeleton (h : canonicalRepr value = .ok json) :
    json.skeleton = value.skeleton := by
  induction value using Value.ind generalizing json with
  | float x =>
      obtain ⟨_, rfl⟩ := canonicalRepr_float_ok_iff.mp h
      rfl
  | datetime date =>
      obtain ⟨_, utc, _, rfl⟩ := canonicalRepr_datetime_ok_iff.mp h
      rfl
  | tuple items ih =>
      obtain ⟨others, hothers, rfl⟩ := canonicalRepr_tuple_ok_iff.mp h
      rw [WideJson.skeleton_arr, Value.skeleton_tuple]
      congr 1
      exact (map_eq_of_forall₂ hothers fun item hitem other hother =>
        (ih item hitem hother).symm).symm
  | mapping entries ih =>
      obtain ⟨members, hmembers, rfl⟩ := canonicalRepr_mapping_ok_iff.mp h
      rw [WideJson.skeleton_obj, Value.skeleton_mapping]
      congr 1
      exact (map_eq_of_forall₂ hmembers fun entry hentry member hmember =>
        Prod.ext hmember.1.symm (ih entry hentry hmember.2).symm).symm
  | record cls fields ih =>
      obtain ⟨members, hmembers, rfl⟩ := canonicalRepr_record_ok_iff.mp h
      have hrows : fields.map (fun field => (wide field.1, field.2.skeleton)) =
          members.map fun member => (member.1, member.2.skeleton) :=
        map_eq_of_forall₂ hmembers fun field hfield member hmember =>
          Prod.ext hmember.1.symm (ih field hfield hmember.2).symm
      rw [WideJson.skeleton_obj, Value.skeleton_record, hrows, ← map_dict]
  | _ =>
      obtain rfl := Except.ok.inj h
      rfl

/-! ## Datetimes in UTC -/

theorem forall₂_map_of_mem {α β γ : Type} {R : α → β → Prop} {S : γ → β → Prop} {f : α → γ}
    {items : List α} {others : List β} (h : List.Forall₂ R items others)
    (himp : ∀ item ∈ items, ∀ other, R item other → S (f item) other) :
    List.Forall₂ S (items.map f) others :=
  List.forall₂_map_left_iff.mpr (forall₂_imp_of_mem h himp)

/-- A value and its copy with datetimes in UTC are written alike. -/
theorem canonicalRepr_utc (h : canonicalRepr value = .ok json) :
    canonicalRepr value.utc = .ok json := by
  induction value using Value.ind generalizing json with
  | datetime date =>
      obtain ⟨_, utc, hutc, rfl⟩ := canonicalRepr_datetime_ok_iff.mp h
      have hoffset := astimezoneUtc?_utcoffset hutc
      rw [Value.utc, hutc, Option.getD_some, canonicalRepr_datetime_ok_iff]
      exact ⟨by rw [hoffset, Option.isSome_some], utc, astimezoneUtc?_eq_self hoffset, rfl⟩
  | tuple items ih =>
      obtain ⟨others, hothers, rfl⟩ := canonicalRepr_tuple_ok_iff.mp h
      rw [Value.utc_tuple, canonicalRepr_tuple_ok_iff]
      exact ⟨others, forall₂_map_of_mem hothers fun item hitem other => ih item hitem, rfl⟩
  | mapping entries ih =>
      obtain ⟨members, hmembers, rfl⟩ := canonicalRepr_mapping_ok_iff.mp h
      rw [Value.utc_mapping, canonicalRepr_mapping_ok_iff]
      exact ⟨members, forall₂_map_of_mem hmembers fun entry hentry member hmember =>
        ⟨hmember.1, ih entry hentry hmember.2⟩, rfl⟩
  | record cls fields ih =>
      obtain ⟨members, hmembers, rfl⟩ := canonicalRepr_record_ok_iff.mp h
      rw [Value.utc_record, canonicalRepr_record_ok_iff]
      exact ⟨members, forall₂_map_of_mem hmembers fun field hfield member hmember =>
        ⟨hmember.1, ih field hfield hmember.2⟩, rfl⟩
  | _ => exact h

/-- A finite float is equal to itself. -/
theorem number_eq_self {x : PyFloat} (h : x.isFinite = true) : x.number.eq x.number = true := by
  have hexponent : x.exponent ≠ 2047 := by simpa [PyFloat.isFinite] using h
  rw [PyFloat.number, if_neg hexponent]
  split
  · exact BEq.rfl
  · exact BEq.rfl

/-- Equality does not see the offset of a datetime. -/
theorem utc_eq_self (h : canonicalRepr value = .ok json) : value.utc.eq value = true := by
  induction value using Value.ind generalizing json with
  | none => simp [Value.utc, Value.eq]
  | bool b => simp [Value.utc, Value.eq, Value.number?, Number.eq]
  | int n => simp [Value.utc, Value.eq, Value.number?, Number.eq]
  | float x =>
      obtain ⟨hfinite, _⟩ := canonicalRepr_float_ok_iff.mp h
      simpa [Value.utc, Value.eq, Value.number?] using number_eq_self hfinite
  | str text => simp [Value.utc, Value.eq]
  | datetime date =>
      obtain ⟨haware, utc, hutc, rfl⟩ := canonicalRepr_datetime_ok_iff.mp h
      have hinstant : utc.instant = date.instant := by
        rw [← Datetime.astimezoneUtc?_micros hutc, Datetime.instant,
          astimezoneUtc?_utcoffset hutc]
        exact Int.sub_zero _
      rw [Value.utc, hutc, Option.getD_some, Value.eq, astimezoneUtc?_utcoffset hutc, haware,
        hinstant]
      simp
  | tuple items ih =>
      obtain ⟨others, hothers, rfl⟩ := canonicalRepr_tuple_ok_iff.mp h
      rw [Value.utc_tuple, Value.eq_tuple, List.forall₂_map_left_iff, List.forall₂_same]
      intro item hitem
      obtain ⟨other, _, hother⟩ := exists_of_mem_forall₂ hothers hitem
      exact ih item hitem hother
  | mapping entries ih =>
      obtain ⟨members, hmembers, rfl⟩ := canonicalRepr_mapping_ok_iff.mp h
      rw [Value.utc_mapping, Value.eq_mapping, List.forall₂_map_left_iff, List.forall₂_same]
      intro entry hentry
      obtain ⟨member, _, _, hmember⟩ := exists_of_mem_forall₂ hmembers hentry
      exact ⟨rfl, ih entry hentry hmember⟩
  | record cls fields ih =>
      obtain ⟨members, hmembers, rfl⟩ := canonicalRepr_record_ok_iff.mp h
      rw [Value.utc_record, Value.eq_record, List.forall₂_map_left_iff, List.forall₂_same]
      refine ⟨rfl, fun field hfield => ?_⟩
      obtain ⟨member, _, _, hmember⟩ := exists_of_mem_forall₂ hmembers hfield
      exact ⟨rfl, ih field hfield hmember⟩

end Write

end VerifierCI
