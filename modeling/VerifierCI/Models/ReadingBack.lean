import VerifierCI.Models.Reencoding

/-! # Reading values back

What is written for a value of a declared type is converted back to it, with its
datetimes in UTC. A datetime outside the years 1000 to 9999 in UTC is refused.
-/

namespace VerifierCI

open Python

/-! ## What is converted under `Any` -/

section Any

variable {source json : WideJson}

theorem convertAny_arr (items : List WideJson) :
    convertAny (.arr items) = .tuple (items.map convertAny) := by
  rw [convertAny]
  congr 1
  induction items with
  | nil => rfl
  | cons item rest ih => rw [convertAnyItems, ih, List.map_cons]

theorem convertAny_obj (members : List (WideString × WideJson)) :
    convertAny (.obj members) =
      .mapping (members.map fun member => (member.1, convertAny member.2)) := by
  rw [convertAny]
  congr 1
  induction members with
  | nil => rfl
  | cons member rest ih => rw [convertAnyMembers, ih, List.map_cons]

/-- What was converted under `Any` is written as it was read. -/
theorem eq_of_canonicalRepr_convertAny (h : canonicalRepr (convertAny source) = .ok json) :
    json = source := by
  induction source using WideJson.ind generalizing json with
  | float x =>
      obtain ⟨_, rfl⟩ := canonicalRepr_float_ok_iff.mp h
      rfl
  | arr items ih =>
      rw [convertAny_arr] at h
      obtain ⟨others, hothers, rfl⟩ := canonicalRepr_tuple_ok_iff.mp h
      rw [List.forall₂_map_left_iff] at hothers
      have hmap := map_eq_of_forall₂ (f := id) (g := id) hothers
        fun item hitem other hother => (ih item hitem hother).symm
      rw [List.map_id, List.map_id] at hmap
      rw [hmap]
  | obj members ih =>
      rw [convertAny_obj] at h
      obtain ⟨others, hothers, rfl⟩ := canonicalRepr_mapping_ok_iff.mp h
      rw [List.forall₂_map_left_iff] at hothers
      have hmap := map_eq_of_forall₂ (f := id) (g := id) hothers
        fun member hmember other hother =>
          Prod.ext hother.1.symm (ih member hmember hother.2).symm
      rw [List.map_id, List.map_id] at hmap
      rw [hmap]
  | _ => exact (Except.ok.inj h).symm

/-- No datetimes are made under `Any`. -/
theorem utc_convertAny (source : WideJson) : (convertAny source).utc = convertAny source := by
  induction source using WideJson.ind with
  | arr items ih =>
      rw [convertAny_arr, Value.utc_tuple, List.map_map]
      congr 1
      exact List.map_congr_left ih
  | obj members ih =>
      rw [convertAny_obj, Value.utc_mapping, List.map_map]
      congr 1
      exact List.map_congr_left fun member hmember => Prod.ext rfl (ih member hmember)
  | _ => rfl

theorem years_convertAny (source : WideJson) :
    (convertAny source).all (fun _ => true) Value.scalarLong = true := by
  induction source using WideJson.ind with
  | arr items ih =>
      rw [convertAny_arr, Value.all_tuple, List.all_map, List.all_eq_true]
      exact ih
  | obj members ih =>
      rw [convertAny_obj, Value.all_mapping, List.all_map, List.all_eq_true]
      exact fun member hmember => (Bool.true_and _).trans (ih member hmember)
  | _ => rfl

theorem wellKeyed_convertAny (h : source.Canonical) : (convertAny source).WellKeyed := by
  induction source using WideJson.ind with
  | arr items ih =>
      rw [WideJson.canonical_arr] at h
      rw [convertAny_arr, Value.wellKeyed_tuple, List.forall_mem_map]
      exact fun item hitem => ih item hitem (h item hitem)
  | obj members ih =>
      rw [WideJson.canonical_obj] at h
      rw [convertAny_obj, Value.wellKeyed_mapping, List.forall_mem_map]
      constructor
      · apply h.1.of_keys_eq
        rw [List.map_map]
        rfl
      · exact fun member hmember => ih member hmember (h.2 member hmember)
  | _ => exact trivial

/-- Nothing that was converted under `Any` is a record. -/
theorem convertAny_eq_record (source : WideJson) (cls : String) (fields : List (String × Value)) :
    (convertAny source).eq (.record cls fields) = false := by
  cases source <;> simp [convertAny, Value.eq, Value.number?]

/-- A value that `_convert_field` makes under `Any`. -/
def FromJson (interpreter : Interpreter) (value : Value) : Prop :=
  ∃ source : WideJson, source.Canonical ∧ interpreter.walks source = true ∧
    convertAny source = value

end Any

/-! ## Declared values -/

section Declared

variable {any other : Value → Prop}

theorem admits_optional_iff {alternative : TypeHint} {value : Value} (hvalue : value ≠ .none) :
    (TypeHint.optional alternative).admits any value ↔ alternative.admits any value := by
  cases value with
  | none => exact absurd rfl hvalue
  | _ => exact Iff.rfl

/-- Where `Any` is not declared, it does not matter what may stand under it. By induction on the
hint, through the parts of the value that it declares. -/
theorem admits_of_typed {hint : TypeHint} (htyped : hint.typed = true)
    {value : Value} (h : hint.admits any value) : hint.admits other value := by
  induction hint using TypeHint.ind generalizing value with
  | any => cases htyped
  | optional alternative ih =>
      by_cases hvalue : value = .none
      · rw [hvalue]
        exact trivial
      · rw [admits_optional_iff hvalue] at h ⊢
        exact ih htyped h
  | tuple item ih =>
      cases value with
      | tuple items => exact fun value hvalue => ih htyped (h value hvalue)
      | _ => exact h
  | mapping entry ih =>
      cases value with
      | mapping entries => exact ⟨h.1, fun member hmember => ih htyped (h.2 member hmember)⟩
      | _ => exact h
  | dataclass cls fields ih =>
      cases value with
      | record name slots =>
          have hfields := TypeHint.fieldsTyped_iff.mp htyped
          refine ⟨h.1, TypeHint.fieldsAdmit_iff.mpr ?_⟩
          refine forall₂_imp_of_mem (TypeHint.fieldsAdmit_iff.mp h.2) ?_
          intro field hfield slot hslot
          exact ⟨hslot.1, ih field hfield (hfields field hfield) hslot.2.1, hslot.2.2⟩
      | _ => exact h
  | _ => cases value <;> exact h

/-- Values of declared types list their keys in order, and no field twice. By induction
on the hint: mappings are read from objects with distinct keys, and a dataclass declares
a field once. -/
theorem wellKeyed_of_admits {interpreter : Interpreter} {hint : TypeHint}
    (hdistinct : hint.distinct = true) {value : Value}
    (h : hint.admits (FromJson interpreter) value) : value.WellKeyed := by
  induction hint using TypeHint.ind generalizing value with
  | any =>
      obtain ⟨source, hcanonical, _, rfl⟩ := h
      exact wellKeyed_convertAny hcanonical
  | optional alternative ih =>
      by_cases hvalue : value = .none
      · rw [hvalue]
        exact trivial
      · exact ih hdistinct ((admits_optional_iff hvalue).mp h)
  | tuple item ih =>
      cases value with
      | tuple items =>
          rw [Value.wellKeyed_tuple]
          exact fun value hvalue => ih hdistinct (h value hvalue)
      | _ => cases h
  | mapping entry ih =>
      cases value with
      | mapping entries =>
          rw [Value.wellKeyed_mapping]
          exact ⟨h.1, fun member hmember => ih hdistinct (h.2 member hmember)⟩
      | _ => cases h
  | dataclass cls fields ih =>
      cases value with
      | record name slots =>
          rw [TypeHint.distinct_dataclass] at hdistinct
          have hslots := TypeHint.fieldsAdmit_iff.mp h.2
          rw [Value.wellKeyed_record]
          constructor
          · rw [← map_eq_of_forall₂ hslots fun field _ slot hslot => hslot.1.symm]
            exact hdistinct.1
          · intro slot hslot
            obtain ⟨field, hfield, _, hadmits, _⟩ := exists_of_mem_forall₂ hslots.flip hslot
            exact ih field hfield (hdistinct.2 field hfield) hadmits
      | _ => cases h
  | _ =>
      cases value <;> first
        | exact trivial
        | cases h

end Declared

/-! ## Reading back what was written -/

section Read

variable {interpreter : Interpreter}

/-- Related lists stay related when their elements are known to be in them. -/
theorem forall₂_imp_of_mem_mem {α β : Type} {R S : α → β → Prop} {items : List α}
    {others : List β} (h : List.Forall₂ R items others)
    (himp : ∀ item ∈ items, ∀ other ∈ others, R item other → S item other) :
    List.Forall₂ S items others := by
  induction h with
  | nil => exact .nil
  | cons hhead _ ih =>
      rw [List.forall_mem_cons] at himp
      refine .cons (himp.1 _ List.mem_cons_self hhead) (ih fun item hitem other hother => ?_)
      exact himp.2 item hitem other (List.mem_cons_of_mem _ hother)

/-- Nothing but `None` is written as null. -/
theorem eq_none_of_canonicalRepr {value : Value} (h : canonicalRepr value = .ok .null) :
    value = .none := by
  cases value with
  | none => rfl
  | float x =>
      obtain ⟨_, heq⟩ := canonicalRepr_float_ok_iff.mp h
      cases heq
  | datetime date =>
      obtain ⟨_, _, _, heq⟩ := canonicalRepr_datetime_ok_iff.mp h
      cases heq
  | tuple items =>
      obtain ⟨_, _, heq⟩ := canonicalRepr_tuple_ok_iff.mp h
      cases heq
  | mapping entries =>
      obtain ⟨_, _, heq⟩ := canonicalRepr_mapping_ok_iff.mp h
      cases heq
  | record cls fields =>
      obtain ⟨_, _, heq⟩ := canonicalRepr_record_ok_iff.mp h
      cases heq
  | _ => cases h

section Fields

variable {cls : String} {fields : List (String × TypeHint)} {slots : List (String × Value)}
  {members : List (WideString × WideJson)}

/-- The slots of a record and the members they are written as. -/
structure Written (fields : List (String × TypeHint)) (slots : List (String × Value))
    (members : List (WideString × WideJson)) (any : Value → Prop) : Prop where
  distinct : (fields.map Prod.fst).Nodup
  admitted : List.Forall₂ (fun field slot => slot.1 = field.1 ∧ field.2.admits any slot.2 ∧
    (field.1 = "schema_version" → TypeHint.isVersionValue slot.2 = true)) fields slots
  written : List.Forall₂ (fun slot member => member.1 = wide slot.1 ∧
    canonicalRepr slot.2 = .ok member.2) slots members

variable {any : Value → Prop}

theorem Written.slotNames (h : Written fields slots members any) :
    slots.map Prod.fst = fields.map Prod.fst :=
  (map_eq_of_forall₂ h.admitted fun _ _ _ hslot => hslot.1.symm).symm

theorem Written.nodup (h : Written fields slots members any) : (members.map Prod.fst).Nodup := by
  apply nodup_of_fields h.written
  rw [h.slotNames]
  exact h.distinct

/-- Every slot is found under its name. -/
theorem Written.lookup (h : Written fields slots members any) {slot : String × Value}
    (hslot : slot ∈ slots) : ∃ json, (dict members).lookup (wide slot.1) = some json ∧
      canonicalRepr slot.2 = .ok json := by
  obtain ⟨⟨key, json⟩, hmember, rfl, hrepr⟩ := exists_of_mem_forall₂ h.written hslot
  refine ⟨json, ?_, hrepr⟩
  rw [lookup_dict h.nodup]
  exact lookup_eq_of_mem h.nodup hmember

/-- Every member was written for a slot. -/
theorem Written.slot (h : Written fields slots members any) {key : WideString} {json : WideJson}
    (hmember : (key, json) ∈ dict members) : ∃ field ∈ fields, ∃ slot ∈ slots,
      key = wide field.1 ∧ slot.1 = field.1 ∧ field.2.admits any slot.2 ∧
        (field.1 = "schema_version" → TypeHint.isVersionValue slot.2 = true) ∧
        canonicalRepr slot.2 = .ok json := by
  obtain ⟨slot, hslot, hkey, hrepr⟩ :=
    exists_of_mem_forall₂ h.written.flip (mem_dict.mp hmember)
  obtain ⟨field, hfield, hname, hadmits, hversion⟩ :=
    exists_of_mem_forall₂ h.admitted.flip hslot
  exact ⟨field, hfield, slot, hslot, hkey.trans (congrArg wide hname), hname, hadmits, hversion,
    hrepr⟩

/-- The keys of a record that was written pass the checks of its class. -/
theorem Written.checkKeys (h : Written fields slots members any) :
    checkKeys cls (fields.map Prod.fst) (dict members) = .ok () := by
  refine checkKeys_ok_iff.mpr ⟨fun version hversion => ?_, fun member hmember => ?_⟩
  · obtain ⟨field, _, slot, _, hkey, _, _, hsupported, hrepr⟩ := h.slot (mem_of_lookup_eq hversion)
    have hvalue := hsupported (wide_injective hkey).symm
    cases hslot : slot.2 with
    | str text =>
        rw [hslot] at hvalue hrepr
        obtain rfl := Except.ok.inj hrepr
        exact hvalue
    | _ =>
        rw [hslot] at hvalue
        cases hvalue
  · obtain ⟨key, json⟩ := member
    obtain ⟨field, hfield, _, _, hkey, _⟩ := h.slot hmember
    exact ⟨field.1, List.mem_map_of_mem hfield, hkey⟩

end Fields

/-- A value of a declared record is a record, and it is written as an object with one member for
each slot. -/
theorem written_of_admits {cls : String} {fields : List (String × TypeHint)} {value : Value}
    {json : WideJson} {any : Value → Prop}
    (hdistinct : (TypeHint.dataclass cls fields).distinct = true)
    (hadmits : (TypeHint.dataclass cls fields).admits any value)
    (hrepr : canonicalRepr value = .ok json) : ∃ slots members, value = .record cls slots ∧
      json = .obj (dict members) ∧ Written fields slots members any := by
  cases value with
  | record name slots =>
      obtain ⟨rfl, hslots⟩ := hadmits
      obtain ⟨members, hmembers, rfl⟩ := canonicalRepr_record_ok_iff.mp hrepr
      exact ⟨slots, members, rfl, rfl, (TypeHint.distinct_dataclass.mp hdistinct).1,
        TypeHint.fieldsAdmit_iff.mp hslots, hmembers⟩
  | _ => cases hadmits

/-- What is written for a value of a declared type is converted back to it, with its
datetimes in UTC. -/
theorem convert_canonicalRepr {hint : TypeHint} (hdistinct : hint.distinct = true)
    {value : Value} {json : WideJson}
    (hadmits : hint.admits (FromJson interpreter) value)
    (hrepr : canonicalRepr value = .ok json)
    (hyears : value.all (fun _ => true) Value.scalarLong = true) :
    convertField interpreter hint json = .ok value.utc := by
  induction hint using TypeHint.ind generalizing value json with
  | any =>
      obtain ⟨source, _, hwalks, rfl⟩ := hadmits
      obtain rfl := eq_of_canonicalRepr_convertAny hrepr
      rw [utc_convertAny]
      exact convertField_any_ok_iff.mpr ⟨hwalks, rfl⟩
  | bool =>
      cases value with
      | bool b =>
          obtain rfl := Except.ok.inj hrepr
          exact convertField_bool_ok_iff.mpr ⟨b, rfl, rfl⟩
      | _ => cases hadmits
  | int =>
      cases value with
      | int n =>
          obtain rfl := Except.ok.inj hrepr
          exact convertField_int_ok_iff.mpr ⟨n, rfl, rfl⟩
      | _ => cases hadmits
  | float =>
      cases value with
      | float x =>
          obtain ⟨hfinite, rfl⟩ := canonicalRepr_float_ok_iff.mp hrepr
          exact convertField_float_ok_iff.mpr ⟨x, if_pos hfinite, rfl⟩
      | _ => cases hadmits
  | str =>
      cases value with
      | str text =>
          obtain rfl := Except.ok.inj hrepr
          exact convertField_str_ok_iff.mpr ⟨text, rfl, rfl⟩
      | _ => cases hadmits
  | literal values =>
      cases value with
      | str text =>
          obtain rfl := Except.ok.inj hrepr
          exact convertField_literal_ok_iff.mpr ⟨text, rfl, hadmits, rfl⟩
      | _ => cases hadmits
  -- The text is in UTC; it is read back if its year has the four digits it is written with.
  | datetime =>
      cases value with
      | datetime date =>
          obtain ⟨_, utc, hutc, rfl⟩ := canonicalRepr_datetime_ok_iff.mp hrepr
          have hlong : hasLongYear date = true := (Bool.and_eq_true_iff.mp hyears).2
          rw [Value.utc, hutc, Option.getD_some]
          exact (convert_utcText hutc).mpr ⟨hlong, rfl⟩
      | _ => cases hadmits
  | optional alternative ih =>
      by_cases hvalue : value = .none
      · obtain rfl := hvalue
        obtain rfl := Except.ok.inj hrepr
        exact convertField_optional_ok_iff.mpr (Or.inl ⟨rfl, rfl⟩)
      · have hjson : json ≠ .null := by
          rintro rfl
          exact hvalue (eq_none_of_canonicalRepr hrepr)
        have hconverted := ih hdistinct ((admits_optional_iff hvalue).mp hadmits) hrepr hyears
        exact convertField_optional_ok_iff.mpr (Or.inr ⟨hjson, hconverted⟩)
  | tuple item ih =>
      cases value with
      | tuple items =>
          obtain ⟨others, hothers, rfl⟩ := canonicalRepr_tuple_ok_iff.mp hrepr
          rw [Value.all_tuple, List.all_eq_true] at hyears
          rw [Value.utc_tuple, convertField_tuple_ok_iff]
          refine ⟨others, _, rfl, ?_, rfl⟩
          rw [List.forall₂_map_right_iff]
          exact (forall₂_imp_of_mem hothers fun value hvalue other hother =>
            ih hdistinct (hadmits value hvalue) hother (hyears value hvalue)).flip
      | _ => cases hadmits
  | mapping entry ih =>
      cases value with
      | mapping entries =>
          obtain ⟨members, hmembers, rfl⟩ := canonicalRepr_mapping_ok_iff.mp hrepr
          simp only [Value.all_mapping, List.all_eq_true, Bool.true_and] at hyears
          rw [Value.utc_mapping, convertField_mapping_ok_iff]
          refine ⟨members, _, rfl, ?_, rfl⟩
          rw [List.forall₂_map_right_iff]
          exact (forall₂_imp_of_mem hmembers fun value hvalue member hmember =>
            ⟨hmember.1.symm, ih hdistinct (hadmits.2 value hvalue) hmember.2
              (hyears value hvalue)⟩).flip
      | _ => cases hadmits
  -- What was written lists the fields under their names, so each is found and read.
  | dataclass cls fields ih =>
      obtain ⟨slots, members, rfl, rfl, hwritten⟩ := written_of_admits hdistinct hadmits hrepr
      rw [Value.all_record, List.all_eq_true] at hyears
      have hfields := (TypeHint.distinct_dataclass.mp hdistinct).2
      have hconvert : convertFields interpreter cls fields (dict members) =
          .ok (slots.map fun slot => (slot.1, slot.2.utc)) := by
        rw [convertFields_ok_iff, List.forall₂_map_right_iff]
        refine forall₂_imp_of_mem_mem hwritten.admitted fun field hfield slot hslot hrow => ?_
        obtain ⟨json, hjson, hslotRepr⟩ := hwritten.lookup hslot
        rw [hrow.1] at hjson
        exact ⟨hrow.1, json, hjson, ih field hfield (hfields field hfield) hrow.2.1 hslotRepr
          (hyears slot hslot)⟩
      rw [Value.utc_record, convertField_dataclass_ok_iff, instantiateDataclass_ok_iff]
      exact ⟨dict members, _, rfl, hwritten.checkKeys, hconvert, rfl⟩

/-- Only datetimes in the years 1000 to 9999 are read back. -/
theorem years_of_convert {hint : TypeHint} (hdistinct : hint.distinct = true)
    {value converted : Value} {json : WideJson}
    (hadmits : hint.admits (FromJson interpreter) value)
    (hrepr : canonicalRepr value = .ok json)
    (h : convertField interpreter hint json = .ok converted) :
    value.all (fun _ => true) Value.scalarLong = true := by
  induction hint using TypeHint.ind generalizing value json converted with
  -- a value that came from JSON holds no date
  | any =>
      obtain ⟨source, _, _, rfl⟩ := hadmits
      exact years_convertAny source
  | datetime =>
      cases value with
      | datetime date =>
          obtain ⟨haware, utc, hutc, rfl⟩ := canonicalRepr_datetime_ok_iff.mp hrepr
          obtain ⟨hlong, _⟩ := (convert_utcText hutc).mp h
          exact Bool.and_eq_true_iff.mpr ⟨haware, hlong⟩
      | _ => cases hadmits
  | optional alternative ih =>
      by_cases hvalue : value = .none
      · rw [hvalue]
        rfl
      · rcases convertField_optional_ok_iff.mp h with ⟨rfl, _⟩ | ⟨_, hconverted⟩
        · exact absurd (eq_none_of_canonicalRepr hrepr) hvalue
        · exact ih hdistinct ((admits_optional_iff hvalue).mp hadmits) hrepr hconverted
  | tuple item ih =>
      cases value with
      | tuple items =>
          obtain ⟨others, hothers, rfl⟩ := canonicalRepr_tuple_ok_iff.mp hrepr
          obtain ⟨_, results, ⟨rfl⟩, hresults, _⟩ := convertField_tuple_ok_iff.mp h
          rw [Value.all_tuple, List.all_eq_true]
          intro value hvalue
          obtain ⟨other, hother, hvalueRepr⟩ := exists_of_mem_forall₂ hothers hvalue
          obtain ⟨result, _, hresult⟩ := exists_of_mem_forall₂ hresults hother
          exact ih hdistinct (hadmits value hvalue) hvalueRepr hresult
      | _ => cases hadmits
  | mapping entry ih =>
      cases value with
      | mapping entries =>
          obtain ⟨members, hmembers, rfl⟩ := canonicalRepr_mapping_ok_iff.mp hrepr
          obtain ⟨_, results, ⟨rfl⟩, hresults, _⟩ := convertField_mapping_ok_iff.mp h
          simp only [Value.all_mapping, List.all_eq_true, Bool.true_and]
          intro value hvalue
          obtain ⟨member, hmember, _, hvalueRepr⟩ := exists_of_mem_forall₂ hmembers hvalue
          obtain ⟨result, _, _, hresult⟩ := exists_of_mem_forall₂ hresults hmember
          exact ih hdistinct (hadmits.2 value hvalue) hvalueRepr hresult
      | _ => cases hadmits
  | dataclass cls fields ih =>
      obtain ⟨slots, members, rfl, rfl, hwritten⟩ := written_of_admits hdistinct hadmits hrepr
      obtain ⟨_, results, ⟨rfl⟩, _, hconvert, _⟩ :=
        instantiateDataclass_ok_iff.mp (convertField_dataclass_ok_iff.mp h)
      have hresults := convertFields_ok_iff.mp hconvert
      rw [Value.all_record, List.all_eq_true]
      intro slot hslot
      obtain ⟨field, hfield, hname, hslotAdmits, _⟩ :=
        exists_of_mem_forall₂ hwritten.admitted.flip hslot
      obtain ⟨result, _, _, found, hfound, hresult⟩ := exists_of_mem_forall₂ hresults hfield
      obtain ⟨json, hjson, hslotRepr⟩ := hwritten.lookup hslot
      rw [hname, hfound] at hjson
      obtain rfl := Option.some.inj hjson
      exact ih field hfield ((TypeHint.distinct_dataclass.mp hdistinct).2 field hfield)
        hslotAdmits hslotRepr hresult
  -- the other hints admit no date, at any depth
  | _ =>
      cases value <;> first
        | rfl
        | cases hadmits

end Read

end VerifierCI
