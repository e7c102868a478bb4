import VerifierCI.Models.RoundTrip

/-! # Records that were decoded

The decoder accepts more than the encoder writes: escapes of lone surrogates, NaN and
infinities under `Any`, datetimes that leave the years 1000 to 9999 in UTC, and
manifests that nest too deep. What it decodes from anything else can be written and
decoded again.
-/

namespace VerifierCI

open Python

/-! ## What a payload has to hold -/

/-- Is a scalar under `Any` written and read back as it was? -/
def anyKept : WideJson → Bool
  | .float value => value.isFinite
  | .str value => IsUnicode value
  | _ => true

namespace TypeHint

section Keeps

variable (interpreter : Interpreter)

mutual

/-- Is what a JSON value is converted to written and read back as it was? -/
def keeps : TypeHint → WideJson → Bool
  | .any, value => value.all IsUnicode anyKept
  | .str, .str text => IsUnicode text
  | .datetime, .str text => (interpreter.fromIsoformat (replaceZ text)).any hasLongYear
  | .optional _, .null => true
  | .optional alternative, value => alternative.keeps value
  | .tuple item, .arr items => items.all item.keeps
  | .mapping entry, .obj members =>
      members.all fun member => IsUnicode member.1 && entry.keeps member.2
  | .dataclass _ fields, .obj members => fieldsKeep fields members
  | _, _ => true

def fieldsKeep : List (String × TypeHint) → List (WideString × WideJson) → Bool
  | [], _ => true
  | (name, hint) :: rest, members =>
      (match members.lookup (wide name) with
      | none => true
      | some value => hint.keeps value) && fieldsKeep rest members

end

end Keeps

/-- The test over the members of a payload is the one over the slots they were converted to. -/
theorem fieldsKeep_eq {interpreter : Interpreter} {fields : List (String × TypeHint)}
    {slots : List (String × Value)} {members : List (WideString × WideJson)}
    (h : List.Forall₂ (fun field slot => ∃ found, members.lookup (wide field.1) = some found ∧
      slot.2.all IsUnicode Value.scalarKept = field.2.keeps interpreter found) fields slots) :
    slots.all (fun slot => slot.2.all IsUnicode Value.scalarKept) =
      fieldsKeep interpreter fields members := by
  induction h with
  | nil => rfl
  | @cons field slot _ _ hhead _ ih =>
      obtain ⟨name, hint⟩ := field
      obtain ⟨found, hfound, heq⟩ := hhead
      rw [List.all_cons, fieldsKeep, hfound, heq, ih]

end TypeHint

section Converted

variable {interpreter : Interpreter}

/-- Below a field declared with `Any`, whatever is read is kept if it can be written. -/
theorem all_convertAny {source : WideJson} (hfits : source.fits = true) :
    (convertAny source).all IsUnicode Value.scalarKept = source.all IsUnicode anyKept := by
  induction source using WideJson.ind with
  | int n => exact hfits
  | arr items ih =>
      rw [WideJson.fits, WideJson.all_arr, List.all_eq_true] at hfits
      rw [convertAny_arr, Value.all_tuple, WideJson.all_arr, List.all_map]
      refine all_eq_of_forall₂ (List.forall₂_same.mpr fun item hitem => ?_)
      exact ih item hitem (hfits item hitem)
  | obj members ih =>
      simp only [WideJson.fits, WideJson.all_obj, List.all_eq_true, Bool.true_and] at hfits
      rw [convertAny_obj, Value.all_mapping, WideJson.all_obj, List.all_map]
      refine all_eq_of_forall₂ (List.forall₂_same.mpr fun member hmember => ?_)
      exact congrArg (IsUnicode member.1 && ·) (ih member hmember (hfits member hmember))
  | _ => rfl

/-- Whether what was converted is kept can be told from what it was converted from. -/
theorem kept_eq_keeps {hint : TypeHint} {source : WideJson} {value : Value}
    (hfits : source.fits = true) (h : convertField interpreter hint source = .ok value) :
    value.all IsUnicode Value.scalarKept = hint.keeps interpreter source := by
  induction hint using TypeHint.ind generalizing source value with
  | any =>
      obtain ⟨_, rfl⟩ := convertField_any_ok_iff.mp h
      rw [all_convertAny hfits, TypeHint.keeps]
  | bool =>
      obtain ⟨b, rfl, rfl⟩ := convertField_bool_ok_iff.mp h
      rfl
  | int =>
      obtain ⟨n, rfl, rfl⟩ := convertField_int_ok_iff.mp h
      exact hfits
  -- an integer is converted to a float, which the source has checked to be finite
  | float =>
      obtain ⟨x, hx, rfl⟩ := convertField_float_ok_iff.mp h
      have hfinite := isFinite_of_numberOf (fun _ _ => isFinite_of_ofInt?) hx
      cases source with
      | int | float => exact hfinite
      | _ => cases hx
  | str =>
      obtain ⟨text, rfl, rfl⟩ := convertField_str_ok_iff.mp h
      rfl
  | datetime =>
      obtain ⟨text, date, rfl, hdate, haware, rfl⟩ := convertField_datetime_ok_iff.mp h
      have hkept : (Value.datetime date).all IsUnicode Value.scalarKept =
          (date.utcoffset.isSome && hasLongYear date) := rfl
      rw [hkept, haware, Bool.true_and, TypeHint.keeps, hdate, Option.any_some]
  | literal values =>
      obtain ⟨text, rfl, hallowed, rfl⟩ := convertField_literal_ok_iff.mp h
      obtain ⟨allowed, _, hsame⟩ := List.any_eq_true.mp hallowed
      rw [beq_iff_eq.mp hsame]
      exact isUnicode_wide allowed
  | optional alternative ih =>
      rcases convertField_optional_ok_iff.mp h with ⟨rfl, rfl⟩ | ⟨hsource, hconverted⟩
      · rfl
      · rw [ih hfits hconverted]
        cases source with
        | null => exact absurd rfl hsource
        | _ => rfl
  | tuple item ih =>
      obtain ⟨items, results, rfl, hresults, rfl⟩ := convertField_tuple_ok_iff.mp h
      rw [WideJson.fits, WideJson.all_arr, List.all_eq_true] at hfits
      rw [Value.all_tuple, TypeHint.keeps]
      refine (all_eq_of_forall₂ ?_).symm
      refine forall₂_imp_of_mem hresults fun entry hentry result hresult => ?_
      exact (ih (hfits entry hentry) hresult).symm
  | mapping entry ih =>
      obtain ⟨members, results, rfl, hresults, rfl⟩ := convertField_mapping_ok_iff.mp h
      simp only [WideJson.fits, WideJson.all_obj, List.all_eq_true, Bool.true_and] at hfits
      rw [Value.all_mapping, TypeHint.keeps]
      refine (all_eq_of_forall₂ ?_).symm
      refine forall₂_imp_of_mem hresults fun member hmember result hresult => ?_
      rw [hresult.1, ih (hfits member hmember) hresult.2]
  | dataclass cls fields ih =>
      obtain ⟨members, slots, rfl, _, hslots, rfl⟩ :=
        instantiateDataclass_ok_iff.mp (convertField_dataclass_ok_iff.mp h)
      simp only [WideJson.fits, WideJson.all_obj, List.all_eq_true, Bool.true_and] at hfits
      rw [Value.all_record, TypeHint.keeps]
      apply TypeHint.fieldsKeep_eq
      refine forall₂_imp_of_mem (convertFields_ok_iff.mp hslots) ?_
      rintro field hfield slot ⟨_, found, hfound, hconverted⟩
      exact ⟨found, hfound, ih field hfield (hfits _ (mem_of_lookup_eq hfound)) hconverted⟩

/-! ## Shapes -/

theorem skeleton_convertAny (source : WideJson) :
    (convertAny source).skeleton = source.skeleton := by
  induction source using WideJson.ind with
  | arr items ih =>
      rw [convertAny_arr, Value.skeleton_tuple, WideJson.skeleton_arr, List.map_map]
      congr 1
      exact List.map_congr_left ih
  | obj members ih =>
      rw [convertAny_obj, Value.skeleton_mapping, WideJson.skeleton_obj, List.map_map]
      congr 1
      exact List.map_congr_left fun member hmember => Prod.ext rfl (ih member hmember)
  | _ => rfl

/-- A record keeps the shape of its object if its fields keep that of their values. -/
theorem skeleton_of_instantiate {cls : String} {fields : List (String × TypeHint)}
    (hdistinct : (fields.map Prod.fst).Nodup) {members : List (WideString × WideJson)}
    (hcanonical : Ordered members) {slots : List (String × Value)}
    (hkeys : checkKeys cls (fields.map Prod.fst) members = .ok ())
    (hslots : convertFields interpreter cls fields members = .ok slots)
    (h : ∀ field ∈ fields, ∀ member ∈ members, ∀ value,
      convertField interpreter field.2 member.2 = .ok value →
        value.skeleton = member.2.skeleton) :
    (Value.record cls slots).skeleton = (WideJson.obj members).skeleton := by
  have hrows := convertFields_ok_iff.mp hslots
  have hnames : slots.map Prod.fst = fields.map Prod.fst :=
    (map_eq_of_forall₂ hrows fun _ _ _ hrow => hrow.1.symm).symm
  rw [Value.skeleton_record, WideJson.skeleton_obj]
  congr 1
  have hordered : Ordered (members.map fun member => (member.1, member.2.skeleton)) := by
    apply hcanonical.of_keys_eq
    rw [List.map_map]
    rfl
  have hnodup : ((slots.map fun slot => (wide slot.1, slot.2.skeleton)).map Prod.fst).Nodup := by
    have hwide : (slots.map fun slot => (wide slot.1, slot.2.skeleton)).map Prod.fst =
        (slots.map Prod.fst).map wide := by
      rw [List.map_map, List.map_map]
      rfl
    rw [hwide, hnames]
    exact hdistinct.map wide_injective
  -- The members come in the order of their keys and the fields in that of their
  -- declaration, so the two lists are compared as sets of entries.
  rw [← dict_eq_self hordered]
  refine dict_eq_of_perm ?_ hnodup
  rw [List.perm_ext_iff_of_nodup hnodup.of_map hordered.nodup.of_map]
  rintro ⟨key, skeleton⟩
  rw [List.mem_map, List.mem_map]
  constructor
  · rintro ⟨slot, hslot, heq⟩
    obtain ⟨rfl, rfl⟩ := Prod.mk.inj heq
    obtain ⟨field, hfield, hname, found, hfound, hconverted⟩ :=
      exists_of_mem_forall₂ hrows.flip hslot
    have hmember := mem_of_lookup_eq hfound
    refine ⟨(wide field.1, found), hmember, Prod.ext (congrArg wide hname.symm) ?_⟩
    exact (h field hfield _ hmember _ hconverted).symm
  · rintro ⟨member, hmember, heq⟩
    obtain ⟨rfl, rfl⟩ := Prod.mk.inj heq
    -- No key is without a field.
    obtain ⟨name, hname, hkey⟩ := (checkKeys_ok_iff.mp hkeys).2 member hmember
    obtain ⟨field, hfield, rfl⟩ := List.mem_map.mp hname
    obtain ⟨slot, hslot, hslotName, found, hfound, hconverted⟩ :=
      exists_of_mem_forall₂ hrows hfield
    have hsame : found = member.2 := by
      rw [← hkey, lookup_eq_of_mem hcanonical.nodup hmember] at hfound
      exact (Option.some.inj hfound).symm
    refine ⟨slot, hslot, Prod.ext ?_ ?_⟩
    · exact (congrArg wide hslotName).trans hkey.symm
    · exact h field hfield member hmember slot.2 (hsame ▸ hconverted)

/-- The decoder keeps the shape of a value. -/
theorem skeleton_of_convert {hint : TypeHint} (hdistinct : hint.distinct = true)
    {source : WideJson} {value : Value} (hcanonical : source.Canonical)
    (h : convertField interpreter hint source = .ok value) :
    value.skeleton = source.skeleton := by
  induction hint using TypeHint.ind generalizing source value with
  | any =>
      obtain ⟨_, rfl⟩ := convertField_any_ok_iff.mp h
      exact skeleton_convertAny source
  | bool =>
      obtain ⟨b, rfl, rfl⟩ := convertField_bool_ok_iff.mp h
      rfl
  | int =>
      obtain ⟨n, rfl, rfl⟩ := convertField_int_ok_iff.mp h
      rfl
  | float =>
      obtain ⟨x, hx, rfl⟩ := convertField_float_ok_iff.mp h
      cases source with
      | int | float => rfl
      | _ => cases hx
  | str =>
      obtain ⟨text, rfl, rfl⟩ := convertField_str_ok_iff.mp h
      rfl
  | datetime =>
      obtain ⟨text, date, rfl, _, _, rfl⟩ := convertField_datetime_ok_iff.mp h
      rfl
  | literal values =>
      obtain ⟨text, rfl, _, rfl⟩ := convertField_literal_ok_iff.mp h
      rfl
  | optional alternative ih =>
      rcases convertField_optional_ok_iff.mp h with ⟨rfl, rfl⟩ | ⟨_, hconverted⟩
      · rfl
      · exact ih hdistinct hcanonical hconverted
  | tuple item ih =>
      obtain ⟨items, results, rfl, hresults, rfl⟩ := convertField_tuple_ok_iff.mp h
      rw [WideJson.canonical_arr] at hcanonical
      rw [Value.skeleton_tuple, WideJson.skeleton_arr]
      congr 1
      exact (map_eq_of_forall₂ hresults fun entry hentry result hresult =>
        (ih hdistinct (hcanonical entry hentry) hresult).symm).symm
  | mapping entry ih =>
      obtain ⟨members, results, rfl, hresults, rfl⟩ := convertField_mapping_ok_iff.mp h
      rw [WideJson.canonical_obj] at hcanonical
      rw [Value.skeleton_mapping, WideJson.skeleton_obj]
      congr 1
      exact (map_eq_of_forall₂ hresults fun member hmember result hresult =>
        Prod.ext hresult.1.symm
          (ih hdistinct (hcanonical.2 member hmember) hresult.2).symm).symm
  -- The keys are checked to be the fields, and both are in the order of the names.
  | dataclass cls fields ih =>
      obtain ⟨members, slots, rfl, hkeys, hslots, rfl⟩ :=
        instantiateDataclass_ok_iff.mp (convertField_dataclass_ok_iff.mp h)
      rw [WideJson.canonical_obj] at hcanonical
      rw [TypeHint.distinct_dataclass] at hdistinct
      apply skeleton_of_instantiate hdistinct.1 hcanonical.1 hkeys hslots
      intro field hfield member hmember value hconverted
      exact ih field hfield (hdistinct.2 field hfield) (hcanonical.2 member hmember) hconverted

end Converted

/-! ## Decoding again -/

/-- A record is written, and within every limit its bytes are decoded as an equal record
with the same bytes. -/
def Reencodes (interpreter : Interpreter) (kind : String) (record : Value) : Prop :=
  ∃ bytes, encodeRecord interpreter record = .ok bytes ∧
    ∀ maxBytes : Int, bytes.length ≤ maxBytes → ∃ back,
      decodeRecord interpreter maxBytes kind bytes = .ok back ∧ back.eq record = true ∧
        encodeRecord interpreter back = .ok bytes

/-- The record in a payload of this kind has strings without surrogates, finite floats
and datetimes in the years 1000 to 9999 in UTC, and the encoder can walk through it. -/
def Reencodable (interpreter : Interpreter) (kind : String) (payload : List UInt8) : Prop :=
  ∃ fields data object, TypeHint.kindRegistry.lookup kind = some (.dataclass kind fields) ∧
    readPayload interpreter payload = .ok data ∧ RecordIn kind data object ∧
      (TypeHint.dataclass kind fields).keeps interpreter object = true ∧
        interpreter.encodes object.skeleton = true

theorem RecordIn.depth_le {kind : String} {data object : WideJson} (h : RecordIn kind data object) :
    object.depth ≤ data.depth := by
  cases h with
  | bare => exact le_rfl
  | enveloped =>
      rw [envelope, WideJson.depth]
      exact Nat.le_succ_of_le (WideJson.membersDepth_le.mp le_rfl (wide "data", object)
        List.mem_cons_self)

theorem RecordIn.fits {kind : String} {data object : WideJson} (h : RecordIn kind data object)
    (hdata : data.fits = true) : object.fits = true := by
  cases h with
  | bare => exact hdata
  | enveloped =>
      rw [envelope, WideJson.fits, WideJson.all_obj, List.all_cons, Bool.and_eq_true] at hdata
      exact hdata.1

/-- What was decoded can be written and decoded again if and only if its payload says
nothing that JSON, or the range of datetimes, cannot say again. -/
theorem reencodes_iff {interpreter : Interpreter} {maxBytes : Int} {kind : String}
    {payload : List UInt8} {record : Value}
    (h : decodeRecord interpreter maxBytes kind payload = .ok record) :
    Reencodes interpreter kind record ↔ Reencodable interpreter kind payload := by
  obtain ⟨fields, data, object, hkind, hread, hfound, hconverted⟩ :=
    (decodeRecord_ok_iff (length_le_of_decode h)).mp h
  rw [← convertField_dataclass_ok_iff] at hconverted
  obtain ⟨_, heq, hdeclared⟩ := TypeHint.declared_of_mem (mem_of_lookup_eq hkind)
  obtain rfl := (TypeHint.dataclass.inj heq).2
  obtain ⟨hreadable, hnesting⟩ := readPayload_readable hread
  have hcanonical := hfound.canonical hreadable.canonical
  have hkept : record.Kept ↔ (TypeHint.dataclass kind fields).keeps interpreter object = true := by
    rw [Value.kept_iff_all, kept_eq_keeps (hfound.fits hreadable.fits) hconverted]
  have hskeleton := skeleton_of_convert hdeclared.distinct hcanonical hconverted
  have hadmits : (TypeHint.dataclass kind fields).admits (FromJson interpreter) record :=
    admits_of_convert (fun source hcanonical hwalks => ⟨source, hcanonical, hwalks, rfl⟩)
      (TypeHint.versioned_of_mem (mem_of_lookup_eq hkind)) hcanonical hconverted
  -- Encoding keeps the shape of what was read, so it is no deeper than the payload.
  have hdepth : ∀ json, canonicalRepr record = .ok json →
      json.depth ≤ interpreter.maxNesting := by
    intro json hrepr
    rw [← WideJson.depth_skeleton, canonicalRepr_skeleton hrepr, hskeleton,
      WideJson.depth_skeleton]
    exact hfound.depth_le.trans hnesting
  constructor
  · rintro ⟨bytes, hencode, hagain⟩
    obtain ⟨back, hdecode, _⟩ := hagain bytes.length le_rfl
    obtain ⟨hrecord, hwalks⟩ := kept_of_decode hkind hadmits hdepth hencode le_rfl hdecode
    exact ⟨fields, data, object, hkind, hread, hfound, hkept.mp hrecord, hskeleton ▸ hwalks⟩
  · rintro ⟨others, other, inner, hother, hotherRead, hotherFound, hkeeps, hwalks⟩
    obtain rfl := (TypeHint.dataclass.inj (Option.some.inj (hkind.symm.trans hother))).2
    obtain rfl := Except.ok.inj (hread.symm.trans hotherRead)
    obtain rfl := hfound.unique hotherFound
    rw [← hskeleton] at hwalks
    obtain ⟨bytes, hencode, hsame, hdecode⟩ :=
      decode_of_kept hkind hadmits hdepth (hkept.mpr hkeeps) hwalks
    exact ⟨bytes, hencode, fun maxBytes hmax =>
      ⟨record.utc, hdecode maxBytes hmax, hsame, encodeRecord_utc hencode⟩⟩

theorem decodeRecord_plainTerm :
    decodeRecord .default (canonicalBytes plainTermText).length "MetricTerm"
      (canonicalBytes plainTermText) = .ok plainTerm := by
  have hkind : TypeHint.kindRegistry.lookup "MetricTerm" =
      some (.dataclass "MetricTerm" [("task_key", .str), ("numerator", .int),
        ("denominator", .int), ("excluded", .mapping .int)]) := rfl
  rw [decodeRecord_canonicalBytes hkind (plainTerm_admitted _) canonicalRepr_plainTerm
    fits_plainTerm narrow_plainTerm (by decide +kernel) le_rfl]
  rfl

/-- A term whose texts are ASCII and whose numbers are finite. -/
theorem reencodes_iff_plainTerm : Reencodes .default "MetricTerm" plainTerm ↔
    Reencodable .default "MetricTerm" (canonicalBytes plainTermText) :=
  reencodes_iff decodeRecord_plainTerm

/-- `{"denominator":0,"excluded":{},"numerator":0,"task_key":"\ud800"}`: the key is the
escape of a lone surrogate. -/
def surrogatePayload : List UInt8 :=
  let text :=
    "\x7b\"denominator\":0,\"excluded\":\x7b\x7d,\"numerator\":0,\"task_key\":\"\\ud800\"\x7d"
  text.toList.map fun c => c.toNat.toUInt8

/-- Was something decoded that cannot be encoded? -/
def losesText : Except DecodeError Value → Bool
  | .ok record => !record.all IsUnicode Value.scalarUnicode
  | .error _ => false

/-- The decoder accepts the escape of a lone surrogate, which the encoder cannot write
as UTF-8. -/
theorem surrogate_not_reencoded :
    ∃ record, decodeRecord .default 1000 "MetricTerm" surrogatePayload = .ok record ∧
      ¬ Reencodes .default "MetricTerm" record := by
  have hloses : losesText (decodeRecord .default 1000 "MetricTerm" surrogatePayload) = true := by
    decide +kernel
  cases hdecode : decodeRecord .default 1000 "MetricTerm" surrogatePayload with
  | error error =>
      rw [hdecode] at hloses
      cases hloses
  | ok record =>
      rw [hdecode] at hloses
      refine ⟨record, rfl, ?_⟩
      rintro ⟨bytes, hencode, _⟩
      obtain ⟨json, text, hrepr, _, _, hnarrow, _⟩ := encodeRecord_ok_iff.mp hencode
      have hunicode := WideJson.exists_narrow_iff.mp ⟨text, hnarrow⟩
      rw [canonicalRepr_unicode hrepr] at hunicode
      rw [losesText, hunicode] at hloses
      cases hloses

end VerifierCI
