import VerifierCI.Models.ConversionRoom

/-! # Strict decoding

What `decode_record` accepts, compared with what its schema says: a payload of a
supported kind, plain or in an envelope, that conforms to the declaration of the
kind. The decoder replaces every `Z` of a datetime and needs room for a conversion and for
its messages, and that is where it departs from its schema.
-/

namespace VerifierCI

open Python

/-! ## Records of declared types -/

namespace TypeHint

section Admits

variable (any : Value → Prop)

/-- A `schema_version` that is supported. -/
def isVersionValue : Value → Bool
  | .str version => isSupportedVersion version
  | _ => false

mutual

/-- Does a value inhabit a declared type? -/
def admits : TypeHint → Value → Prop
  | .any, value => any value
  | .bool, .bool _ => True
  | .int, .int _ => True
  | .float, .float value => value.isFinite = true
  | .str, .str _ => True
  | .datetime, .datetime value => value.utcoffset.isSome = true
  | .literal values, .str text => (values.any fun allowed => text == wide allowed) = true
  | .optional _, .none => True
  | .optional alternative, value => alternative.admits value
  | .tuple item, .tuple items => ∀ value ∈ items, item.admits value
  | .mapping entry, .mapping entries =>
      Ordered entries ∧ ∀ member ∈ entries, entry.admits member.2
  | .dataclass cls fields, .record name slots => name = cls ∧ fieldsAdmit fields slots
  | _, _ => False

def fieldsAdmit : List (String × TypeHint) → List (String × Value) → Prop
  | [], [] => True
  | (name, hint) :: rest, (slot, value) :: slots =>
      (slot = name ∧ hint.admits value ∧
        (name = "schema_version" → isVersionValue value = true)) ∧ fieldsAdmit rest slots
  | _, _ => False

end

variable {any}

/-- The slots of a record inhabit the declared types, one by one. -/
theorem fieldsAdmit_iff {fields : List (String × TypeHint)} {slots : List (String × Value)} :
    fieldsAdmit any fields slots ↔ List.Forall₂ (fun field slot => slot.1 = field.1 ∧
      field.2.admits any slot.2 ∧
        (field.1 = "schema_version" → isVersionValue slot.2 = true)) fields slots := by
  induction fields generalizing slots with
  | nil => cases slots <;> simp [fieldsAdmit]
  | cons field rest ih =>
      cases slots with
      | nil => simp [fieldsAdmit]
      | cons slot slots => rw [fieldsAdmit, List.forall₂_cons, ih]

end Admits

end TypeHint

section Converted

variable {interpreter : Interpreter} {any : Value → Prop}

/-- What a conversion returns inhabits the declared type. -/
theorem admits_of_convert
    (hany : ∀ value : WideJson, value.Canonical → interpreter.walks value = true →
      any (convertAny value)) {hint : TypeHint} (hversioned : hint.versioned = true)
    {value : WideJson} {converted : Value} (hcanonical : value.Canonical)
    (h : convertField interpreter hint value = .ok converted) :
    hint.admits any converted := by
  induction hint using TypeHint.ind generalizing value converted with
  | any =>
      obtain ⟨hwalks, rfl⟩ := convertField_any_ok_iff.mp h
      exact hany value hcanonical hwalks
  | bool =>
      obtain ⟨b, _, rfl⟩ := convertField_bool_ok_iff.mp h
      exact trivial
  | int =>
      obtain ⟨n, _, rfl⟩ := convertField_int_ok_iff.mp h
      exact trivial
  | float =>
      obtain ⟨x, hx, rfl⟩ := convertField_float_ok_iff.mp h
      exact isFinite_of_numberOf (fun _ _ => isFinite_of_ofInt?) hx
  | str =>
      obtain ⟨text, _, rfl⟩ := convertField_str_ok_iff.mp h
      exact trivial
  | datetime =>
      obtain ⟨text, date, _, _, haware, rfl⟩ := convertField_datetime_ok_iff.mp h
      exact haware
  | literal values =>
      obtain ⟨text, _, hallowed, rfl⟩ := convertField_literal_ok_iff.mp h
      exact hallowed
  | optional alternative ih =>
      rcases convertField_optional_ok_iff.mp h with ⟨_, rfl⟩ | ⟨_, hconverted⟩
      · exact trivial
      · have hadmits := ih hversioned hcanonical hconverted
        cases converted with
        | none => exact trivial
        | _ => exact hadmits
  | tuple item ih =>
      obtain ⟨items, results, rfl, hresults, rfl⟩ := convertField_tuple_ok_iff.mp h
      rw [WideJson.canonical_arr] at hcanonical
      intro result hresult
      obtain ⟨entry, hentry, hconverted⟩ := exists_of_mem_forall₂ hresults.flip hresult
      exact ih hversioned (hcanonical entry hentry) hconverted
  | mapping entry ih =>
      obtain ⟨members, entries, rfl, hentries, rfl⟩ := convertField_mapping_ok_iff.mp h
      rw [WideJson.canonical_obj] at hcanonical
      constructor
      · have hkeys : members.map Prod.fst = entries.map Prod.fst :=
          map_eq_of_forall₂ hentries fun _ _ _ hrow => hrow.1.symm
        exact hcanonical.1.of_keys_eq hkeys.symm
      · intro result hresult
        obtain ⟨member, hmember, _, hconverted⟩ := exists_of_mem_forall₂ hentries.flip hresult
        exact ih hversioned (hcanonical.2 member hmember) hconverted
  | dataclass cls fields ih =>
      obtain ⟨members, slots, rfl, hkeys, hslots, rfl⟩ :=
        instantiateDataclass_ok_iff.mp (convertField_dataclass_ok_iff.mp h)
      rw [WideJson.canonical_obj] at hcanonical
      have hfields := TypeHint.fieldsVersioned_iff.mp hversioned
      refine ⟨rfl, TypeHint.fieldsAdmit_iff.mpr ?_⟩
      refine forall₂_imp_of_mem (convertFields_ok_iff.mp hslots) ?_
      rintro field hfield slot ⟨hname, found, hfound, hconverted⟩
      refine ⟨hname, ih field hfield (hfields field hfield).2
        (hcanonical.2 _ (mem_of_lookup_eq hfound)) hconverted, ?_⟩
      intro hversion
      -- the version was compared before any field was converted
      rw [(hfields field hfield).1 hversion] at hconverted
      obtain ⟨version, rfl, hslot⟩ := convertField_str_ok_iff.mp hconverted
      rw [hversion] at hfound
      rw [← hslot]
      exact (checkKeys_ok_iff.mp hkeys).1 _ hfound

end Converted

/-! ## Envelopes -/

/-- An exact `{schema_version, kind, data}` object. -/
def envelope (version kind data : WideJson) : WideJson :=
  .obj [(wide "data", data), (wide "kind", kind), (wide "schema_version", version)]

/-- The record in a payload of a kind: the payload itself, or what an envelope of a
supported version and of this kind holds. -/
inductive RecordIn (kind : String) : WideJson → WideJson → Prop
  | bare {data : WideJson} (h : ∀ version found inner, data ≠ envelope version found inner) :
      RecordIn kind data data
  | enveloped {version : WideJson} (h : isSchemaVersion version = true) (data : WideJson) :
      RecordIn kind (envelope version (.str (wide kind)) data) data

section Envelopes

/-- An envelope has exactly the three members, whatever their order in the payload. -/
theorem envelope?_eq_some_iff {data version found inner : WideJson} (hcanonical : data.Canonical) :
    envelope? data = some (version, found, inner) ↔ data = envelope version found inner := by
  constructor
  · intro h
    cases data with
    | obj members =>
        simp only [envelope?, Option.bind_eq_bind, Option.bind_eq_some_iff,
          Option.ite_none_right_eq_some, Option.some.injEq, Prod.mk.injEq] at h
        obtain ⟨version, hversion, found, hkind, inner, hdata, hlength, rfl, rfl, rfl⟩ := h
        rw [WideJson.canonical_obj] at hcanonical
        have hordered : Ordered [(wide "data", inner), (wide "kind", found),
            (wide "schema_version", version)] := by
          have hkeys : [wide "data", wide "kind", wide "schema_version"].Pairwise (· < ·) := by
            decide
          exact hkeys
        have hsubset : [(wide "data", inner), (wide "kind", found),
            (wide "schema_version", version)] ⊆ members := by
          simp only [List.cons_subset, List.nil_subset, and_true]
          exact ⟨mem_of_lookup_eq hdata, mem_of_lookup_eq hkind, mem_of_lookup_eq hversion⟩
        have hperm := (List.subperm_of_subset hordered.nodup.of_map hsubset).perm_of_length_le
          hlength.le
        rw [envelope, ← dict_eq_self hordered, dict_eq_of_perm hperm hordered.nodup,
          dict_eq_self hcanonical.1]
    | _ => cases h
  · rintro rfl
    rfl

variable {interpreter : Interpreter}

/-- What is unwrapped is the record in the payload, or the payload itself. An envelope has to
name the kind asked for; what is no envelope is taken as the record itself. -/
theorem unwrapEnvelope_ok_iff {kind : String} {data object : WideJson}
    (hcanonical : data.Canonical) :
    unwrapEnvelope interpreter kind data = .ok object ↔ RecordIn kind data object := by
  unfold unwrapEnvelope
  constructor
  · intro h
    split at h
    next hnone =>
      obtain rfl := Except.ok.inj h
      refine .bare fun version found inner heq => ?_
      rw [(envelope?_eq_some_iff hcanonical).mpr heq] at hnone
      cases hnone
    next version found inner hsome =>
      obtain rfl := (envelope?_eq_some_iff hcanonical).mp hsome
      obtain ⟨hversion, h⟩ := bind_eq_ok_unit.mp h
      split at h
      next text =>
        split at h
        next hkind =>
          obtain rfl := Except.ok.inj h
          rw [beq_iff_eq] at hkind
          rw [hkind]
          exact .enveloped (checkSchemaVersion_ok_iff.mp hversion) inner
        next => cases h
      next => cases h
  · intro h
    cases h with
    | bare h =>
        have hnone : envelope? data = none := by
          rw [Option.eq_none_iff_forall_ne_some]
          rintro ⟨version, found, inner⟩ hsome
          exact h version found inner ((envelope?_eq_some_iff hcanonical).mp hsome)
        rw [hnone]
    | @enveloped version hversion =>
        rw [(envelope?_eq_some_iff hcanonical).mpr rfl]
        dsimp only
        rw [bind_eq_ok_unit, checkSchemaVersion_ok_iff]
        exact ⟨hversion, if_pos BEq.rfl⟩

/-- The kind in an envelope of a supported version is a text or can be spelled out. -/
def KindSpelled (interpreter : Interpreter) (data : WideJson) : Prop :=
  ∀ version found inner, data = envelope version found inner → isSchemaVersion version = true →
    (∃ text, found = .str text) ∨ interpreter.formats found.skeleton = true

/-- An envelope is refused with a `ValidationError` if there is room for its message. -/
theorem foreseen_unwrapEnvelope {kind : String} {data : WideJson} (hcanonical : data.Canonical) :
    foreseen (unwrapEnvelope interpreter kind data) = true ↔ KindSpelled interpreter data := by
  rw [KindSpelled, unwrapEnvelope]
  cases henvelope : envelope? data with
  | none =>
      refine iff_of_true rfl ?_
      intro version found inner heq
      rw [(envelope?_eq_some_iff hcanonical).mpr heq] at henvelope
      cases henvelope
  | some parts =>
      obtain ⟨version, found, inner⟩ := parts
      have hparts : ∀ version' found' inner', data = envelope version' found' inner' →
          version' = version ∧ found' = found := by
        intro version' found' inner' heq
        rw [(envelope?_eq_some_iff hcanonical).mpr heq] at henvelope
        cases henvelope
        exact ⟨rfl, rfl⟩
      have hdata := (envelope?_eq_some_iff hcanonical).mp henvelope
      dsimp only
      cases hversion : checkSchemaVersion version with
      | error error =>
          refine iff_of_true (checkSchemaVersion_validates hversion) ?_
          intro version' found' inner' heq hsupported
          obtain ⟨rfl, _⟩ := hparts _ _ _ heq
          rw [checkSchemaVersion_ok_iff.mpr hsupported] at hversion
          cases hversion
      | ok _ =>
          have hsupported : isSchemaVersion version = true := checkSchemaVersion_ok_iff.mp hversion
          constructor
          · intro hforeseen version' found' inner' heq _
            obtain ⟨_, rfl⟩ := hparts _ _ _ heq
            cases found' with
            | str text => exact Or.inl ⟨text, rfl⟩
            | _ => exact Or.inr ((isValidationError_spelling rfl).symm.trans hforeseen)
          · intro h
            cases found with
            | str text =>
                dsimp only [bind, Except.bind]
                split <;> rfl
            | _ =>
                rcases h version _ inner hdata hsupported with ⟨_, htext⟩ | hspelled
                · cases htext
                · exact (isValidationError_spelling rfl).trans hspelled

end Envelopes

/-! ## The decoder -/

section Decoder

variable {interpreter : Interpreter} {maxBytes : Int} {kind : String} {payload : List UInt8}

theorem readPayload_readable {data : WideJson} (h : readPayload interpreter payload = .ok data) :
    WideJson.Readable data ∧ data.depth ≤ interpreter.maxNesting := by
  unfold readPayload at h
  split at h
  · cases h
  · split at h
    · cases h
    next hloads =>
      obtain rfl := Except.ok.inj h
      exact WideJson.readable_of_loads hloads

/-- The reader turns the errors of `json.loads` into a `ValidationError`. -/
theorem readPayload_validates {error : DecodeError}
    (h : readPayload interpreter payload = .error error) : error.isValidationError = true := by
  unfold readPayload at h
  split at h
  · cases h
    rfl
  · split at h
    · cases h
      rfl
    · cases h

/-- A payload within the limit is read, unwrapped and converted. -/
theorem decodeRecord_read (hfits : (payload.length : Int) ≤ maxBytes)
    {fields : List (String × TypeHint)} {data : WideJson}
    (hkind : TypeHint.kindRegistry.lookup kind = some (.dataclass kind fields))
    (hdata : readPayload interpreter payload = .ok data) :
    decodeRecord interpreter maxBytes kind payload =
      unwrapEnvelope interpreter kind data >>= instantiateDataclass interpreter kind fields := by
  unfold decodeRecord
  rw [if_neg (not_lt.mpr hfits), hkind]
  dsimp only
  rw [hdata]
  rfl

/-- The record in a payload is what is instantiated. -/
theorem decodeRecord_eq (hfits : (payload.length : Int) ≤ maxBytes)
    {fields : List (String × TypeHint)} {data object : WideJson}
    (hkind : TypeHint.kindRegistry.lookup kind = some (.dataclass kind fields))
    (hdata : readPayload interpreter payload = .ok data) (hrecord : RecordIn kind data object) :
    decodeRecord interpreter maxBytes kind payload =
      instantiateDataclass interpreter kind fields object := by
  have hobject : unwrapEnvelope interpreter kind data = .ok object :=
    (unwrapEnvelope_ok_iff (readPayload_readable hdata).1.canonical).mpr hrecord
  rw [decodeRecord_read hfits hkind hdata, hobject]
  rfl

/-- A payload of an unknown kind or one that cannot be read is refused. -/
theorem decodeRecord_cases (hfits : (payload.length : Int) ≤ maxBytes) :
    (∃ error, decodeRecord interpreter maxBytes kind payload = .error error ∧
      error.isValidationError = true ∧ ∀ fields data,
        TypeHint.kindRegistry.lookup kind = some (.dataclass kind fields) →
          readPayload interpreter payload ≠ .ok data) ∨
    ∃ fields data, TypeHint.kindRegistry.lookup kind = some (.dataclass kind fields) ∧
      readPayload interpreter payload = .ok data := by
  cases hkind : TypeHint.kindRegistry.lookup kind with
  | none =>
      refine Or.inl ⟨.unknownKind kind, ?_, rfl, fun _ _ h => nomatch h⟩
      unfold decodeRecord
      rw [if_neg (not_lt.mpr hfits), hkind]
  | some hint =>
      obtain ⟨fields, rfl, _⟩ := TypeHint.declared_of_mem (mem_of_lookup_eq hkind)
      cases hdata : readPayload interpreter payload with
      | error error =>
          refine Or.inl ⟨error, ?_, readPayload_validates hdata, fun _ _ _ h => nomatch h⟩
          unfold decodeRecord
          rw [if_neg (not_lt.mpr hfits), hkind]
          dsimp only
          rw [hdata]
          rfl
      | ok data => exact Or.inr ⟨fields, data, rfl, rfl⟩

/-- Canonical bytes are read as the value they were written from. -/
theorem readPayload_canonicalBytes {value : Json} (hdumpable : value.Dumpable)
    (hfits : (WideJson.ofJson value).fits = true)
    (hdepth : (WideJson.ofJson value).depth ≤ interpreter.maxNesting) :
    readPayload interpreter (canonicalBytes value) = .ok (WideJson.ofJson value) := by
  rw [readPayload, canonicalBytes_eq, decodeUtf8?_encode]
  dsimp only
  rw [WideJson.loads_dumps_ofJson hdumpable hfits hdepth]

/-- A payload of a known kind is read, unwrapped and converted. -/
theorem decodeRecord_ok_iff {converted : Value} (hfits : (payload.length : Int) ≤ maxBytes) :
    decodeRecord interpreter maxBytes kind payload = .ok converted ↔ ∃ fields data object,
      TypeHint.kindRegistry.lookup kind = some (.dataclass kind fields) ∧
        readPayload interpreter payload = .ok data ∧ RecordIn kind data object ∧
          instantiateDataclass interpreter kind fields object = .ok converted := by
  constructor
  · intro h
    rcases decodeRecord_cases hfits with ⟨error, herror, _⟩ | ⟨fields, data, hkind, hdata⟩
    · rw [herror] at h
      cases h
    · rw [decodeRecord_read hfits hkind hdata, bind_eq_ok] at h
      obtain ⟨object, hobject, h⟩ := h
      have hrecord := (unwrapEnvelope_ok_iff (readPayload_readable hdata).1.canonical).mp hobject
      exact ⟨fields, data, object, hkind, hdata, hrecord, h⟩
  · rintro ⟨fields, data, object, hkind, hdata, hrecord, h⟩
    rw [decodeRecord_eq hfits hkind hdata hrecord, h]

end Decoder

/-! ## The decoder and its schema -/

section Exact

variable (interpreter : Interpreter) (kind : String) (payload : List UInt8)

/-- The schema of the decoder: the payload can be read, and the record in it conforms
to the declaration of its kind, with ISO datetimes that have an offset from UTC. -/
def MatchesSchema : Prop :=
  ∃ fields data object, TypeHint.kindRegistry.lookup kind = some (.dataclass kind fields) ∧
    readPayload interpreter payload = .ok data ∧ RecordIn kind data object ∧
      (TypeHint.dataclass kind fields).conforms interpreter.isAware (fun _ => true) object = true

/-- The decoder returns what matches its schema, as a record of the declared types,
and raises a `ValidationError` for everything else. -/
structure DecodesExactly (maxBytes : Int) : Prop where
  returns_iff : (∃ converted, decodeRecord interpreter maxBytes kind payload = .ok converted) ↔
    MatchesSchema interpreter kind payload
  refuses : ¬ MatchesSchema interpreter kind payload → ∃ error,
    decodeRecord interpreter maxBytes kind payload = .error error ∧ error.isValidationError = true
  inhabits : ∀ converted, decodeRecord interpreter maxBytes kind payload = .ok converted →
    ∀ hint, TypeHint.kindRegistry.lookup kind = some hint →
      hint.admits (fun _ => True) converted

/-- There is room for the message about the kind in an envelope and for the conversion of the
record. -/
def HasRoom : Prop :=
  ∀ fields data, TypeHint.kindRegistry.lookup kind = some (.dataclass kind fields) →
    readPayload interpreter payload = .ok data → KindSpelled interpreter data ∧
      ∀ object, RecordIn kind data object →
        (TypeHint.dataclass kind fields).manageable interpreter object = true

/-- There is room to decode the payload, and replacing every `Z` turns no datetime of the
record into another text and no other text into a datetime, unless another one decides. -/
structure DecodesPlainly : Prop where
  room : HasRoom interpreter kind payload
  texts : ∀ fields data object,
    TypeHint.kindRegistry.lookup kind = some (.dataclass kind fields) →
      readPayload interpreter payload = .ok data → RecordIn kind data object →
        (TypeHint.dataclass kind fields).conforms (fun _ => true) (fun _ => true) object = true →
          (((TypeHint.dataclass kind fields).datetimeTexts object).all interpreter.readsDatetime =
            ((TypeHint.dataclass kind fields).datetimeTexts object).all interpreter.isAware)

variable {interpreter kind payload}

/-- A payload holds one record of a kind: no envelope is a record. -/
theorem RecordIn.unique {data object other : WideJson} (h : RecordIn kind data object)
    (hother : RecordIn kind data other) : object = other := by
  cases h with
  | bare hbare =>
      cases hother with
      | bare => rfl
      | enveloped => exact absurd rfl (hbare _ _ _)
  | enveloped =>
      generalize hdata : envelope _ _ object = data at hother
      cases hother with
      | bare hbare => exact absurd hdata.symm (hbare _ _ _)
      | enveloped =>
          simp only [envelope, WideJson.obj.injEq, List.cons.injEq, Prod.mk.injEq] at hdata
          exact hdata.1.2

theorem RecordIn.canonical {data object : WideJson} (h : RecordIn kind data object)
    (hdata : data.Canonical) : object.Canonical := by
  cases h with
  | bare => exact hdata
  | enveloped =>
      rw [envelope, WideJson.canonical_obj, List.forall_mem_cons] at hdata
      exact hdata.2.1

section Read

variable {fields : List (String × TypeHint)} {data object : WideJson}

/-- Once the record in a readable payload is found, the schema speaks of that record alone. -/
theorem matchesSchema_iff
    (hkind : TypeHint.kindRegistry.lookup kind = some (.dataclass kind fields))
    (hdata : readPayload interpreter payload = .ok data) (hrecord : RecordIn kind data object) :
    MatchesSchema interpreter kind payload ↔
      (TypeHint.dataclass kind fields).conforms interpreter.isAware (fun _ => true) object =
        true := by
  constructor
  · rintro ⟨other, _, _, hother, hread, hfound, hconforms⟩
    rw [hkind] at hother
    cases hother
    rw [hdata] at hread
    cases hread
    rw [hrecord.unique hfound]
    exact hconforms
  · intro hconforms
    exact ⟨fields, data, object, hkind, hdata, hrecord, hconforms⟩

/-- Where there is room, a record is converted if it conforms, with the texts the conversion
takes for datetimes. -/
theorem instantiates_iff
    (hroom : (TypeHint.dataclass kind fields).manageable interpreter object = true) :
    (∃ converted, instantiateDataclass interpreter kind fields object = .ok converted) ↔
      (TypeHint.dataclass kind fields).conforms interpreter.readsDatetime (fun _ => true) object =
        true := by
  rw [instantiateDataclass_accepts fun field _ => acceptsConforming field.2,
    regardless _ _ hroom]

end Read

/-- The decoder returns or raises a `ValidationError` where it has room. -/
theorem foreseen_decodeRecord {maxBytes : Int} (hfits : (payload.length : Int) ≤ maxBytes) :
    foreseen (decodeRecord interpreter maxBytes kind payload) = true ↔
      HasRoom interpreter kind payload := by
  -- A payload that cannot be read is refused, with an error that says so.
  rcases decodeRecord_cases hfits with ⟨error, herror, hvalid, hnone⟩ | ⟨fields, data, hkind, hdata⟩
  · rw [herror]
    exact iff_of_true hvalid fun fields data hkind hdata => absurd hdata (hnone fields data hkind)
  · have hcanonical := (readPayload_readable hdata).1.canonical
    have hroom : HasRoom interpreter kind payload ↔ KindSpelled interpreter data ∧
        ∀ object, RecordIn kind data object →
          (TypeHint.dataclass kind fields).manageable interpreter object = true := by
      constructor
      · exact fun h => h fields data hkind hdata
      · rintro h others other hother hread
        rw [hkind] at hother
        cases hother
        rw [hdata] at hread
        cases hread
        exact h
    rw [hroom, decodeRecord_read hfits hkind hdata, ← foreseen_unwrapEnvelope hcanonical]
    cases hobject : unwrapEnvelope interpreter kind data with
    | error error =>
        refine Iff.symm (and_iff_left ?_)
        intro object hrecord
        rw [(unwrapEnvelope_ok_iff hcanonical).mpr hrecord] at hobject
        cases hobject
    | ok object =>
        have hrecord := (unwrapEnvelope_ok_iff hcanonical).mp hobject
        rw [foreseen_ok, and_iff_right rfl]
        have hinstance : foreseen (instantiateDataclass interpreter kind fields object) =
            (TypeHint.dataclass kind fields).manageable interpreter object :=
          foreseen_instantiate (fun field _ => follows field.2) object
        constructor
        · intro h other hother
          rw [← hrecord.unique hother, ← hinstance]
          exact h
        · intro h
          exact hinstance.trans (h object hrecord)

/-- Where the decoder reads the record plainly, it accepts what matches the schema. -/
theorem DecodesPlainly.instantiates_iff (h : DecodesPlainly interpreter kind payload)
    {fields : List (String × TypeHint)} {data object : WideJson}
    (hkind : TypeHint.kindRegistry.lookup kind = some (.dataclass kind fields))
    (hdata : readPayload interpreter payload = .ok data) (hrecord : RecordIn kind data object) :
    (∃ converted, instantiateDataclass interpreter kind fields object = .ok converted) ↔
      MatchesSchema interpreter kind payload := by
  have hroom := (h.room fields data hkind hdata).2 object hrecord
  rw [VerifierCI.instantiates_iff hroom, matchesSchema_iff hkind hdata hrecord,
    TypeHint.splitsTexts interpreter.readsDatetime,
    TypeHint.splitsTexts interpreter.isAware]
  cases hshape : (TypeHint.dataclass kind fields).conforms (fun _ => true) (fun _ => true)
      object with
  | true => rw [h.texts fields data object hkind hdata hrecord hshape]
  | false => simp

/-- Where there is room and no text changes by the replacement, the conversion succeeds on what
conforms, and refuses everything else. -/
theorem DecodesPlainly.exact {maxBytes : Int} (hfits : (payload.length : Int) ≤ maxBytes)
    (h : DecodesPlainly interpreter kind payload) :
    DecodesExactly interpreter kind payload maxBytes where
  returns_iff := by
    constructor
    · rintro ⟨converted, hdecode⟩
      obtain ⟨fields, data, object, hkind, hdata, hrecord, hconverted⟩ :=
        (decodeRecord_ok_iff hfits).mp hdecode
      exact (h.instantiates_iff hkind hdata hrecord).mp ⟨converted, hconverted⟩
    · intro hschema
      obtain ⟨fields, data, object, hkind, hdata, hrecord, _⟩ := id hschema
      rw [decodeRecord_eq hfits hkind hdata hrecord]
      exact (h.instantiates_iff hkind hdata hrecord).mpr hschema
  refuses := by
    intro hschema
    have hforeseen := (foreseen_decodeRecord hfits).mpr h.room
    cases hdecode : decodeRecord interpreter maxBytes kind payload with
    | ok converted =>
        obtain ⟨fields, data, object, hkind, hdata, hrecord, hconverted⟩ :=
          (decodeRecord_ok_iff hfits).mp hdecode
        exact absurd ((h.instantiates_iff hkind hdata hrecord).mp ⟨converted, hconverted⟩) hschema
    | error error =>
        rw [hdecode] at hforeseen
        exact ⟨error, rfl, hforeseen⟩
  inhabits := by
    intro converted hdecode hint hhint
    obtain ⟨fields, data, object, hkind, hdata, hrecord, hconverted⟩ :=
      (decodeRecord_ok_iff hfits).mp hdecode
    rw [hkind] at hhint
    cases hhint
    exact admits_of_convert (fun _ _ _ => trivial)
      (TypeHint.versioned_of_mem (mem_of_lookup_eq hkind))
      (hrecord.canonical (readPayload_readable hdata).1.canonical)
      (convertField_dataclass_ok_iff.mpr hconverted)

/-- Within the limit the decoder is exact if and only if it reads the payload plainly. There are
two ways out: a text that the replacement of `Z` changes for better or worse, and a value nested
too deep to be walked through or spelled out. -/
theorem decodesExactly_iff {maxBytes : Int} (hfits : (payload.length : Int) ≤ maxBytes) :
    DecodesExactly interpreter kind payload maxBytes ↔ DecodesPlainly interpreter kind payload := by
  constructor
  · intro h
    -- An exact decoder raises nothing but `ValidationError`, so it has room.
    have hroom : HasRoom interpreter kind payload := by
      rw [← foreseen_decodeRecord hfits]
      cases hdecode : decodeRecord interpreter maxBytes kind payload with
      | ok converted => rfl
      | error error =>
          have hschema : ¬ MatchesSchema interpreter kind payload := by
            intro hschema
            obtain ⟨converted, hconverted⟩ := h.returns_iff.mpr hschema
            rw [hdecode] at hconverted
            cases hconverted
          obtain ⟨other, hother, hvalid⟩ := h.refuses hschema
          rw [hdecode] at hother
          cases hother
          exact hvalid
    refine ⟨hroom, fun fields data object hkind hdata hrecord hshape => ?_⟩
    have hmanageable := (hroom fields data hkind hdata).2 object hrecord
    have hiff := h.returns_iff
    rw [decodeRecord_eq hfits hkind hdata hrecord, instantiates_iff hmanageable,
      matchesSchema_iff hkind hdata hrecord, TypeHint.splitsTexts interpreter.readsDatetime,
      TypeHint.splitsTexts interpreter.isAware, hshape, Bool.true_and, Bool.true_and] at hiff
    exact Bool.eq_iff_iff.mpr hiff
  · exact DecodesPlainly.exact hfits

end Exact

/-! ## A `Z` inside a datetime -/

/-- A vote recorded at no ISO datetime. -/
def innerZuluVote : Json :=
  .obj [("reviewer_id", .str "r"), ("label", .str "valid"), ("rationale", .str ""),
    ("minutes", .null), ("blinded_to_verifier", .bool true), ("independent_of_author", .bool true),
    ("recorded_at", .str "2024-01-01T00:00Z:00")]

/-- A vote whose time has a `Z` inside, where no ISO datetime has one. -/
theorem decodesExactly_iff_innerZulu :
    DecodesExactly .default "ReviewVote" (canonicalBytes innerZuluVote)
        (canonicalBytes innerZuluVote).length ↔
      DecodesPlainly .default "ReviewVote" (canonicalBytes innerZuluVote) :=
  decodesExactly_iff le_rfl

theorem innerZuluVote_read : readPayload .default (canonicalBytes innerZuluVote) =
    .ok (WideJson.ofJson innerZuluVote) := by
  apply readPayload_canonicalBytes
  · have hkeys : ["reviewer_id", "label", "rationale", "minutes", "blinded_to_verifier",
        "independent_of_author", "recorded_at"].Nodup := by decide
    exact ⟨hkeys, trivial, trivial, trivial, trivial, trivial, trivial, trivial, trivial⟩
  · decide +kernel
  · decide +kernel

/-- Its `Z` becomes an offset of zero in front of the last two digits, and the vote is
accepted. -/
theorem innerZulu_accepted :
    ¬ DecodesExactly .default "ReviewVote" (canonicalBytes innerZuluVote)
      (canonicalBytes innerZuluVote).length := by
  intro h
  have hcanonical := (readPayload_readable innerZuluVote_read).1.canonical
  have hrecord : RecordIn "ReviewVote" (WideJson.ofJson innerZuluVote)
      (WideJson.ofJson innerZuluVote) := (@unwrapEnvelope_ok_iff .default _ _ _ hcanonical).mp rfl
  have haccepted : ∃ converted, instantiateDataclass .default "ReviewVote"
      [("reviewer_id", .str), ("label", .literal ["valid", "invalid", "unresolved"]),
        ("rationale", .str), ("minutes", .optional .float), ("blinded_to_verifier", .bool),
        ("independent_of_author", .bool), ("recorded_at", .datetime)]
      (WideJson.ofJson innerZuluVote) = .ok converted := by
    apply (instantiateDataclass_accepts (fun field _ => acceptsConforming field.2) _).mpr
    decide +kernel
  rw [← decodeRecord_eq le_rfl rfl innerZuluVote_read hrecord] at haccepted
  have hschema := h.returns_iff.mp haccepted
  rw [matchesSchema_iff rfl innerZuluVote_read hrecord] at hschema
  revert hschema
  decide +kernel

end VerifierCI
