import VerifierCI.Models.ReadingBack

/-! # Round trips of records

A record is decoded from its own bytes, unless a string of it cannot be encoded, an
integer is too long, a float is not finite, or a datetime leaves the years 1000 to 9999
when it is converted to UTC. The manifest of an audit result comes back as a mapping.
-/

namespace VerifierCI

open Python

/-! ## Nesting -/

/-- What is written for a declared value nests no deeper than its type. -/
theorem depth_le_nesting {hint : TypeHint} (htyped : hint.typed = true)
    {any : Value → Prop} {value : Value} {json : WideJson} (hadmits : hint.admits any value)
    (hrepr : canonicalRepr value = .ok json) : json.depth ≤ hint.nesting := by
  induction hint using TypeHint.ind generalizing value json with
  -- a typed hint bounds the depth, and this one would bound nothing
  | any => cases htyped
  | datetime =>
      cases value with
      | datetime date =>
          obtain ⟨_, _, _, rfl⟩ := canonicalRepr_datetime_ok_iff.mp hrepr
          exact le_rfl
      | _ => cases hadmits
  | float =>
      cases value with
      | float x =>
          obtain ⟨_, rfl⟩ := canonicalRepr_float_ok_iff.mp hrepr
          exact le_rfl
      | _ => cases hadmits
  | optional alternative ih =>
      by_cases hvalue : value = .none
      · obtain rfl := hvalue
        obtain rfl := Except.ok.inj hrepr
        exact Nat.zero_le _
      · exact ih htyped ((admits_optional_iff hvalue).mp hadmits) hrepr
  | tuple item ih =>
      cases value with
      | tuple items =>
          obtain ⟨others, hothers, rfl⟩ := canonicalRepr_tuple_ok_iff.mp hrepr
          refine Nat.succ_le_succ (WideJson.itemsDepth_le.mpr fun other hother => ?_)
          obtain ⟨value, hvalue, hvalueRepr⟩ := exists_of_mem_forall₂ hothers.flip hother
          exact ih htyped (hadmits value hvalue) hvalueRepr
      | _ => cases hadmits
  | mapping entry ih =>
      cases value with
      | mapping entries =>
          obtain ⟨members, hmembers, rfl⟩ := canonicalRepr_mapping_ok_iff.mp hrepr
          refine Nat.succ_le_succ (WideJson.membersDepth_le.mpr fun member hmember => ?_)
          obtain ⟨value, hvalue, _, hvalueRepr⟩ := exists_of_mem_forall₂ hmembers.flip hmember
          exact ih htyped (hadmits.2 value hvalue) hvalueRepr
      | _ => cases hadmits
  | dataclass cls fields ih =>
      cases value with
      | record name slots =>
          have hfields := TypeHint.fieldsTyped_iff.mp htyped
          have hslots := TypeHint.fieldsAdmit_iff.mp hadmits.2
          obtain ⟨members, hmembers, rfl⟩ := canonicalRepr_record_ok_iff.mp hrepr
          refine Nat.succ_le_succ (WideJson.membersDepth_le.mpr fun member hmember => ?_)
          obtain ⟨slot, hslot, _, hslotRepr⟩ :=
            exists_of_mem_forall₂ hmembers.flip (mem_dict.mp hmember)
          obtain ⟨field, hfield, _, hslotAdmits, _⟩ := exists_of_mem_forall₂ hslots.flip hslot
          exact (ih field hfield (hfields field hfield) hslotAdmits hslotRepr).trans
            (TypeHint.fieldsNesting_le.mp le_rfl field hfield)
      | _ => cases hadmits
  | _ =>
      cases value with
      | bool | int | str =>
          obtain rfl := Except.ok.inj hrepr
          exact Nat.zero_le _
      | _ => cases hadmits

/-! ## Bytes -/

section Bytes

variable {interpreter : Interpreter} {record : Value} {bytes : List UInt8}

/-- A record is written if it has a canonical form that can be walked through, with
integers and strings that can be spelled. -/
theorem encodeRecord_ok_iff : encodeRecord interpreter record = .ok bytes ↔
    ∃ json text, canonicalRepr record = .ok json ∧ interpreter.encodes record.skeleton = true ∧
      record.all (fun _ => true) Value.scalarFits = true ∧ json.narrow = some text ∧
        canonicalBytes text = bytes := by
  constructor
  · intro h
    obtain ⟨json, hrepr, h⟩ := bind_eq_ok.mp h
    rw [canonicalRepr_skeleton hrepr, canonicalRepr_fits hrepr] at h
    split_ifs at h with hwalks hfits
    cases hnarrow : json.narrow with
    | none =>
        rw [hnarrow] at h
        cases h
    | some text =>
        rw [hnarrow] at h
        exact ⟨json, text, hrepr, (Bool.not_eq_false _).mp hwalks, (Bool.not_eq_false _).mp hfits,
          hnarrow, Except.ok.inj h⟩
  · rintro ⟨json, text, hrepr, hwalks, hfits, hnarrow, rfl⟩
    refine bind_eq_ok.mpr ⟨json, hrepr, ?_⟩
    rw [canonicalRepr_skeleton hrepr, canonicalRepr_fits hrepr, hwalks, hfits, hnarrow,
      if_neg (by decide), if_neg (by decide)]

/-- What can be kept is written, if the encoder can walk through it. -/
theorem encodeRecord_returns (hkept : record.Kept)
    (hwalks : interpreter.encodes record.skeleton = true) :
    ∃ json text, canonicalRepr record = .ok json ∧ json.narrow = some text ∧
      encodeRecord interpreter record = .ok (canonicalBytes text) := by
  obtain ⟨json, hrepr⟩ := canonicalRepr_returns hkept.finite hkept.years
  obtain ⟨text, hnarrow⟩ : ∃ text, json.narrow = some text := by
    rw [WideJson.exists_narrow_iff, canonicalRepr_unicode hrepr]
    exact hkept.unicode
  exact ⟨json, text, hrepr, hnarrow,
    encodeRecord_ok_iff.mpr ⟨json, text, hrepr, hwalks, hkept.digits, hnarrow, rfl⟩⟩

/-- A record and its copy with datetimes in UTC have the same bytes. -/
theorem encodeRecord_utc (h : encodeRecord interpreter record = .ok bytes) :
    encodeRecord interpreter record.utc = .ok bytes := by
  obtain ⟨json, hrepr, hbytes⟩ := bind_eq_ok.mp h
  exact bind_eq_ok.mpr ⟨json, canonicalRepr_utc hrepr, hbytes⟩

variable {kind : String} {fields : List (String × TypeHint)} {maxBytes : Int}

/-- No record is written as an envelope. -/
theorem not_envelope {slots : List (String × Value)} {members : List (WideString × WideJson)}
    {any : Value → Prop} (hdeclared : TypeHint.Declared kind fields)
    (hwritten : Written fields slots members any) (version found inner : WideJson) :
    WideJson.obj (dict members) ≠ envelope version found inner := by
  intro heq
  obtain ⟨name, hname, hnot⟩ := hdeclared.not_envelope
  apply hnot
  have hmember : ∃ json, (wide name, json) ∈ dict members := by
    rw [WideJson.obj.inj heq]
    rcases List.mem_cons.mp hname with rfl | hname
    · exact ⟨version, by simp⟩
    · rcases List.mem_pair.mp hname with rfl | rfl
      · exact ⟨found, by simp⟩
      · exact ⟨inner, by simp⟩
  obtain ⟨json, hmember⟩ := hmember
  obtain ⟨field, hfield, _, _, hkey, _⟩ := hwritten.slot hmember
  rw [wide_injective hkey]
  exact List.mem_map_of_mem hfield

/-- The bytes of a record are read as what was written for it. -/
theorem decodeRecord_canonicalBytes
    (hkind : TypeHint.kindRegistry.lookup kind = some (.dataclass kind fields))
    (hadmits : (TypeHint.dataclass kind fields).admits (FromJson interpreter) record)
    {json : WideJson} {text : Json} (hrepr : canonicalRepr record = .ok json)
    (hfits : record.all (fun _ => true) Value.scalarFits = true) (hnarrow : json.narrow = some text)
    (hdepth : json.depth ≤ interpreter.maxNesting)
    (hmax : ((canonicalBytes text).length : Int) ≤ maxBytes) :
    decodeRecord interpreter maxBytes kind (canonicalBytes text) =
      instantiateDataclass interpreter kind fields json := by
  obtain ⟨others, heq, hdeclared⟩ := TypeHint.declared_of_mem (mem_of_lookup_eq hkind)
  obtain rfl : fields = others := (TypeHint.dataclass.inj heq).2
  have hcanonical := canonicalRepr_canonical (wellKeyed_of_admits hdeclared.distinct hadmits) hrepr
  have hsource := WideJson.ofJson_of_narrow hcanonical hnarrow
  have hread : readPayload interpreter (canonicalBytes text) = .ok json := by
    rw [← hsource]
    apply readPayload_canonicalBytes
    · exact WideJson.dumpable_of_narrow hcanonical (canonicalRepr_finite hrepr) hnarrow
    · rw [hsource, canonicalRepr_fits hrepr, hfits]
    · rw [hsource]
      exact hdepth
  obtain ⟨slots, members, rfl, rfl, hwritten⟩ :=
    written_of_admits hdeclared.distinct hadmits hrepr
  exact decodeRecord_eq hmax hkind hread (.bare (not_envelope hdeclared hwritten))

/-- What can be kept is decoded from its own bytes, with its datetimes in UTC. -/
theorem decode_of_kept
    (hkind : TypeHint.kindRegistry.lookup kind = some (.dataclass kind fields))
    (hadmits : (TypeHint.dataclass kind fields).admits (FromJson interpreter) record)
    (hdepth : ∀ json, canonicalRepr record = .ok json → json.depth ≤ interpreter.maxNesting)
    (hkept : record.Kept) (hwalks : interpreter.encodes record.skeleton = true) :
    ∃ bytes, encodeRecord interpreter record = .ok bytes ∧ record.utc.eq record = true ∧
      ∀ maxBytes : Int, bytes.length ≤ maxBytes →
        decodeRecord interpreter maxBytes kind bytes = .ok record.utc := by
  obtain ⟨_, heq, hdeclared⟩ := TypeHint.declared_of_mem (mem_of_lookup_eq hkind)
  obtain rfl := (TypeHint.dataclass.inj heq).2
  obtain ⟨json, text, hrepr, hnarrow, hencode⟩ := encodeRecord_returns hkept hwalks
  refine ⟨canonicalBytes text, hencode, utc_eq_self hrepr, fun maxBytes hmax => ?_⟩
  rw [decodeRecord_canonicalBytes hkind hadmits hrepr hkept.digits hnarrow (hdepth json hrepr) hmax,
    ← convertField_dataclass_ok_iff]
  exact convert_canonicalRepr hdeclared.distinct hadmits hrepr hkept.years

/-- Only what can be kept is decoded from its own bytes. -/
theorem kept_of_decode
    (hkind : TypeHint.kindRegistry.lookup kind = some (.dataclass kind fields))
    (hadmits : (TypeHint.dataclass kind fields).admits (FromJson interpreter) record)
    (hdepth : ∀ json, canonicalRepr record = .ok json → json.depth ≤ interpreter.maxNesting)
    (hencode : encodeRecord interpreter record = .ok bytes)
    (hmax : (bytes.length : Int) ≤ maxBytes) {back : Value}
    (hdecode : decodeRecord interpreter maxBytes kind bytes = .ok back) :
    record.Kept ∧ interpreter.encodes record.skeleton = true := by
  obtain ⟨_, heq, hdeclared⟩ := TypeHint.declared_of_mem (mem_of_lookup_eq hkind)
  obtain rfl := (TypeHint.dataclass.inj heq).2
  obtain ⟨json, text, hrepr, hwalks, hfits, hnarrow, rfl⟩ := encodeRecord_ok_iff.mp hencode
  rw [decodeRecord_canonicalBytes hkind hadmits hrepr hfits hnarrow (hdepth json hrepr) hmax,
    ← convertField_dataclass_ok_iff] at hdecode
  refine ⟨⟨?_, hfits, finite_of_canonicalRepr hrepr, ?_⟩, hwalks⟩
  · rw [← canonicalRepr_unicode hrepr]
    exact WideJson.exists_narrow_iff.mp ⟨text, hnarrow⟩
  · exact years_of_convert hdeclared.distinct hadmits hrepr hdecode

end Bytes

/-! ## Records of declared types -/

/-- An instance of the class of a kind, with values of the declared types in its fields.
What the audit result declares as `Any` is a manifest. -/
def Inhabits (kind : String) (record : Value) : Prop :=
  ∃ hint, TypeHint.kindRegistry.lookup kind = some hint ∧
    hint.admits (TypeHint.auditManifest.admits fun _ => False) record

/-- A record is written, and decoded from its bytes as a record equal to it. -/
def RoundTrips (interpreter : Interpreter) (maxBytes : Int) (kind : String) (record : Value) :
    Prop :=
  ∃ bytes back, encodeRecord interpreter record = .ok bytes ∧
    decodeRecord interpreter maxBytes kind bytes = .ok back ∧ back.eq record = true

/-- The encoder can walk through six levels, as deep as the declarations nest. -/
def Interpreter.EncodesDeclared (interpreter : Interpreter) : Prop :=
  ∀ skeleton : WideJson, skeleton.depth ≤ 6 → interpreter.encodes skeleton = true

/-- The size is checked before the payload is read. -/
theorem length_le_of_decode {interpreter : Interpreter} {maxBytes : Int} {kind : String}
    {payload : List UInt8} {record : Value}
    (h : decodeRecord interpreter maxBytes kind payload = .ok record) :
    (payload.length : Int) ≤ maxBytes := by
  by_contra hlong
  rw [decodeRecord, if_pos (not_le.mp hlong)] at h
  cases h

/-- The manifest of an audit result is decoded as a mapping, which is no manifest. -/
theorem auditResult_changes {interpreter : Interpreter} {maxBytes : Int} {bytes : List UInt8}
    {record back : Value} (hrecord : Inhabits "AuditResult" record)
    (hdecode : decodeRecord interpreter maxBytes "AuditResult" bytes = .ok back) :
    back.eq record = false := by
  obtain ⟨hint, hkind, hadmits⟩ := hrecord
  obtain rfl : TypeHint.auditResult = hint := Option.some.inj hkind
  obtain ⟨fields, _, object, hlookup, _, _, hconverted⟩ :=
    (decodeRecord_ok_iff (length_le_of_decode hdecode)).mp hdecode
  obtain rfl : _ = fields := (TypeHint.dataclass.inj (Option.some.inj hlookup)).2
  obtain ⟨members, slots, _, _, hslots, rfl⟩ := instantiateDataclass_ok_iff.mp hconverted
  obtain ⟨manifest, _, hmanifest, _, rfl⟩ :=
    List.forall₂_cons_left_iff.mp (convertFields_ok_iff.mp hslots)
  obtain ⟨_, source, _, hsource⟩ := hmanifest
  obtain ⟨_, hsource⟩ := convertField_any_ok_iff.mp hsource
  cases record with
  | record name others =>
      obtain ⟨other, _, ⟨_, hother, _⟩, _, rfl⟩ :=
        List.forall₂_cons_left_iff.mp (TypeHint.fieldsAdmit_iff.mp hadmits.2)
      rw [← Bool.not_eq_true, Value.eq_record, List.forall₂_cons]
      rintro ⟨_, ⟨_, heq⟩, _⟩
      rw [← hsource] at heq
      cases hvalue : other.2 with
      | record cls rest =>
          rw [hvalue, convertAny_eq_record] at heq
          cases heq
      | _ =>
          rw [hvalue] at hother
          cases hother
  | _ => cases hadmits

/-- A record survives the round trip if and only if it is no audit result and all its
scalars are kept: strings without surrogates, integers that are not too long, finite
floats, and datetimes in the years 1000 to 9999 in UTC. -/
theorem roundTrips_iff {interpreter : Interpreter} (hlimit : interpreter.EncodesDeclared)
    {kind : String} {record : Value} (hrecord : Inhabits kind record) {maxBytes : Int}
    (hfits : ∀ bytes, encodeRecord interpreter record = .ok bytes →
      (bytes.length : Int) ≤ maxBytes) :
    RoundTrips interpreter maxBytes kind record ↔ kind ≠ "AuditResult" ∧ record.Kept := by
  by_cases haudit : kind = "AuditResult"
  -- An audit result has a field of any type, which comes back as something else.
  · obtain rfl := haudit
    refine iff_of_false ?_ fun h => h.1 rfl
    rintro ⟨bytes, back, _, hdecode, heq⟩
    rw [auditResult_changes hrecord hdecode] at heq
    cases heq
  · obtain ⟨hint, hkind, hinhabits⟩ := hrecord
    have hmem := mem_of_lookup_eq hkind
    have htyped := TypeHint.typed_of_mem hmem haudit
    obtain ⟨fields, rfl, hdeclared⟩ := TypeHint.declared_of_mem hmem
    have hadmits : (TypeHint.dataclass kind fields).admits (FromJson interpreter) record :=
      admits_of_typed htyped hinhabits
    -- The typed kinds are shallow, so neither reader nor writer runs out of frames.
    have hnesting : ∀ json, canonicalRepr record = .ok json → json.depth ≤ 6 :=
      fun json hrepr => (depth_le_nesting htyped hadmits hrepr).trans hdeclared.nesting
    have hdepth : ∀ json, canonicalRepr record = .ok json →
        json.depth ≤ interpreter.maxNesting := fun json hrepr =>
      (hnesting json hrepr).trans (le_trans (by decide) interpreter.maxNesting_ge)
    constructor
    · rintro ⟨bytes, back, hencode, hdecode, _⟩
      exact ⟨haudit, (kept_of_decode hkind hadmits hdepth hencode (hfits bytes hencode)
        hdecode).1⟩
    · rintro ⟨_, hkept⟩
      obtain ⟨json, hrepr⟩ := canonicalRepr_returns hkept.finite hkept.years
      have hwalks : interpreter.encodes record.skeleton = true := by
        apply hlimit
        rw [← canonicalRepr_skeleton hrepr, WideJson.depth_skeleton]
        exact hnesting json hrepr
      obtain ⟨bytes, hencode, heq, hdecode⟩ := decode_of_kept hkind hadmits hdepth hkept hwalks
      exact ⟨bytes, record.utc, hencode, hdecode maxBytes (hfits bytes hencode), heq⟩

theorem default_encodesDeclared : Interpreter.default.EncodesDeclared :=
  fun _ hdepth => decide_eq_true (hdepth.trans (by decide))

def plainTerm : Value :=
  .record "MetricTerm" [("task_key", .str (wide "t")), ("numerator", .int 1),
    ("denominator", .int 2), ("excluded", .mapping [(wide "a", .int 3)])]

def plainTermText : Json :=
  .obj [("denominator", .int 2), ("excluded", .obj [("a", .int 3)]), ("numerator", .int 1),
    ("task_key", .str "t")]

theorem canonicalRepr_plainTerm :
    canonicalRepr plainTerm = .ok (WideJson.ofJson plainTermText) := rfl

theorem narrow_plainTerm : (WideJson.ofJson plainTermText).narrow = some plainTermText := rfl

theorem fits_plainTerm : plainTerm.all (fun _ => true) Value.scalarFits = true := by
  decide +kernel

theorem encodeRecord_plainTerm :
    encodeRecord .default plainTerm = .ok (canonicalBytes plainTermText) :=
  encodeRecord_ok_iff.mpr ⟨_, plainTermText, canonicalRepr_plainTerm, by decide +kernel,
    fits_plainTerm, narrow_plainTerm, rfl⟩

theorem plainTerm_admitted (any : Value → Prop) :
    TypeHint.metricTerm.admits any plainTerm := by
  refine ⟨rfl, ?_⟩
  simp [TypeHint.fieldsAdmit, TypeHint.admits]
  decide

/-- The term is no audit result, and its scalars are kept. -/
theorem roundTrips_iff_plainTerm :
    RoundTrips .default (canonicalBytes plainTermText).length "MetricTerm" plainTerm ↔
      "MetricTerm" ≠ "AuditResult" ∧ plainTerm.Kept := by
  refine roundTrips_iff default_encodesDeclared ⟨_, rfl, plainTerm_admitted _⟩ ?_
  intro bytes hbytes
  rw [encodeRecord_plainTerm] at hbytes
  rw [Except.ok.inj hbytes]

/-- A manifest of a run without tasks. -/
def epochManifest : Value :=
  .record "AuditManifest" [
    ("manifest_hash", .str (wide "m")), ("run_id", .str (wide "r")),
    ("benchmark_version", .str (wide "1")), ("task_pins", .tuple []),
    ("panel_key", .str (wide "p")), ("adjudication_version", .str (wide "1")),
    ("evaluation_harness_version", .str (wide "1")), ("config_hash", .str (wide "c")),
    ("policy_hash", .str (wide "p")), ("analysis_plan_hash", .none),
    ("timestamp", .datetime ⟨0, some 0, Datetime.zero_mem, Datetime.utc_mem⟩),
    ("host_fingerprint", .str (wide "h")), ("seed", .none), ("agent_version", .none),
    ("model_identifier", .none), ("max_repetitions", .int 1), ("max_attempts_per_job", .int 1),
    ("timeout_seconds", .int 60), ("resource_policy", .str (wide "p")),
    ("expansion_digest", .str (wide "e")), ("parent_run_id", .none)]

def epochAudit : Value :=
  .record "AuditResult" [("manifest", epochManifest), ("matrix", .none), ("metrics", .tuple []),
    ("gate", .none), ("diagnostics", .tuple []), ("artifacts", .tuple [])]

/-- A manifest declared with `Any` comes back as a mapping, so the record read is
another one. -/
theorem epochAudit_changes :
    Inhabits "AuditResult" epochAudit ∧ epochAudit.Kept ∧
      (∃ bytes, encodeRecord .default epochAudit = .ok bytes) ∧
        ∀ maxBytes, ¬ RoundTrips .default maxBytes "AuditResult" epochAudit := by
  have hinhabits : Inhabits "AuditResult" epochAudit := by
    refine ⟨_, rfl, rfl, ?_⟩
    simp [epochManifest, TypeHint.auditManifest, TypeHint.fieldsAdmit, TypeHint.admits]
  have hkept : epochAudit.Kept :=
    ⟨by decide +kernel, by decide +kernel, by decide +kernel, by decide +kernel⟩
  obtain ⟨_, text, _, _, hencode⟩ :=
    @encodeRecord_returns .default _ hkept (by decide +kernel)
  refine ⟨hinhabits, hkept, ⟨_, hencode⟩, ?_⟩
  rintro maxBytes ⟨bytes, back, _, hdecode, heq⟩
  rw [auditResult_changes hinhabits hdecode] at heq
  cases heq

end VerifierCI
