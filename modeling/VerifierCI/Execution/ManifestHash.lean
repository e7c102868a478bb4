import VerifierCI.Execution.PlanIdentity
import VerifierCI.Models.Decoder
import VerifierCI.Models.Encoding

/-! # What a manifest hash stands for

The hash is computed from a dictionary that is put together by hand, next to the encoder
of records. The dictionary leaves nothing out, so the hash binds the plan. It spells the
planning time the way `isoformat` does and not the way records do, so nobody who hashes
the record finds the hash again.
-/

namespace VerifierCI

open Python

def manifestBytes (manifest : AuditManifest) : List UInt8 :=
  canonicalBytes (manifestDict manifest)

/-! ## Building -/

section Build

variable {sha256 : List UInt8 → Digest} {uuid : String} {now : Datetime}
  {request : ManifestRequest} {manifest : AuditManifest}

/-- What a built manifest says about itself. -/
structure BuiltAt (sha256 : List UInt8 → Digest) (now : Datetime) (manifest : AuditManifest) :
    Prop where
  timestamp : manifest.timestamp = now
  expansionDigest : (computeExpansionDigest sha256 (expand sha256 manifest)).text =
    manifest.expansionDigest
  manifestHash : manifest.manifestHash = (sha256 (manifestBytes manifest)).text

/-- A manifest that is built carries the digest of the record it is hashed as. -/
theorem buildManifest_builtAt (h : buildManifest sha256 uuid now request = .ok manifest) :
    BuiltAt sha256 now manifest := by
  unfold buildManifest at h
  simp only at h
  split_ifs at h
  · cases h
  · obtain ⟨_, hmanifest⟩ := bind_eq_ok_unit.mp h
    obtain rfl := Except.ok.inj hmanifest
    exact ⟨rfl, rfl, rfl⟩

end Build

/-! ## The dictionary -/

theorem dumpable_ofOption_str (value : Option String) : (Json.ofOption .str value).Dumpable := by
  cases value <;> trivial

theorem dumpable_ofOption_int (value : Option Int) : (Json.ofOption .int value).Dumpable := by
  cases value <;> trivial

theorem TaskPin.toJson_dumpable (pin : TaskPin) : pin.toJson.Dumpable := by
  refine Json.dumpable_obj (by simp) ?_
  simp [Json.Dumpable, Json.dumpable_ofStrings, dumpable_ofOption_str]

/-- No manifest holds a float, so nothing in it is refused for not being finite. -/
theorem manifestDict_dumpable (manifest : AuditManifest) : (manifestDict manifest).Dumpable := by
  have hpins : (Json.arr (manifest.taskPins.map TaskPin.toJson)).Dumpable := by
    rw [Json.Dumpable, Json.itemsDumpable_iff]
    intro item hitem
    obtain ⟨pin, _, rfl⟩ := List.mem_map.mp hitem
    exact pin.toJson_dumpable
  refine Json.dumpable_obj (by simp) ?_
  simp only [List.forall_mem_cons, List.not_mem_nil, IsEmpty.forall_iff, implies_true, and_true,
    dumpable_ofOption_str, hpins, dumpable_ofOption_int]
  simp only [Json.Dumpable, and_self]

theorem ofOption_str_injective : Function.Injective (Json.ofOption Json.str) :=
  Json.ofOption_injective (fun _ _ => Json.str.inj) fun _ => nofun

theorem ofOption_int_injective : Function.Injective (Json.ofOption Json.int) :=
  Json.ofOption_injective (fun _ _ => Json.int.inj) fun _ => nofun

theorem sortKeys_ofOption_str (value : Option String) :
    (Json.ofOption .str value).sortKeys = Json.ofOption .str value :=
  Json.sortKeys_ofOption (fun _ => rfl) value

theorem sortKeys_ofOption_int (value : Option Int) :
    (Json.ofOption .int value).sortKeys = Json.ofOption .int value :=
  Json.sortKeys_ofOption (fun _ => rfl) value

/-- Pins written alike are one pin. -/
theorem TaskPin.eq_of_toJson {pin pin' : TaskPin}
    (h : pin.toJson.sortKeys = pin'.toJson.sortKeys) : pin = pin' := by
  have hvalues := Json.values_eq_of_sortKeys_eq (by rfl) (by simp) h
  simp only [List.map_cons, List.map_nil, Json.sortKeys, Json.sortKeys_ofStrings,
    sortKeys_ofOption_str, List.cons.injEq, Json.str.injEq, and_true] at hvalues
  obtain ⟨hkey, hversion, hcontract, hsnapshot, henvironment, himage, hbaseline, hcandidate,
    hbaselineHash, hcandidateHash, hcases⟩ := hvalues
  cases pin
  cases pin'
  rw [TaskPin.mk.injEq]
  exact ⟨hkey, hversion, hcontract, hsnapshot, henvironment, ofOption_str_injective himage,
    hbaseline, hcandidate, hbaselineHash, hcandidateHash, Json.ofStrings_injective hcases⟩

/-- UTC datetimes with one ISO text are one datetime. -/
theorem eq_of_isoformat {value other : Datetime} (hvalue : value.utcoffset = some 0)
    (hother : other.utcoffset = some 0) (h : value.isoformat = other.isoformat) :
    value = other := by
  apply Option.some.inj
  rw [← fromIsoformat_isoformat hvalue, h, fromIsoformat_isoformat hother]

/-- Nothing but its hash is missing from the dictionary of a manifest. -/
theorem eq_of_manifestBytes {manifest manifest' : AuditManifest}
    (hutc : manifest.timestamp.utcoffset = some 0)
    (hutc' : manifest'.timestamp.utcoffset = some 0)
    (h : manifestBytes manifest = manifestBytes manifest')
    (hhash : manifest.manifestHash = manifest'.manifestHash) : manifest = manifest' := by
  have hvalues := values_eq_of_canonicalBytes_eq (by rfl) (by simp)
    (manifestDict_dumpable manifest) (manifestDict_dumpable manifest') h
  simp only [List.map_cons, List.map_nil, Json.sortKeys, Json.sortItems_eq, List.map_map,
    sortKeys_ofOption_str, sortKeys_ofOption_int, List.cons.injEq, Json.str.injEq, Json.arr.injEq,
    Json.int.injEq, and_true] at hvalues
  obtain ⟨hrun, hbenchmark, hpins, hpanel, hadjudication, hharness, hconfig, hpolicy, hanalysis,
    htimestamp, hhost, hseed, hagent, hmodel, hrepetitions, hattempts, htimeout, hresource,
    hexpansion, hparent⟩ := hvalues
  have hpins := (List.map_inj_right fun _ _ heq => TaskPin.eq_of_toJson heq).mp hpins
  have htimestamp := eq_of_isoformat hutc hutc' (String.ofList_injective htimestamp)
  cases manifest
  cases manifest'
  rw [AuditManifest.mk.injEq]
  exact ⟨hhash, hrun, hbenchmark, hpins, hpanel, hadjudication, hharness, hconfig, hpolicy,
    ofOption_str_injective hanalysis, htimestamp, hhost, ofOption_int_injective hseed,
    ofOption_str_injective hagent, ofOption_str_injective hmodel, hrepetitions, hattempts,
    htimeout, hresource, hexpansion, ofOption_str_injective hparent⟩

/-- Equal hashes are hashes of equal manifests: what is hashed is the record without its hash,
written canonically, and SHA-256 does not collide on it. -/
theorem manifest_eq_of_hash {sha256 : List UInt8 → Digest} {uuid uuid' : String}
    {now now' : Datetime} {request request' : ManifestRequest} {manifest manifest' : AuditManifest}
    (hnow : now.utcoffset = some 0) (hnow' : now'.utcoffset = some 0)
    (hbuild : buildManifest sha256 uuid now request = .ok manifest)
    (hbuild' : buildManifest sha256 uuid' now' request' = .ok manifest')
    (hfree : CollisionFree sha256 [manifestBytes manifest, manifestBytes manifest'])
    (hhash : manifest.manifestHash = manifest'.manifestHash) : manifest = manifest' := by
  have hbuilt := buildManifest_builtAt hbuild
  have hbuilt' := buildManifest_builtAt hbuild'
  have hbytes := hfree _ (by simp) _ (by simp)
    (hbuilt.manifestHash.symm.trans (hhash.trans hbuilt'.manifestHash))
  exact eq_of_manifestBytes (by rw [hbuilt.timestamp, hnow]) (by rw [hbuilt'.timestamp, hnow'])
    hbytes hhash

/-- The second plan takes its run id from the uuid. -/
theorem buildManifest_nameless :
    buildManifest planSha256 "run" smallManifest.timestamp { smallRequest with runId := none } =
      .ok smallManifest := by
  rw [← buildManifest_small]
  rfl

/-- The small plan, built once for a request and once for the run it has become. -/
theorem manifest_eq_of_hash_small : ∃ manifest manifest',
    buildManifest planSha256 "uuid" smallManifest.timestamp smallRequest = .ok manifest ∧
      buildManifest planSha256 "run" smallManifest.timestamp
        { smallRequest with runId := none } = .ok manifest' ∧ manifest = manifest' :=
  ⟨smallManifest, smallManifest, buildManifest_small, buildManifest_nameless,
    manifest_eq_of_hash rfl rfl buildManifest_small buildManifest_nameless
      (collisionFree_pair fun _ => rfl) rfl⟩

/-! ## The record -/

def Value.ofOption {α : Type} (write : α → Value) : Option α → Value
  | Option.none => .none
  | some a => write a

/-- A text without lone surrogates. -/
def Value.text (value : String) : Value :=
  .str (wide value)

def TaskPin.toRecord (pin : TaskPin) : Value :=
  .record "TaskPin" [
    ("task_key", .text pin.taskKey),
    ("task_version", .text pin.taskVersion),
    ("contract_hash", .text pin.contractHash),
    ("repository_snapshot_digest", .text pin.repositorySnapshotDigest),
    ("environment_id", .text pin.environmentId),
    ("environment_image_digest", Value.ofOption .text pin.environmentImageDigest),
    ("verifier_baseline_version", .text pin.verifierBaselineVersion),
    ("verifier_candidate_version", .text pin.verifierCandidateVersion),
    ("baseline_manifest_hash", .text pin.baselineManifestHash),
    ("candidate_manifest_hash", .text pin.candidateManifestHash),
    ("case_ids", .tuple (pin.caseIds.map .text))]

namespace AuditManifest

def fields (manifest : AuditManifest) : List (String × Value) := [
  ("manifest_hash", .text manifest.manifestHash),
  ("run_id", .text manifest.runId),
  ("benchmark_version", .text manifest.benchmarkVersion),
  ("task_pins", .tuple (manifest.taskPins.map TaskPin.toRecord)),
  ("panel_key", .text manifest.panelKey),
  ("adjudication_version", .text manifest.adjudicationVersion),
  ("evaluation_harness_version", .text manifest.evaluationHarnessVersion),
  ("config_hash", .text manifest.configHash),
  ("policy_hash", .text manifest.policyHash),
  ("analysis_plan_hash", Value.ofOption .text manifest.analysisPlanHash),
  ("timestamp", .datetime manifest.timestamp),
  ("host_fingerprint", .text manifest.hostFingerprint),
  ("seed", Value.ofOption .int manifest.seed),
  ("agent_version", Value.ofOption .text manifest.agentVersion),
  ("model_identifier", Value.ofOption .text manifest.modelIdentifier),
  ("max_repetitions", .int manifest.maxRepetitions),
  ("max_attempts_per_job", .int manifest.maxAttemptsPerJob),
  ("timeout_seconds", .int manifest.timeoutSeconds),
  ("resource_policy", .text manifest.resourcePolicy),
  ("expansion_digest", .text manifest.expansionDigest),
  ("parent_run_id", Value.ofOption .text manifest.parentRunId)]

def toRecord (manifest : AuditManifest) : Value :=
  .record "AuditManifest" manifest.fields

end AuditManifest

/-- The mapping of the fields of a record but one. -/
def Value.without (name : String) : Value → Value
  | .record _ fields =>
      .mapping (dict ((fields.filter fun field => field.1 ≠ name).map fun field =>
        (wide field.1, field.2)))
  | value => value

section Record

variable (sha256 : List UInt8 → Digest) (interpreter : Interpreter)

/-- The digest of a record that leaves out the field `manifest_hash`. -/
def recordHash (record : Value) : Except Exc String := do
  let bytes ← encodeRecord interpreter (record.without "manifest_hash")
  .ok (sha256 bytes).text

/-- The default of `max_bytes`. -/
def defaultMaxBytes : Int := 10 * 1024 * 1024

/-- Can the identities of a manifest be checked on the manifest and on what is decoded
from its encoding? -/
structure Recomputable (manifest : AuditManifest) : Prop where
  direct : recordHash sha256 interpreter manifest.toRecord = .ok manifest.manifestHash
  decoded : ∃ payload record, encodeRecord interpreter manifest.toRecord = .ok payload ∧
    decodeRecord interpreter defaultMaxBytes "AuditManifest" payload = .ok record ∧
      recordHash sha256 interpreter record = .ok manifest.manifestHash
  expansionDigest : (computeExpansionDigest sha256 (expand sha256 manifest)).text =
    manifest.expansionDigest

end Record

/-! ## Two spellings of a time -/

theorem wellKeyed_ofOption {α : Type} {write : α → Value} (hwrite : ∀ a, (write a).WellKeyed)
    (value : Option α) : (Value.ofOption write value).WellKeyed := by
  cases value with
  | none => trivial
  | some a => exact hwrite a

theorem TaskPin.toRecord_wellKeyed (pin : TaskPin) : pin.toRecord.WellKeyed := by
  have hcases : (Value.tuple (pin.caseIds.map .text)).WellKeyed := by
    rw [Value.wellKeyed_tuple]
    intro item hitem
    obtain ⟨caseId, _, rfl⟩ := List.mem_map.mp hitem
    trivial
  have himage : (Value.ofOption .text pin.environmentImageDigest).WellKeyed :=
    @wellKeyed_ofOption _ Value.text (fun _ => trivial) _
  rw [TaskPin.toRecord, Value.wellKeyed_record]
  refine ⟨by simp, ?_⟩
  simp only [List.forall_mem_cons, List.not_mem_nil, IsEmpty.forall_iff, implies_true, and_true,
    hcases, himage]
  simp only [Value.text, Value.WellKeyed, and_self]

theorem AuditManifest.fields_wellKeyed (manifest : AuditManifest) :
    ∀ field ∈ manifest.fields, field.2.WellKeyed := by
  have hpins : (Value.tuple (manifest.taskPins.map TaskPin.toRecord)).WellKeyed := by
    rw [Value.wellKeyed_tuple]
    intro item hitem
    obtain ⟨pin, _, rfl⟩ := List.mem_map.mp hitem
    exact pin.toRecord_wellKeyed
  have htext : ∀ value : Option String, (Value.ofOption .text value).WellKeyed :=
    @wellKeyed_ofOption _ Value.text fun _ => trivial
  have hseed : (Value.ofOption .int manifest.seed).WellKeyed :=
    @wellKeyed_ofOption _ Value.int (fun _ => trivial) _
  simp only [AuditManifest.fields, List.forall_mem_cons, List.not_mem_nil, IsEmpty.forall_iff,
    implies_true, and_true, hpins, htext, hseed]
  simp only [Value.text, Value.WellKeyed, and_self]

theorem AuditManifest.fields_nodup (manifest : AuditManifest) :
    (manifest.fields.map Prod.fst).Nodup := by
  simp [AuditManifest.fields]

/-- Leaving a field out of a record leaves its other fields in order. -/
theorem without_wellKeyed {cls name : String} {fields : List (String × Value)}
    (hnodup : (fields.map Prod.fst).Nodup) (hfields : ∀ field ∈ fields, field.2.WellKeyed) :
    ((Value.record cls fields).without name).WellKeyed := by
  rw [Value.without, Value.wellKeyed_mapping]
  constructor
  · apply ordered_dict
    have hsub := (List.filter_sublist (p := fun field : String × Value => field.1 ≠ name)
      (l := fields)).map Prod.fst
    have hkeys := (hnodup.sublist hsub).map wide_injective
    simpa only [List.map_map, Function.comp_def] using hkeys
  · intro entry hentry
    obtain ⟨field, hfield, rfl⟩ := List.mem_map.mp (mem_dict.mp hentry)
    exact hfields field (List.mem_filter.mp hfield).1

/-- `isoformat` ends the text of a UTC datetime in `+00:00`. -/
theorem isoformat_getLast? {value : Datetime} (hutc : value.utcoffset = some 0) :
    value.isoformat.getLast? = some '0' := by
  have hoffset : offsetText 0 = ['+', '0', '0', ':', '0', '0'] := by decide
  simp only [Datetime.isoformat, hutc, hoffset]
  rw [List.getLast?_append_of_ne_nil _ (by simp)]
  rfl

theorem utcText_getLast? (value : Datetime) : (utcText value).getLast? = some 'Z' := by
  rw [utcText, List.getLast?_append_of_ne_nil _ (by simp)]
  rfl

/-- The record of a manifest is not written like the dictionary its hash is computed from. -/
theorem manifestBytes_ne {interpreter : Interpreter} {manifest : AuditManifest}
    {bytes : List UInt8} (hutc : manifest.timestamp.utcoffset = some 0)
    (h : encodeRecord interpreter (manifest.toRecord.without "manifest_hash") = .ok bytes) :
    manifestBytes manifest ≠ bytes := by
  intro heq
  obtain ⟨json, text, hrepr, hdumpable, htext, hbytes⟩ :=
    encodeRecord_ok (without_wellKeyed manifest.fields_nodup manifest.fields_wellKeyed) h
  -- Equal bytes are equal documents, up to the order of their members.
  have hsame : WideJson.ofJson (manifestDict manifest) = json := by
    have hsorted := sortKeys_eq_of_canonicalBytes_eq (manifestDict_dumpable manifest) hdumpable
      (heq.trans hbytes.symm)
    rw [← WideJson.ofJson_sortKeys _ (manifestDict_dumpable manifest), hsorted,
      WideJson.ofJson_sortKeys _ hdumpable, htext]
  obtain ⟨members, hmembers, rfl⟩ := canonicalRepr_mapping_ok_iff.mp hrepr
  have hentry : (wide "timestamp", Value.datetime manifest.timestamp) ∈
      dict ((manifest.fields.filter fun field => field.1 ≠ "manifest_hash").map fun field =>
        (wide field.1, field.2)) := by
    rw [mem_dict]
    apply List.mem_map_of_mem (f := fun field : String × Value => (wide field.1, field.2))
      (a := ("timestamp", Value.datetime manifest.timestamp))
    simp [AuditManifest.fields]
  obtain ⟨⟨key, value⟩, hmember, rfl, hvalue⟩ := exists_of_mem_forall₂ hmembers hentry
  obtain ⟨_, utc, _, rfl⟩ := canonicalRepr_datetime_ok_iff.mp hvalue
  rw [manifestDict, WideJson.ofJson, WideJson.obj.injEq, WideJson.ofMembers_eq] at hsame
  -- One member suffices: the timestamp ends in an offset here and in a Z there.
  have hiso : (wide "timestamp", WideJson.str (manifest.timestamp.isoformat.map codePoint)) ∈
      members := by
    rw [← hsame, mem_dict]
    simp [WideJson.ofJson, wide]
  have hordered : Ordered members := by
    rw [← hsame]
    apply ordered_dict
    have hkeys := (manifestDict_dumpable manifest).1.map wide_injective
    simpa only [List.map_map, Function.comp_def] using hkeys
  have hpair := List.inj_on_of_nodup_map hordered.nodup hmember hiso rfl
  have hspelled := WideJson.str.inj (Prod.mk.inj hpair).2
  have hchars := List.map_injective_iff.mpr codePoint_injective hspelled
  have hlast := congrArg List.getLast? hchars
  rw [utcText_getLast?, isoformat_getLast? hutc] at hlast
  exact absurd hlast (by decide)

/-- What is checked of a built manifest is not what was built, however it is encoded. -/
theorem recordHash_ne {sha256 : List UInt8 → Digest} {interpreter : Interpreter}
    {manifest : AuditManifest} {now : Datetime} (hnow : now.utcoffset = some 0)
    (hbuilt : BuiltAt sha256 now manifest)
    (hfree : ∀ bytes,
      encodeRecord interpreter (manifest.toRecord.without "manifest_hash") = .ok bytes →
        CollisionFree sha256 [manifestBytes manifest, bytes]) :
    recordHash sha256 interpreter manifest.toRecord ≠ .ok manifest.manifestHash := by
  intro h
  obtain ⟨bytes, hbytes, hhash⟩ := bind_eq_ok.mp h
  have hsame : (sha256 bytes).text = (sha256 (manifestBytes manifest)).text :=
    (Except.ok.inj hhash).trans hbuilt.manifestHash
  have hutc : manifest.timestamp.utcoffset = some 0 := by
    rw [hbuilt.timestamp, hnow]
  exact manifestBytes_ne hutc hbytes
    (hfree bytes hbytes _ (by simp) _ (by simp) hsame).symm

/-! ## Planning again -/

/-- The texts of objects begin with a brace, and those of nothing else that is hashed. -/
def IsObjectText (bytes : List UInt8) : Prop :=
  bytes.head? = some 123

instance (bytes : List UInt8) : Decidable (IsObjectText bytes) :=
  inferInstanceAs (Decidable (_ = _))

theorem canonicalBytes_obj (members : List (String × Json)) :
    IsObjectText (canonicalBytes (.obj members)) := by
  rw [IsObjectText, canonicalBytes_eq, Json.dumps, Json.sortKeys, Json.write]
  rfl

theorem canonicalBytes_arr (items : List Json) :
    ¬ IsObjectText (canonicalBytes (.arr items)) := by
  rw [IsObjectText, canonicalBytes_eq, Json.dumps, Json.sortKeys, Json.write]
  show ¬ some (91 : UInt8) = some 123
  decide

section Again

variable {sha256 sha256' : List UInt8 → Digest}
  (hsame : ∀ bytes, ¬ IsObjectText bytes → sha256' bytes = sha256 bytes)

include hsame

theorem draftManifest_again (uuid : String) (now now' : Datetime) (request : ManifestRequest) :
    draftManifest sha256' uuid now' request =
      { draftManifest sha256 uuid now request with timestamp := now' } := by
  have hconfig := hsame (ascii "default_config") (by decide)
  have hpolicy := hsame (ascii "default_policy") (by decide)
  have hsandbox := hsame (ascii "sandbox_policy") (by decide)
  simp only [draftManifest, hconfig, hpolicy, hsandbox]

/-- The expansion does not read the clock of the manifest it belongs to. -/
theorem expand_again (manifest : AuditManifest) (now : Datetime) :
    expand sha256' { manifest with timestamp := now } = expand sha256 manifest := by
  have hjob : ∀ runId taskKey caseId verifierKey (rep : Int),
      pendingJob sha256' runId taskKey caseId verifierKey rep =
        pendingJob sha256 runId taskKey caseId verifierKey rep := by
    intro runId taskKey caseId verifierKey rep
    simp only [pendingJob, jobIdOf, coordinateBytes, hsame _ (canonicalBytes_arr _)]
  simp only [expand, expanded, hjob]
  rfl

theorem computeExpansionDigest_again (jobs : List Job) :
    computeExpansionDigest sha256' jobs = computeExpansionDigest sha256 jobs := by
  apply hsame
  rw [IsObjectText, String.toByteArray_ofList, List.utf8Encode, List.data_toByteArray]
  show ¬ some (91 : UInt8) = some 123
  decide

/-- With another clock, and another digest of the manifest. -/
theorem buildManifest_again {uuid : String} {now : Datetime} {request : ManifestRequest}
    {manifest : AuditManifest} (h : buildManifest sha256 uuid now request = .ok manifest)
    (now' : Datetime) :
    buildManifest sha256' uuid now' request = .ok
      { manifest with
        timestamp := now'
        manifestHash := (sha256' (manifestBytes { manifest with timestamp := now' })).text } := by
  unfold buildManifest at h ⊢
  simp only [draftManifest_again hsame uuid now now', expand_again hsame,
    computeExpansionDigest_again hsame] at h ⊢
  split_ifs at h ⊢
  · cases h
  · obtain ⟨hjobs, hmanifest⟩ := bind_eq_ok_unit.mp h
    obtain rfl := Except.ok.inj hmanifest
    rw [hjobs]
    rfl

end Again

/-! ## The small plan and its record -/

def smallRecordDigest : Digest where
  text := "5e0ed62350f536036b5af249a8a021bd75e81b3858cd43d7da2b55941aea432a"
  length_eq := String.length_ofList
  hex := hex_ofList rfl

/-- SHA-256 on what planning the small request hashes, and on the record of the plan. -/
def recordSha256 (bytes : List UInt8) : Digest :=
  if bytes = manifestBytes smallManifest then smallManifestDigest
  else if IsObjectText bytes then smallRecordDigest
  else planSha256 bytes

theorem recordSha256_of_not {bytes : List UInt8} (h : ¬ IsObjectText bytes) :
    recordSha256 bytes = planSha256 bytes := by
  have hne : bytes ≠ manifestBytes smallManifest := by
    intro heq
    rw [heq] at h
    exact h (canonicalBytes_obj _)
  rw [recordSha256, if_neg hne, if_neg h]

theorem recordSha256_small : recordSha256 (manifestBytes smallManifest) = smallManifestDigest := by
  rw [recordSha256, if_pos rfl]

theorem buildManifest_recorded :
    buildManifest recordSha256 "uuid" smallManifest.timestamp smallRequest =
      .ok smallManifest := by
  rw [buildManifest_again (fun _ => recordSha256_of_not) buildManifest_small]
  show Except.ok { smallManifest with
    manifestHash := (recordSha256 (manifestBytes smallManifest)).text } = _
  rw [recordSha256_small]
  rfl

theorem small_collisionFree_record {bytes : List UInt8} (hobject : IsObjectText bytes) :
    CollisionFree recordSha256 [manifestBytes smallManifest, bytes] := by
  apply collisionFree_pair
  intro h
  by_contra hne
  have hrecord : recordSha256 bytes = smallRecordDigest := by
    rw [recordSha256, if_neg (Ne.symm hne), if_pos hobject]
  rw [recordSha256_small, hrecord] at h
  exact absurd h (by decide +kernel)

/-- What is encoded of a record is the text of an object, whichever field is left out. -/
theorem encodeRecord_without {interpreter : Interpreter} {name cls : String}
    {fields : List (String × Value)} {bytes : List UInt8}
    (hkeyed : ((Value.record cls fields).without name).WellKeyed)
    (h : encodeRecord interpreter ((Value.record cls fields).without name) = .ok bytes) :
    IsObjectText bytes := by
  obtain ⟨json, text, hrepr, _, htext, rfl⟩ := encodeRecord_ok hkeyed h
  obtain ⟨members, _, rfl⟩ := canonicalRepr_mapping_ok_iff.mp hrepr
  cases text with
  | obj others => exact canonicalBytes_obj others
  | _ => cases htext

theorem small_record_collisionFree (bytes : List UInt8)
    (h : encodeRecord Interpreter.default (smallManifest.toRecord.without "manifest_hash") =
      .ok bytes) : CollisionFree recordSha256 [manifestBytes smallManifest, bytes] :=
  small_collisionFree_record (encodeRecord_without
    (without_wellKeyed smallManifest.fields_nodup smallManifest.fields_wellKeyed) h)

/-- No manifest can be checked against its hash by hashing its record: what was hashed spells
the time with `+00:00`, and the record spells it with `Z`. -/
theorem manifest_not_recomputable {sha256 : List UInt8 → Digest} {interpreter : Interpreter}
    {uuid : String} {now : Datetime} {request : ManifestRequest} {manifest : AuditManifest}
    (hnow : now.utcoffset = some 0)
    (hbuild : buildManifest sha256 uuid now request = .ok manifest)
    (hfree : ∀ bytes,
      encodeRecord interpreter (manifest.toRecord.without "manifest_hash") = .ok bytes →
        CollisionFree sha256 [manifestBytes manifest, bytes]) :
    (computeExpansionDigest sha256 (expand sha256 manifest)).text = manifest.expansionDigest ∧
      manifest.manifestHash = (sha256 (manifestBytes manifest)).text ∧
        ¬ Recomputable sha256 interpreter manifest := by
  have hbuilt := buildManifest_builtAt hbuild
  exact ⟨hbuilt.expansionDigest, hbuilt.manifestHash,
    fun h => recordHash_ne hnow hbuilt hfree h.direct⟩

/-- The small plan, under SHA-256 on what planning it hashes. -/
theorem manifest_not_recomputable_small :
    (computeExpansionDigest recordSha256 (expand recordSha256 smallManifest)).text =
        smallManifest.expansionDigest ∧
      smallManifest.manifestHash = (recordSha256 (manifestBytes smallManifest)).text ∧
        ¬ Recomputable recordSha256 Interpreter.default smallManifest :=
  manifest_not_recomputable rfl buildManifest_recorded small_record_collisionFree

/-- The hash of a built manifest is not the hash of its record, without a collision. -/
theorem manifest_hash_of_dict : ∃ manifest,
    buildManifest recordSha256 "uuid" smallManifest.timestamp smallRequest = .ok manifest ∧
      (∀ bytes, encodeRecord Interpreter.default (manifest.toRecord.without "manifest_hash") =
        .ok bytes → CollisionFree recordSha256 [manifestBytes manifest, bytes]) ∧
      ¬ Recomputable recordSha256 Interpreter.default manifest :=
  ⟨smallManifest, buildManifest_recorded, small_record_collisionFree, fun h =>
    recordHash_ne rfl (buildManifest_builtAt buildManifest_recorded) small_record_collisionFree
      h.direct⟩

end VerifierCI
