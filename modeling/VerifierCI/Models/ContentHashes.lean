import Mathlib.Data.List.Perm.Basic
import VerifierCI.Models.CanonicalForm
import VerifierCI.Models.Task
import VerifierCI.Models.Verifier

/-! # What content hashes identify

A record is hashed from the fields that say what it means. The fields can be those of a
dataclass or come in a dictionary, and what is a set is sorted first. Two records with one
hash then mean the same, unless SHA-256 has a collision.
-/

namespace VerifierCI

open Python

/-! ## Dictionaries of fields -/

/-- The value of a field in a dictionary. -/
inductive FieldValue where
  | str (value : String)
  /-- A tuple or a list of strings. -/
  | strs (items : List String)
  | int (value : Int)
  | datetime (value : Datetime)
deriving Repr

namespace FieldValue

def toPyValue : FieldValue → PyValue
  | .str value => .str value
  | .strs items => .tuple (items.map .str)
  | .int value => .int value
  | .datetime value => .datetime value

/-- `list(value)`. -/
def toList : FieldValue → Except Exc (List String)
  | .str value => .ok (value.toList.map String.singleton)
  | .strs items => .ok items
  | .int _ => .error .typeError
  | .datetime _ => .error .typeError

/-- `sorted(value)`. -/
def sorted (value : FieldValue) : Except Exc (List String) := do
  let items ← value.toList
  .ok (sortedStrings items)

def digitsFit : FieldValue → Bool
  | .int value => (strOfInt? value).isSome
  | _ => true

end FieldValue

abbrev FieldDict := List (String × FieldValue)

namespace FieldDict

variable (data : FieldDict)

/-- `data[key]`. -/
def getItem (key : String) : Except Exc FieldValue :=
  match data.lookup key with
  | none => .error .keyError
  | some value => .ok value

/-- `data.get(key, ())`. -/
def get (key : String) : FieldValue :=
  (data.lookup key).getD (.strs [])

/-- The dictionary has these fields, whatever else is in it. -/
def Holds (fields : List (String × FieldValue)) : Prop :=
  ∀ field ∈ fields, data.lookup field.1 = some field.2

end FieldDict

section Hashes

variable (sha256 : List UInt8 → Digest)

/-- `hashlib.sha256(canonical_bytes(data)).hexdigest()`. There is room for what is no deeper
than a mapping of tuples. -/
def hashData (data : FieldDict) : Except Exc String := do
  let normalized ←
    (PyValue.mapping (data.map fun field => (field.1, field.2.toPyValue))).canonicalRepr .ample []
  if data.all (fun field => field.2.digitsFit) = false then .error .valueError
  else .ok (sha256 (canonicalBytes normalized)).text

/-- `requirement_hash(requirement)` of a dictionary. -/
def requirementHashOfDict (requirement : FieldDict) : Except Exc String := do
  let evidence := requirement.get "evidence_digests"
  let requirementId ← requirement.getItem "requirement_id"
  let text ← requirement.getItem "text"
  let sourceKind ← requirement.getItem "source_kind"
  let evidence ← evidence.sorted
  let sourceLocator ← requirement.getItem "source_locator"
  let allowedVariation ← requirement.getItem "allowed_variation"
  hashData sha256 [
    ("requirement_id", requirementId),
    ("text", text),
    ("source_kind", sourceKind),
    ("evidence_digests", .strs evidence),
    ("source_locator", sourceLocator),
    ("allowed_variation", allowedVariation)]

/-- `contract_hash(contract)` of a dictionary. -/
def contractHashOfDict (contract : FieldDict) : Except Exc String := do
  let taskId ← contract.getItem "task_id"
  let version ← contract.getItem "version"
  let requirementHashes ← (contract.get "requirement_hashes").sorted
  let allowedVariation ← contract.getItem "allowed_variation"
  let unresolvedQuestions ← (contract.get "unresolved_questions").sorted
  let evidenceDigests ← (contract.get "evidence_digests").sorted
  hashData sha256 [
    ("task_id", taskId),
    ("version", version),
    ("requirement_hashes", .strs requirementHashes),
    ("allowed_variation", allowedVariation),
    ("unresolved_questions", .strs unresolvedQuestions),
    ("evidence_digests", .strs evidenceDigests)]

/-- `list(data[key])`. -/
def FieldDict.listItem (data : FieldDict) (key : String) : Except Exc (List String) := do
  let value ← data.getItem key
  value.toList

/-- `manifest_hash(manifest)` of a dictionary. -/
def manifestHashOfDict (manifest : FieldDict) : Except Exc String := do
  let mode ← manifest.getItem "mode"
  let command ← manifest.listItem "command"
  let buildCommand ← (manifest.get "build_command").toList
  let expectedCollection ← manifest.listItem "expected_collection"
  let parserId ← manifest.getItem "parser_id"
  let reportPath ← manifest.getItem "report_path"
  let payloadDigest ← manifest.getItem "payload_digest"
  let allowedEditPaths ← manifest.listItem "allowed_edit_paths"
  let requiredPassIds ← manifest.listItem "required_pass_ids"
  let permittedSkips ← (manifest.get "permitted_skips").toList
  let timeoutSeconds ← manifest.getItem "timeout_seconds"
  hashData sha256 [
    ("mode", mode),
    ("command", .strs command),
    ("build_command", .strs buildCommand),
    ("expected_collection", .strs expectedCollection),
    ("parser_id", parserId),
    ("report_path", reportPath),
    ("payload_digest", payloadDigest),
    ("allowed_edit_paths", .strs allowedEditPaths),
    ("required_pass_ids", .strs requiredPassIds),
    ("permitted_skips", .strs permittedSkips),
    ("timeout_seconds", timeoutSeconds)]

end Hashes

/-! ## Panels -/

/-- Membership of one case within a patch panel with its exact adjudication. -/
structure PatchPanelMembership where
  panelKey : String
  caseId : String
  adjudicationId : String
  ordinal : Int
  /-- Verifier key to expected control observation, in the order of the mapping. -/
  expectedControlOutcomes : List (String × String)
  distinct_verifiers : (expectedControlOutcomes.map Prod.fst).Nodup

namespace PatchPanelMembership

def toJson (m : PatchPanelMembership) : Json :=
  .obj [
    ("panel_key", .str m.panelKey),
    ("case_id", .str m.caseId),
    ("adjudication_id", .str m.adjudicationId),
    ("ordinal", .int m.ordinal),
    ("expected_control_outcomes",
      .obj (m.expectedControlOutcomes.map fun outcome => (outcome.1, .str outcome.2)))]

/-- The fields of a member, all of which are hashed. -/
def fields (m : PatchPanelMembership) : List (String × PyValue) :=
  [("panel_key", .str m.panelKey),
    ("case_id", .str m.caseId),
    ("adjudication_id", .str m.adjudicationId),
    ("ordinal", .int m.ordinal),
    ("expected_control_outcomes",
      .mapping (m.expectedControlOutcomes.map fun outcome => (outcome.1, .str outcome.2)))]

/-- The member with its expected outcomes listed in the order of their keys. -/
def listed (m : PatchPanelMembership) : PatchPanelMembership where
  panelKey := m.panelKey
  caseId := m.caseId
  adjudicationId := m.adjudicationId
  ordinal := m.ordinal
  expectedControlOutcomes := dict m.expectedControlOutcomes
  distinct_verifiers := (ordered_dict m.distinct_verifiers).nodup

end PatchPanelMembership

/-- `sorted(members, key=lambda m: m.case_id)`. -/
def sortedMembers (members : List PatchPanelMembership) : List PatchPanelMembership :=
  members.insertionSort fun a b => a.caseId ≤ b.caseId

def panelBytes (members : List PatchPanelMembership) : List UInt8 :=
  canonicalBytes (.arr ((sortedMembers members).map PatchPanelMembership.toJson))

/-- SHA-256 of the canonical sorted membership records. It raises `ValueError` when an
ordinal is too long to spell. -/
def panelDigest (sha256 : List UInt8 → Digest) (members : List PatchPanelMembership) :
    Except Exc String :=
  if members.all (fun m => (strOfInt? m.ordinal).isSome) = false then .error .valueError
  else .ok (sha256 (panelBytes members)).text

/-- Members of a panel, no two for the same case. -/
structure PanelMembers where
  members : List PatchPanelMembership
  distinct_cases : (members.map PatchPanelMembership.caseId).Nodup

/-! ## Dataclasses and dictionaries -/

def Requirement.fields (requirement : Requirement) : List (String × FieldValue) :=
  [("requirement_hash", .str requirement.requirementHash),
    ("requirement_id", .str requirement.requirementId),
    ("text", .str requirement.text),
    ("source_kind", .str requirement.sourceKind.text),
    ("evidence_digests", .strs requirement.evidenceDigests),
    ("source_locator", .str requirement.sourceLocator),
    ("allowed_variation", .str requirement.allowedVariation)]

def Contract.fields (contract : Contract) : List (String × FieldValue) :=
  [("contract_hash", .str contract.contractHash),
    ("task_id", .str contract.taskId),
    ("version", .str contract.version),
    ("requirement_hashes", .strs contract.requirementHashes),
    ("allowed_variation", .str contract.allowedVariation),
    ("unresolved_questions", .strs contract.unresolvedQuestions),
    ("evidence_digests", .strs contract.evidenceDigests),
    ("created_at", .datetime contract.createdAt)]

def VerifierManifest.fields (manifest : VerifierManifest) : List (String × FieldValue) :=
  [("manifest_hash", .str manifest.manifestHash),
    ("mode", .str manifest.mode.text),
    ("command", .strs manifest.command),
    ("build_command", .strs manifest.buildCommand),
    ("expected_collection", .strs manifest.expectedCollection),
    ("parser_id", .str manifest.parserId),
    ("report_path", .str manifest.reportPath),
    ("payload_digest", .str manifest.payloadDigest),
    ("allowed_edit_paths", .strs manifest.allowedEditPaths),
    ("required_pass_ids", .strs manifest.requiredPassIds),
    ("permitted_skips", .strs manifest.permittedSkips),
    ("timeout_seconds", .int manifest.timeoutSeconds)]

section Dicts

variable {data : FieldDict} {key : String} {value : FieldValue}

theorem FieldDict.getItem_eq (h : data.lookup key = some value) : data.getItem key = .ok value := by
  rw [getItem, h]

theorem FieldDict.get_eq (h : data.lookup key = some value) : data.get key = value := by
  rw [get, h, Option.getD_some]

theorem reprItems_strs (path : List Container) (items : List String) :
    PyValue.reprItems .ample path (items.map .str) = .ok (items.map .str) := by
  induction items with
  | nil => rfl
  | cons item rest ih =>
      rw [List.map_cons, PyValue.reprItems, ih]
      rfl

variable {sha256 : List UInt8 → Digest}

/-- A requirement has the hash of the dictionary of its fields. -/
theorem requirementHashOfDict_eq {requirement : Requirement} (h : data.Holds requirement.fields) :
    requirementHashOfDict sha256 data = .ok (requirementHash sha256 requirement) := by
  simp only [FieldDict.Holds, Requirement.fields, List.forall_mem_cons] at h
  obtain ⟨_, hid, htext, hkind, hevidence, hlocator, hvariation, _⟩ := h
  simp only [requirementHashOfDict, FieldDict.getItem_eq hid, FieldDict.getItem_eq htext,
    FieldDict.getItem_eq hkind, FieldDict.get_eq hevidence, FieldDict.getItem_eq hlocator,
    FieldDict.getItem_eq hvariation, FieldValue.sorted, FieldValue.toList, hashData,
    PyValue.canonicalRepr, PyValue.reprMembers, List.map_cons, List.map_nil, FieldValue.toPyValue,
    reprItems_strs, bind, Except.bind]
  rfl

/-- A dictionary with the fields of a contract is hashed like the contract. -/
theorem contractHashOfDict_eq {contract : Contract} (h : data.Holds contract.fields) :
    contractHashOfDict sha256 data = .ok (contractHash sha256 contract) := by
  simp only [FieldDict.Holds, Contract.fields, List.forall_mem_cons] at h
  obtain ⟨_, htask, hversion, hrequirements, hvariation, hquestions, hevidence, _⟩ := h
  simp only [contractHashOfDict, FieldDict.getItem_eq htask, FieldDict.getItem_eq hversion,
    FieldDict.get_eq hrequirements, FieldDict.getItem_eq hvariation, FieldDict.get_eq hquestions,
    FieldDict.get_eq hevidence, FieldValue.sorted, FieldValue.toList, hashData,
    PyValue.canonicalRepr, PyValue.reprMembers, List.map_cons, List.map_nil, FieldValue.toPyValue,
    reprItems_strs, bind, Except.bind]
  rfl

theorem manifestHashOfDict_eq {manifest : VerifierManifest} (h : data.Holds manifest.fields) :
    manifestHashOfDict sha256 data = manifestHash sha256 manifest := by
  simp only [FieldDict.Holds, VerifierManifest.fields, List.forall_mem_cons] at h
  obtain ⟨_, hmode, hcommand, hbuild, hexpected, hparser, hreport, hpayload, hpaths, hrequired,
    hskips, htimeout, _⟩ := h
  simp only [manifestHashOfDict, FieldDict.getItem_eq hmode, FieldDict.getItem_eq hcommand,
    FieldDict.get_eq hbuild, FieldDict.getItem_eq hexpected, FieldDict.getItem_eq hparser,
    FieldDict.getItem_eq hreport, FieldDict.getItem_eq hpayload, FieldDict.getItem_eq hpaths,
    FieldDict.getItem_eq hrequired, FieldDict.get_eq hskips, FieldDict.getItem_eq htimeout,
    FieldDict.listItem, FieldValue.toList, hashData, PyValue.canonicalRepr, PyValue.reprMembers,
    List.map_cons, List.map_nil, FieldValue.toPyValue, reprItems_strs, bind, Except.bind,
    List.all_cons, List.all_nil, FieldValue.digitsFit, manifestHash]
  rcases Option.eq_none_or_eq_some (strOfInt? manifest.timeoutSeconds) with hspell | ⟨text, hspell⟩
  · simp only [hspell]
    rfl
  · simp only [hspell]
    rfl

end Dicts

/-! ## What is hashed -/

/-- Records that mean the same have one hash, the digest of some bytes, and records with one
hash mean the same if their bytes do not collide. -/
structure Identifies {α : Type} (sha256 : List UInt8 → Digest) (same : α → α → Prop)
    (bytes : α → List UInt8) (hash : α → Except Exc String) : Prop where
  digest : ∀ {a text}, hash a = .ok text → text = (sha256 (bytes a)).text
  hash_eq : ∀ {a b}, same a b → hash a = hash b
  same : ∀ {a b text}, hash a = .ok text → hash b = .ok text →
    CollisionFree sha256 [bytes a, bytes b] → same a b

/-- It is enough that the bytes tell apart what does not mean the same. -/
theorem Identifies.of_bytes {α : Type} {sha256 : List UInt8 → Digest} {same : α → α → Prop}
    {bytes : α → List UInt8} {hash : α → Except Exc String}
    (digest : ∀ {a text}, hash a = .ok text → text = (sha256 (bytes a)).text)
    (hash_eq : ∀ {a b}, same a b → hash a = hash b)
    (same_of_bytes : ∀ {a b}, bytes a = bytes b → same a b) :
    Identifies sha256 same bytes hash where
  digest := digest
  hash_eq := hash_eq
  same ha hb hfree := by
    apply same_of_bytes
    apply hfree _ List.mem_cons_self _ (List.mem_cons_of_mem _ List.mem_cons_self)
    rw [← digest ha, ← digest hb]

/-- Equal but for the order of the evidence, and for the hash. -/
structure Requirement.SameContent (a b : Requirement) : Prop where
  requirementId : a.requirementId = b.requirementId
  text : a.text = b.text
  sourceKind : a.sourceKind = b.sourceKind
  evidenceDigests : a.evidenceDigests.Perm b.evidenceDigests
  sourceLocator : a.sourceLocator = b.sourceLocator
  allowedVariation : a.allowedVariation = b.allowedVariation

/-- Equal but for the order of what is a set, and for the hash and the time of creation. -/
structure Contract.SameContent (a b : Contract) : Prop where
  taskId : a.taskId = b.taskId
  version : a.version = b.version
  requirementHashes : a.requirementHashes.Perm b.requirementHashes
  allowedVariation : a.allowedVariation = b.allowedVariation
  unresolvedQuestions : a.unresolvedQuestions.Perm b.unresolvedQuestions
  evidenceDigests : a.evidenceDigests.Perm b.evidenceDigests

/-- Equal but for the hash. -/
structure VerifierManifest.SameContent (a b : VerifierManifest) : Prop where
  mode : a.mode = b.mode
  command : a.command = b.command
  buildCommand : a.buildCommand = b.buildCommand
  expectedCollection : a.expectedCollection = b.expectedCollection
  parserId : a.parserId = b.parserId
  reportPath : a.reportPath = b.reportPath
  payloadDigest : a.payloadDigest = b.payloadDigest
  allowedEditPaths : a.allowedEditPaths = b.allowedEditPaths
  requiredPassIds : a.requiredPassIds = b.requiredPassIds
  permittedSkips : a.permittedSkips = b.permittedSkips
  timeoutSeconds : a.timeoutSeconds = b.timeoutSeconds

/-- Equal but for the order of the members and of their expected outcomes. -/
def PanelMembers.SameContent (a b : PanelMembers) : Prop :=
  (a.members.map PatchPanelMembership.listed).Perm (b.members.map PatchPanelMembership.listed)

def requirementData (requirement : Requirement) : Json :=
  .obj [
    ("requirement_id", .str requirement.requirementId),
    ("text", .str requirement.text),
    ("source_kind", .str requirement.sourceKind.text),
    ("evidence_digests", Json.ofStrings (sortedStrings requirement.evidenceDigests)),
    ("source_locator", .str requirement.sourceLocator),
    ("allowed_variation", .str requirement.allowedVariation)]

def contractData (contract : Contract) : Json :=
  .obj [
    ("task_id", .str contract.taskId),
    ("version", .str contract.version),
    ("requirement_hashes", Json.ofStrings (sortedStrings contract.requirementHashes)),
    ("allowed_variation", .str contract.allowedVariation),
    ("unresolved_questions", Json.ofStrings (sortedStrings contract.unresolvedQuestions)),
    ("evidence_digests", Json.ofStrings (sortedStrings contract.evidenceDigests))]

def verifierData (manifest : VerifierManifest) : Json :=
  .obj [
    ("mode", .str manifest.mode.text),
    ("command", Json.ofStrings manifest.command),
    ("build_command", Json.ofStrings manifest.buildCommand),
    ("expected_collection", Json.ofStrings manifest.expectedCollection),
    ("parser_id", .str manifest.parserId),
    ("report_path", .str manifest.reportPath),
    ("payload_digest", .str manifest.payloadDigest),
    ("allowed_edit_paths", Json.ofStrings manifest.allowedEditPaths),
    ("required_pass_ids", Json.ofStrings manifest.requiredPassIds),
    ("permitted_skips", Json.ofStrings manifest.permittedSkips),
    ("timeout_seconds", .int manifest.timeoutSeconds)]

section Exact

variable {sha256 : List UInt8 → Digest}

/-- Sorting tells lists apart up to the order of their items. -/
theorem sortedStrings_eq_iff {values others : List String} :
    sortedStrings values = sortedStrings others ↔ values.Perm others := by
  constructor
  · intro h
    have hperm := (List.perm_insertionSort (· ≤ ·) values).symm
    rw [← sortedStrings, h] at hperm
    exact hperm.trans (List.perm_insertionSort _ others)
  · exact sorted_eq_of_perm_self

theorem SourceKind.text_injective : Function.Injective SourceKind.text := by
  intro a b h
  cases a <;> cases b <;> first | rfl | exact absurd h (by decide)

theorem VerifierMode.text_injective : Function.Injective VerifierMode.text := by
  intro a b h
  cases a <;> cases b <;> first | rfl | exact absurd h (by decide)

theorem requirementData_dumpable (requirement : Requirement) :
    (requirementData requirement).Dumpable :=
  Json.dumpable_obj (by simp) (by simp [Json.Dumpable, Json.dumpable_ofStrings])

theorem contractData_dumpable (contract : Contract) : (contractData contract).Dumpable :=
  Json.dumpable_obj (by simp) (by simp [Json.Dumpable, Json.dumpable_ofStrings])

theorem verifierData_dumpable (manifest : VerifierManifest) : (verifierData manifest).Dumpable :=
  Json.dumpable_obj (by simp) (by simp [Json.Dumpable, Json.dumpable_ofStrings])

/-- Two requirements with one hash have the same content, up to the order of the evidence. -/
theorem requirement_identified : Identifies sha256 Requirement.SameContent
    (fun requirement => canonicalBytes (requirementData requirement))
    (fun requirement => .ok (requirementHash sha256 requirement)) := by
  apply Identifies.of_bytes
  · intro requirement text h
    exact (Except.ok.inj h).symm
  · intro a b h
    rw [requirementHash, requirementHash, h.requirementId, h.text, h.sourceKind,
      sortedStrings_eq_iff.mpr h.evidenceDigests, h.sourceLocator, h.allowedVariation]
  · intro a b h
    have hvalues := values_eq_of_canonicalBytes_eq (by rfl) (by simp)
      (requirementData_dumpable a) (requirementData_dumpable b) h
    simp only [List.map_cons, List.map_nil, Json.sortKeys, Json.sortKeys_ofStrings,
      List.cons.injEq, Json.str.injEq, and_true] at hvalues
    obtain ⟨hid, htext, hkind, hevidence, hlocator, hvariation⟩ := hvalues
    exact ⟨hid, htext, SourceKind.text_injective hkind,
      sortedStrings_eq_iff.mp (Json.ofStrings_injective hevidence), hlocator, hvariation⟩

/-- Two contracts with one hash have the same content, up to the order of what is a set. -/
theorem contract_identified : Identifies sha256 Contract.SameContent
    (fun contract => canonicalBytes (contractData contract))
    (fun contract => .ok (contractHash sha256 contract)) := by
  apply Identifies.of_bytes
  · intro contract text h
    exact (Except.ok.inj h).symm
  · intro a b h
    rw [contractHash, contractHash, h.taskId, h.version,
      sortedStrings_eq_iff.mpr h.requirementHashes, h.allowedVariation,
      sortedStrings_eq_iff.mpr h.unresolvedQuestions, sortedStrings_eq_iff.mpr h.evidenceDigests]
  · intro a b h
    have hvalues := values_eq_of_canonicalBytes_eq (by rfl) (by simp)
      (contractData_dumpable a) (contractData_dumpable b) h
    simp only [List.map_cons, List.map_nil, Json.sortKeys, Json.sortKeys_ofStrings,
      List.cons.injEq, Json.str.injEq, and_true] at hvalues
    obtain ⟨htask, hversion, hrequirements, hvariation, hquestions, hevidence⟩ := hvalues
    exact ⟨htask, hversion, sortedStrings_eq_iff.mp (Json.ofStrings_injective hrequirements),
      hvariation, sortedStrings_eq_iff.mp (Json.ofStrings_injective hquestions),
      sortedStrings_eq_iff.mp (Json.ofStrings_injective hevidence)⟩

/-- Two manifests with one hash have the same content. -/
theorem verifierManifest_identified : Identifies sha256 VerifierManifest.SameContent
    (fun manifest => canonicalBytes (verifierData manifest)) (manifestHash sha256) := by
  apply Identifies.of_bytes
  · intro manifest text h
    rw [manifestHash] at h
    split at h
    · cases h
    · exact (Except.ok.inj h).symm
  · intro a b h
    rw [manifestHash, manifestHash, h.mode, h.command, h.buildCommand, h.expectedCollection,
      h.parserId, h.reportPath, h.payloadDigest, h.allowedEditPaths, h.requiredPassIds,
      h.permittedSkips, h.timeoutSeconds]
  · intro a b h
    have hvalues := values_eq_of_canonicalBytes_eq (by rfl) (by simp)
      (verifierData_dumpable a) (verifierData_dumpable b) h
    simp only [List.map_cons, List.map_nil, Json.sortKeys, Json.sortKeys_ofStrings,
      List.cons.injEq, Json.str.injEq, Json.int.injEq, and_true] at hvalues
    obtain ⟨hmode, hcommand, hbuild, hexpected, hparser, hreport, hpayload, hpaths, hrequired,
      hskips, htimeout⟩ := hvalues
    exact ⟨VerifierMode.text_injective hmode, Json.ofStrings_injective hcommand,
      Json.ofStrings_injective hbuild, Json.ofStrings_injective hexpected, hparser, hreport,
      hpayload, Json.ofStrings_injective hpaths, Json.ofStrings_injective hrequired,
      Json.ofStrings_injective hskips, htimeout⟩

/-! ## Panels -/

section Panel

variable {m n : PatchPanelMembership} {members others : List PatchPanelMembership}

/-- Listing the expected outcomes in order changes nothing about what is written. -/
theorem sortKeys_toJson_listed (m : PatchPanelMembership) :
    m.listed.toJson.sortKeys = m.toJson.sortKeys := by
  have houtcomes : (Json.obj (m.listed.expectedControlOutcomes.map fun outcome =>
        (outcome.1, Json.str outcome.2))).sortKeys =
      (Json.obj (m.expectedControlOutcomes.map fun outcome =>
        (outcome.1, Json.str outcome.2))).sortKeys := by
    rw [Json.sortKeys_obj_eq_iff]
    · exact ((dict_perm m.expectedControlOutcomes).map _).map _
    · rw [List.map_map]
      exact (ordered_dict m.distinct_verifiers).nodup
  simp only [PatchPanelMembership.toJson, Json.sortKeys, Json.sortMembers] at houtcomes ⊢
  rw [houtcomes]
  rfl

/-- A member is written as the mapping of its fields. -/
theorem reprMembers_fields (path : List Container) (m : PatchPanelMembership) :
    ∃ members, PyValue.reprMembers .ample path m.fields = .ok members ∧
      .obj members = m.toJson := by
  have houtcomes : ∀ path, PyValue.reprMembers .ample path (m.expectedControlOutcomes.map
      fun outcome => (outcome.1, .str outcome.2)) =
        .ok (m.expectedControlOutcomes.map fun outcome => (outcome.1, .str outcome.2)) := by
    intro path
    induction m.expectedControlOutcomes with
    | nil => rfl
    | cons outcome rest ih =>
        rw [List.map_cons, PyValue.reprMembers, ih]
        rfl
  simp only [PatchPanelMembership.fields, PyValue.canonicalRepr, PyValue.reprMembers, houtcomes,
    bind, Except.bind]
  exact ⟨_, rfl, rfl⟩

/-- The bytes of a panel are those of its members as dataclasses or as mappings. With ample room
a record and the mapping of its fields come to the same tree. -/
theorem canonicalRepr_panel (members : List PatchPanelMembership)
    {shape : List (String × PyValue) → PyValue}
    (hshape : shape = .record "PatchPanelMembership" ∨ shape = .mapping) :
    (PyValue.list ((sortedMembers members).map fun m => shape m.fields)).canonicalRepr .ample [] =
      .ok (.arr ((sortedMembers members).map PatchPanelMembership.toJson)) := by
  have hitem : ∀ m : PatchPanelMembership,
      (shape m.fields).canonicalRepr .ample [.sequence] = .ok m.toJson := by
    intro m
    rcases hshape with rfl | rfl
    · obtain ⟨fields, hfields, hjson⟩ := reprMembers_fields [.record, .sequence] m
      rw [PyValue.canonicalRepr, hfields, ← hjson]
      rfl
    · obtain ⟨fields, hfields, hjson⟩ := reprMembers_fields [.mapping, .sequence] m
      rw [PyValue.canonicalRepr, hfields, ← hjson]
      rfl
  have hitems : PyValue.reprItems .ample [.sequence]
      ((sortedMembers members).map fun m => shape m.fields) =
        .ok ((sortedMembers members).map PatchPanelMembership.toJson) := by
    induction sortedMembers members with
    | nil => rfl
    | cons m rest ih =>
        rw [List.map_cons, PyValue.reprItems, hitem, ih]
        rfl
  rw [PyValue.canonicalRepr, hitems]
  rfl

theorem PatchPanelMembership.toJson_dumpable (m : PatchPanelMembership) : m.toJson.Dumpable := by
  have houtcomes : (Json.obj (m.expectedControlOutcomes.map fun outcome =>
      (outcome.1, Json.str outcome.2))).Dumpable := by
    apply Json.dumpable_obj
    · rw [List.map_map]
      exact m.distinct_verifiers
    · intro member hmember
      obtain ⟨outcome, _, rfl⟩ := List.mem_map.mp hmember
      trivial
  refine Json.dumpable_obj (by simp) ?_
  simp only [List.forall_mem_cons, List.not_mem_nil, IsEmpty.forall_iff, implies_true, and_true,
    houtcomes]
  simp only [Json.Dumpable, and_self]

/-- Members that are written alike are the same, with their expected outcomes in order. -/
theorem listed_eq_of_toJson (h : m.toJson.sortKeys = n.toJson.sortKeys) : m.listed = n.listed := by
  have hvalues := Json.values_eq_of_sortKeys_eq (by rfl) (by simp) h
  simp only [List.map_cons, List.map_nil, List.cons.injEq, and_true] at hvalues
  obtain ⟨hpanel, hcase, hadjudication, hordinal, houtcomes⟩ := hvalues
  have hkeys : ((m.expectedControlOutcomes.map fun outcome =>
      (outcome.1, Json.str outcome.2)).map Prod.fst).Nodup := by
    rw [List.map_map]
    exact m.distinct_verifiers
  have hperm := (Json.sortKeys_obj_eq_iff hkeys).mp houtcomes
  rw [List.map_map, List.map_map] at hperm
  have hinjective : Function.Injective (Json.sortedValue ∘ fun outcome : String × String =>
      (outcome.1, Json.str outcome.2)) := by
    intro outcome other heq
    obtain ⟨hkey, hvalue⟩ := Prod.mk.inj heq
    exact Prod.ext hkey (Json.str.inj hvalue)
  have hdict := dict_eq_of_perm ((List.map_perm_map_iff hinjective).mp hperm) m.distinct_verifiers
  simp only [PatchPanelMembership.listed, PatchPanelMembership.mk.injEq]
  exact ⟨Json.str.inj hpanel, Json.str.inj hcase, Json.str.inj hadjudication,
    Json.int.inj hordinal, hdict⟩

/-- What one function tells apart, lists of its values tell apart. -/
theorem map_eq_of_map_eq {α β γ : Type} {f : α → β} {g : α → γ} (hfg : ∀ a b, f a = f b → g a = g b)
    {items others : List α} (h : items.map f = others.map f) : items.map g = others.map g := by
  induction items generalizing others with
  | nil =>
      cases others with
      | nil => rfl
      | cons other others => cases h
  | cons item rest ih =>
      cases others with
      | nil => cases h
      | cons other others =>
          rw [List.map_cons, List.map_cons, List.cons.injEq] at h
          rw [List.map_cons, List.map_cons, hfg _ _ h.1, ih h.2]

theorem sortedMembers_perm (members : List PatchPanelMembership) :
    (sortedMembers members).Perm members :=
  List.perm_insertionSort _ members

/-- Members for different cases have one order. -/
theorem sortedMembers_eq_of_perm (hcases : (members.map PatchPanelMembership.caseId).Nodup)
    (h : members.Perm others) : sortedMembers members = sortedMembers others := by
  rw [sortedMembers, sortedMembers]
  exact sorted_eq_of_perm (fun _ _ => Iff.rfl) (List.inj_on_of_nodup_map hcases) h

/-- Listing the expected outcomes does not change the order of the members. -/
theorem map_listed_sortedMembers (members : List PatchPanelMembership) :
    (sortedMembers members).map PatchPanelMembership.listed =
      sortedMembers (members.map PatchPanelMembership.listed) :=
  List.map_insertionSort _ _ _ _ fun _ _ _ _ => Iff.rfl

/-- Sorting the members and then the keys of each comes to sorting members whose outcomes are
sorted. -/
theorem sortKeys_panel (members : List PatchPanelMembership) :
    (Json.arr ((sortedMembers members).map PatchPanelMembership.toJson)).sortKeys =
      .arr ((sortedMembers (members.map PatchPanelMembership.listed)).map
        fun m => m.toJson.sortKeys) := by
  rw [← map_listed_sortedMembers, Json.sortKeys, Json.sortItems_eq, List.map_map, List.map_map]
  congr 1
  apply List.map_congr_left
  intro m _
  exact (sortKeys_toJson_listed m).symm

theorem panelBytes_congr (a b : PanelMembers) (h : a.SameContent b) :
    panelBytes a.members = panelBytes b.members := by
  have hkeys : ((a.members.map PatchPanelMembership.listed).map
      PatchPanelMembership.caseId).Nodup := by
    rw [List.map_map]
    exact a.distinct_cases
  rw [panelBytes, panelBytes, canonicalBytes, canonicalBytes, Json.dumps, Json.dumps,
    sortKeys_panel, sortKeys_panel, sortedMembers_eq_of_perm hkeys h]

theorem panel_identified : Identifies sha256 PanelMembers.SameContent
    (fun panel => panelBytes panel.members) (fun panel => panelDigest sha256 panel.members) := by
  apply Identifies.of_bytes
  · intro panel text h
    rw [panelDigest] at h
    split at h
    · cases h
    · exact (Except.ok.inj h).symm
  · intro a b h
    have hordinals : (a.members.all fun m => (strOfInt? m.ordinal).isSome) =
        b.members.all fun m => (strOfInt? m.ordinal).isSome := by
      have hall := h.all_eq (f := fun m => (strOfInt? m.ordinal).isSome)
      rw [List.all_map, List.all_map] at hall
      exact hall
    rw [panelDigest, panelDigest, panelBytes_congr a b h, hordinals]
  · intro a b h
    have hdumpable : ∀ members : List PatchPanelMembership,
        (Json.arr ((sortedMembers members).map PatchPanelMembership.toJson)).Dumpable := by
      intro members
      rw [Json.Dumpable, Json.itemsDumpable_iff]
      intro item hitem
      obtain ⟨m, _, rfl⟩ := List.mem_map.mp hitem
      exact m.toJson_dumpable
    have hsorted := sortKeys_eq_of_canonicalBytes_eq (hdumpable a.members) (hdumpable b.members) h
    rw [Json.sortKeys, Json.sortKeys, Json.sortItems_eq, Json.sortItems_eq, List.map_map,
      List.map_map, Json.arr.injEq] at hsorted
    have hlisted := map_eq_of_map_eq (fun _ _ heq => listed_eq_of_toJson heq) hsorted
    have hperm := ((sortedMembers_perm a.members).map PatchPanelMembership.listed).symm
    rw [hlisted] at hperm
    exact hperm.trans ((sortedMembers_perm b.members).map PatchPanelMembership.listed)

end Panel

end Exact

/-! ## All four -/

/-- A dictionary is hashed like the dataclass whose fields it has, and a hash identifies what
a record means. -/
structure ContentHashes (sha256 : List UInt8 → Digest) : Prop where
  requirement_dict : ∀ (requirement : Requirement) (data : FieldDict),
    data.Holds requirement.fields →
      requirementHashOfDict sha256 data = .ok (requirementHash sha256 requirement)
  contract_dict : ∀ (contract : Contract) (data : FieldDict), data.Holds contract.fields →
    contractHashOfDict sha256 data = .ok (contractHash sha256 contract)
  manifest_dict : ∀ (manifest : VerifierManifest) (data : FieldDict),
    data.Holds manifest.fields → manifestHashOfDict sha256 data = manifestHash sha256 manifest
  panel_dict : ∀ members : List PatchPanelMembership,
    ∀ shape ∈ [PyValue.record "PatchPanelMembership", PyValue.mapping], ∃ normalized,
      (PyValue.list ((sortedMembers members).map fun m => shape m.fields)).canonicalRepr .ample [] =
        .ok normalized ∧ canonicalBytes normalized = panelBytes members
  requirement : Identifies sha256 Requirement.SameContent
    (fun requirement => canonicalBytes (requirementData requirement))
    fun requirement => .ok (requirementHash sha256 requirement)
  contract : Identifies sha256 Contract.SameContent
    (fun contract => canonicalBytes (contractData contract))
    fun contract => .ok (contractHash sha256 contract)
  manifest : Identifies sha256 VerifierManifest.SameContent
    (fun manifest => canonicalBytes (verifierData manifest)) (manifestHash sha256)
  panel : Identifies sha256 PanelMembers.SameContent
    (fun panel => panelBytes panel.members) fun panel => panelDigest sha256 panel.members

end VerifierCI
