import VerifierCI.Errors
import VerifierCI.Models.Protocol
import VerifierCI.Python.Json
import VerifierCI.Relational.Guards
import VerifierCI.Transition.Run

/-! # Panels, memberships and split reservations

The four tables with their constraints and the triggers of both migrations.
A PRIMARY KEY column that is not declared NOT NULL may hold NULL, and NULL is
no key; timestamps are the text that was stored.
-/

namespace VerifierCI

open Python Relational Transition

/-! ## Rows -/

inductive Split where
  | development
  | assessment
  | train
deriving DecidableEq, Repr

/-- A row of `patch_panels`. -/
structure PatchPanelRow where
  panelKey : Option String
  panelId : String
  version : String
  split : Split
  membershipDigest : String
  samplingPolicy : String
  exposedAt : Option String
  developmentUsedAt : Option String
  sealedAt : Option String
  retiredAt : Option String
  parentPanelKey : Option String
deriving DecidableEq, Repr

/-- A row of `patch_cases`. -/
structure PatchCaseRow where
  caseId : Option String
  taskKey : String
  diffDigest : String
  baseSnapshotDigest : String
  source : PatchSource
  sourceRunId : Option String
  parentCaseIds : Json
  familyId : String
  role : Role
  provenanceDigest : String
  licence : String
  createdAt : String

/-- A row of `panel_memberships`. -/
structure PanelMembershipRow where
  panelKey : String
  caseId : String
  adjudicationId : String
  ordinal : Int
  expectedControlOutcomes : Json

/-- A row of `split_reservations`. -/
structure SplitReservationRow where
  reservationKey : Option String
  assessmentPanelKey : String
  reservedAt : String
deriving DecidableEq, Repr

/-- Keys stored in the other tables that these four refer to. -/
structure ForeignKeys where
  tasks : List String
  artifacts : List String
  repositorySnapshots : List String
  agentRuns : List String
  adjudications : List String

structure PanelDb where
  patchPanels : List PatchPanelRow
  patchCases : List PatchCaseRow
  panelMemberships : List PanelMembershipRow
  splitReservations : List SplitReservationRow
  others : ForeignKeys

def PanelDb.empty (others : ForeignKeys) : PanelDb where
  patchPanels := []
  patchCases := []
  panelMemberships := []
  splitReservations := []
  others := others

/-! ## Triggers -/

/-- `'family:' || family_id`. -/
def PatchCaseRow.familyKey (row : PatchCaseRow) : String :=
  "family:" ++ row.familyId

/-- `'case:' || task_key || ':' || diff_digest`. -/
def PatchCaseRow.caseKey (row : PatchCaseRow) : String :=
  "case:" ++ row.taskKey ++ ":" ++ row.diffDigest

/-- The join condition between a case and a reservation. -/
def SplitReservationRow.reserves (row : SplitReservationRow) (case : PatchCaseRow) : Bool :=
  row.reservationKey = some case.familyKey || row.reservationKey = some case.caseKey

def Split.isTraining : Split → Bool
  | .development | .train => true
  | .assessment => false

def guardDevelopmentMembership (db : PanelDb) (new : PanelMembershipRow) : Option String :=
  let split := (db.patchPanels.find? fun panel => panel.panelKey = some new.panelKey).map (·.split)
  if split.any Split.isTraining &&
      db.patchCases.any (fun case => case.caseId = some new.caseId &&
        db.splitReservations.any fun reservation => reservation.reserves case) then
    some "assessment case or family is reserved"
  else none

inductive PanelColumn where
  | panelKey
  | panelId
  | version
  | split
  | membershipDigest
  | samplingPolicy
  | exposedAt
  | developmentUsedAt
  | sealedAt
  | retiredAt
  | parentPanelKey
deriving DecidableEq, Repr

/-- The columns `patch_panels_no_core_update` is declared on. -/
def PanelColumn.isCore : PanelColumn → Bool
  | .exposedAt | .developmentUsedAt | .sealedAt | .retiredAt => false
  | _ => true

/-- `a != b` in a WHEN clause: a comparison with NULL does not count. -/
def differs (a b : Option String) : Bool :=
  a.isSome && b.isSome && a != b

/-- The WHEN clause of `patch_panels_sealed_no_update`. -/
def sealedUpdate (old new : PatchPanelRow) : Bool :=
  old.sealedAt.isSome &&
    (differs new.panelKey old.panelKey || new.panelId != old.panelId ||
      new.version != old.version || new.split != old.split ||
      new.membershipDigest != old.membershipDigest || new.samplingPolicy != old.samplingPolicy ||
      new.parentPanelKey != old.parentPanelKey || new.sealedAt != old.sealedAt ||
      new.exposedAt != old.exposedAt || new.developmentUsedAt != old.developmentUsedAt)

/-- The triggers of an UPDATE that sets `columns`. -/
def panelsBeforeUpdate (columns : List PanelColumn) (old new : PatchPanelRow) : Option String :=
  if columns.any PanelColumn.isCore || sealedUpdate old new then
    some "immutable entity patch_panels cannot be updated"
  else none

/-- The row after `SET columns = values`. -/
def PatchPanelRow.set (row : PatchPanelRow) (columns : List PanelColumn) (values : PatchPanelRow) :
    PatchPanelRow where
  panelKey := if .panelKey ∈ columns then values.panelKey else row.panelKey
  panelId := if .panelId ∈ columns then values.panelId else row.panelId
  version := if .version ∈ columns then values.version else row.version
  split := if .split ∈ columns then values.split else row.split
  membershipDigest :=
    if .membershipDigest ∈ columns then values.membershipDigest else row.membershipDigest
  samplingPolicy := if .samplingPolicy ∈ columns then values.samplingPolicy else row.samplingPolicy
  exposedAt := if .exposedAt ∈ columns then values.exposedAt else row.exposedAt
  developmentUsedAt :=
    if .developmentUsedAt ∈ columns then values.developmentUsedAt else row.developmentUsedAt
  sealedAt := if .sealedAt ∈ columns then values.sealedAt else row.sealedAt
  retiredAt := if .retiredAt ∈ columns then values.retiredAt else row.retiredAt
  parentPanelKey := if .parentPanelKey ∈ columns then values.parentPanelKey else row.parentPanelKey

/-! ## Tables -/

def sameKey (a b : Option String) : Bool :=
  a.isSome && a = b

def panelGuards (columns : List PanelColumn) : Guards PatchPanelRow where
  beforeInsert _ := none
  beforeUpdate := panelsBeforeUpdate columns
  beforeDelete _ := some "immutable entity patch_panels cannot be deleted"
  valid _ := true
  clashes row other := sameKey row.panelKey other.panelKey ||
    (row.panelId = other.panelId && row.version = other.version)

def caseGuards : Guards PatchCaseRow where
  beforeInsert _ := none
  beforeUpdate _ _ := some "immutable entity patch_cases cannot be updated"
  beforeDelete _ := some "immutable entity patch_cases cannot be deleted"
  valid _ := true
  clashes row other := sameKey row.caseId other.caseId

def membershipGuards (db : PanelDb) : Guards PanelMembershipRow where
  beforeInsert := guardDevelopmentMembership db
  beforeUpdate _ _ := some "immutable entity panel_memberships cannot be updated"
  beforeDelete _ := some "immutable entity panel_memberships cannot be deleted"
  valid row := 0 ≤ row.ordinal
  clashes row other := row.panelKey = other.panelKey &&
    (row.caseId = other.caseId || row.ordinal = other.ordinal)

def reservationGuards : Guards SplitReservationRow where
  beforeInsert _ := none
  beforeUpdate _ _ := some "assessment reservation is permanent"
  beforeDelete _ := some "assessment reservation is permanent"
  valid _ := true
  clashes row other := sameKey row.reservationKey other.reservationKey

/-! ## Foreign keys -/

def PanelDb.hasPanel (db : PanelDb) (panelKey : String) : Bool :=
  db.patchPanels.any fun panel => panel.panelKey = some panelKey

def PanelDb.hasCase (db : PanelDb) (caseId : String) : Bool :=
  db.patchCases.any fun case => case.caseId = some caseId

def PatchPanelRow.resolves (db : PanelDb) (row : PatchPanelRow) : Bool :=
  row.parentPanelKey.all db.hasPanel

def PatchCaseRow.resolves (db : PanelDb) (row : PatchCaseRow) : Bool :=
  db.others.tasks.contains row.taskKey && db.others.artifacts.contains row.diffDigest &&
    db.others.repositorySnapshots.contains row.baseSnapshotDigest &&
    row.sourceRunId.all db.others.agentRuns.contains

def PanelMembershipRow.resolves (db : PanelDb) (row : PanelMembershipRow) : Bool :=
  db.hasPanel row.panelKey && db.hasCase row.caseId &&
    db.others.adjudications.contains row.adjudicationId

def SplitReservationRow.resolves (db : PanelDb) (row : SplitReservationRow) : Bool :=
  db.hasPanel row.assessmentPanelKey

/-! ## Statements -/

/-- A statement on the four tables. WHERE and SET read one row at a time. -/
inductive PanelStatement where
  | insertPanels (onConflict : OnConflict) (rows : List PatchPanelRow)
  | updatePanels (columns : List PanelColumn) (values : PatchPanelRow → PatchPanelRow)
      (selects : PatchPanelRow → Bool)
  | deletePanels (selects : PatchPanelRow → Bool)
  | insertCases (onConflict : OnConflict) (rows : List PatchCaseRow)
  | updateCases (values : PatchCaseRow → PatchCaseRow) (selects : PatchCaseRow → Bool)
  | deleteCases (selects : PatchCaseRow → Bool)
  | insertMemberships (onConflict : OnConflict) (rows : List PanelMembershipRow)
  | updateMemberships (values : PanelMembershipRow → PanelMembershipRow)
      (selects : PanelMembershipRow → Bool)
  | deleteMemberships (selects : PanelMembershipRow → Bool)
  | insertReservations (onConflict : OnConflict) (rows : List SplitReservationRow)
  | updateReservations (values : SplitReservationRow → SplitReservationRow)
      (selects : SplitReservationRow → Bool)
  | deleteReservations (selects : SplitReservationRow → Bool)
  /-- Any statement on the tables these four refer to. -/
  | elsewhere (others : ForeignKeys)

/-- Foreign keys are checked when the statement ends. -/
def PanelDb.resolved (db : PanelDb) (resolves : Bool) : Except String PanelDb :=
  if resolves then .ok db else .error "FOREIGN KEY constraint failed"

def PanelDb.execute (db : PanelDb) : PanelStatement → Except String PanelDb
  | .insertPanels onConflict rows => do
      let stored ← (panelGuards []).insert onConflict db.patchPanels rows
      let db := { db with patchPanels := stored }
      db.resolved (rows.all fun row => row.resolves db)
  | .updatePanels columns values selects => do
      let stored ← (panelGuards columns).update selects
        (fun row => row.set columns (values row)) db.patchPanels
      .ok { db with patchPanels := stored }
  | .deletePanels selects => do
      let stored ← (panelGuards []).delete selects db.patchPanels
      .ok { db with patchPanels := stored }
  | .insertCases onConflict rows => do
      let stored ← caseGuards.insert onConflict db.patchCases rows
      let db := { db with patchCases := stored }
      db.resolved (rows.all fun row => row.resolves db)
  | .updateCases values selects => do
      let stored ← caseGuards.update selects values db.patchCases
      .ok { db with patchCases := stored }
  | .deleteCases selects => do
      let stored ← caseGuards.delete selects db.patchCases
      .ok { db with patchCases := stored }
  | .insertMemberships onConflict rows => do
      let stored ← (membershipGuards db).insert onConflict db.panelMemberships rows
      let db := { db with panelMemberships := stored }
      db.resolved (rows.all fun row => row.resolves db)
  | .updateMemberships values selects => do
      let stored ← (membershipGuards db).update selects values db.panelMemberships
      .ok { db with panelMemberships := stored }
  | .deleteMemberships selects => do
      let stored ← (membershipGuards db).delete selects db.panelMemberships
      .ok { db with panelMemberships := stored }
  | .insertReservations onConflict rows => do
      let stored ← reservationGuards.insert onConflict db.splitReservations rows
      let db := { db with splitReservations := stored }
      db.resolved (rows.all fun row => row.resolves db)
  | .updateReservations values selects => do
      let stored ← reservationGuards.update selects values db.splitReservations
      .ok { db with splitReservations := stored }
  | .deleteReservations selects => do
      let stored ← reservationGuards.delete selects db.splitReservations
      .ok { db with splitReservations := stored }
  | .elsewhere others => .ok { db with others := others }

/-- INSERT or REPLACE. -/
def PanelStatement.isInsert : PanelStatement → Bool
  | .insertPanels .. | .insertCases .. | .insertMemberships .. | .insertReservations .. => true
  | _ => false

/-- A statement that is refused changes nothing. -/
def PanelDb.call (db : PanelDb) (statement : PanelStatement) : PanelDb :=
  match db.execute statement with
  | .ok db => db
  | .error _ => db

def PanelDb.Accepts (db : PanelDb) (statement : PanelStatement) : Prop :=
  (db.execute statement).toBool = true

/-! ## What a statement that succeeds has done -/

/-- No row is ever deleted, and only some columns of a panel change. -/
inductive PanelEffect (db : PanelDb) : PanelStatement → PanelDb → Prop
  | panels {onConflict : OnConflict} {rows : List PatchPanelRow}
      (hfits : (panelGuards []).Fits db.patchPanels rows) :
      PanelEffect db (.insertPanels onConflict rows)
        { db with patchPanels := db.patchPanels ++ rows }
  | marked {columns : List PanelColumn} {values : PatchPanelRow → PatchPanelRow}
      {selects : PatchPanelRow → Bool}
      (hpasses : ∀ row ∈ db.patchPanels, selects row = true →
        panelsBeforeUpdate columns row (row.set columns (values row)) = none) :
      PanelEffect db (.updatePanels columns values selects)
        { db with
          patchPanels := db.patchPanels.map fun row =>
            if selects row then row.set columns (values row) else row }
  | cases {onConflict : OnConflict} {rows : List PatchCaseRow}
      (hfits : caseGuards.Fits db.patchCases rows) :
      PanelEffect db (.insertCases onConflict rows) { db with patchCases := db.patchCases ++ rows }
  | members {onConflict : OnConflict} {rows : List PanelMembershipRow}
      (hfits : (membershipGuards db).Fits db.panelMemberships rows)
      (hresolves : ∀ row ∈ rows, row.resolves db = true) :
      PanelEffect db (.insertMemberships onConflict rows)
        { db with panelMemberships := db.panelMemberships ++ rows }
  | reservations {onConflict : OnConflict} {rows : List SplitReservationRow}
      (hfits : reservationGuards.Fits db.splitReservations rows) :
      PanelEffect db (.insertReservations onConflict rows)
        { db with splitReservations := db.splitReservations ++ rows }
  | elsewhere (others : ForeignKeys) :
      PanelEffect db (.elsewhere others) { db with others := others }
  | kept {statement : PanelStatement} (hinsert : statement.isInsert = false) :
      PanelEffect db statement db

section Effect

variable {db db' : PanelDb} {statement : PanelStatement}

theorem panelGuards_permanent (columns : List PanelColumn) : (panelGuards columns).Permanent :=
  fun _ => rfl

theorem caseGuards_permanent : caseGuards.Permanent := fun _ => rfl

theorem caseGuards_immutable : caseGuards.Immutable := fun _ _ => rfl

theorem membershipGuards_permanent (db : PanelDb) : (membershipGuards db).Permanent := fun _ => rfl

theorem membershipGuards_immutable (db : PanelDb) : (membershipGuards db).Immutable :=
  fun _ _ => rfl

theorem reservationGuards_permanent : reservationGuards.Permanent := fun _ => rfl

theorem reservationGuards_immutable : reservationGuards.Immutable := fun _ _ => rfl

theorem resolved_ok {resolves : Bool} (h : db.resolved resolves = .ok db') :
    resolves = true ∧ db' = db := by
  unfold PanelDb.resolved at h
  split at h
  next hresolves => exact ⟨hresolves, (Except.ok.inj h).symm⟩
  next => cases h

/-- What a statement that goes through has done, one case for each kind. Insertions have passed
the guards of their table and the foreign keys, updates the guards alone. -/
theorem execute_ok (h : db.execute statement = .ok db') : PanelEffect db statement db' := by
  cases statement with
  | insertPanels onConflict rows =>
      obtain ⟨stored, hstored, hkeys⟩ := bind_eq_ok.mp h
      obtain ⟨hfits, rfl⟩ := (panelGuards_permanent []).insert_ok hstored
      obtain ⟨_, rfl⟩ := resolved_ok hkeys
      exact .panels hfits
  | updatePanels columns values selects =>
      obtain ⟨stored, hstored, hok⟩ := bind_eq_ok.mp h
      obtain ⟨hpasses, rfl⟩ := Guards.update_ok hstored
      obtain rfl := Except.ok.inj hok
      exact .marked hpasses
  | deletePanels selects =>
      obtain ⟨stored, hstored, hok⟩ := bind_eq_ok.mp h
      obtain ⟨rfl, _⟩ := (panelGuards_permanent []).delete_ok hstored
      obtain rfl := Except.ok.inj hok
      exact .kept rfl
  | insertCases onConflict rows =>
      obtain ⟨stored, hstored, hkeys⟩ := bind_eq_ok.mp h
      obtain ⟨hfits, rfl⟩ := caseGuards_permanent.insert_ok hstored
      obtain ⟨_, rfl⟩ := resolved_ok hkeys
      exact .cases hfits
  | updateCases values selects =>
      obtain ⟨stored, hstored, hok⟩ := bind_eq_ok.mp h
      obtain rfl := caseGuards_immutable.update_ok hstored
      obtain rfl := Except.ok.inj hok
      exact .kept rfl
  | deleteCases selects =>
      obtain ⟨stored, hstored, hok⟩ := bind_eq_ok.mp h
      obtain ⟨rfl, _⟩ := caseGuards_permanent.delete_ok hstored
      obtain rfl := Except.ok.inj hok
      exact .kept rfl
  | insertMemberships onConflict rows =>
      obtain ⟨stored, hstored, hkeys⟩ := bind_eq_ok.mp h
      obtain ⟨hfits, rfl⟩ := (membershipGuards_permanent db).insert_ok hstored
      obtain ⟨hresolves, rfl⟩ := resolved_ok hkeys
      exact .members hfits (List.all_eq_true.mp hresolves)
  | updateMemberships values selects =>
      obtain ⟨stored, hstored, hok⟩ := bind_eq_ok.mp h
      obtain rfl := (membershipGuards_immutable db).update_ok hstored
      obtain rfl := Except.ok.inj hok
      exact .kept rfl
  | deleteMemberships selects =>
      obtain ⟨stored, hstored, hok⟩ := bind_eq_ok.mp h
      obtain ⟨rfl, _⟩ := (membershipGuards_permanent db).delete_ok hstored
      obtain rfl := Except.ok.inj hok
      exact .kept rfl
  | insertReservations onConflict rows =>
      obtain ⟨stored, hstored, hkeys⟩ := bind_eq_ok.mp h
      obtain ⟨hfits, rfl⟩ := reservationGuards_permanent.insert_ok hstored
      obtain ⟨_, rfl⟩ := resolved_ok hkeys
      exact .reservations hfits
  | updateReservations values selects =>
      obtain ⟨stored, hstored, hok⟩ := bind_eq_ok.mp h
      obtain rfl := reservationGuards_immutable.update_ok hstored
      obtain rfl := Except.ok.inj hok
      exact .kept rfl
  | deleteReservations selects =>
      obtain ⟨stored, hstored, hok⟩ := bind_eq_ok.mp h
      obtain ⟨rfl, _⟩ := reservationGuards_permanent.delete_ok hstored
      obtain rfl := Except.ok.inj hok
      exact .kept rfl
  | elsewhere others =>
      obtain rfl := Except.ok.inj h
      exact .elsewhere others

theorem PanelDb.Accepts.effect (h : db.Accepts statement) :
    PanelEffect db statement (db.call statement) := by
  unfold PanelDb.Accepts at h
  unfold PanelDb.call
  cases hexecute : db.execute statement with
  | ok db' => exact execute_ok hexecute
  | error message =>
      rw [hexecute] at h
      cases h

/-- Only the four timestamps of a row change when no core column is set. -/
theorem set_of_not_core {columns : List PanelColumn}
    (hcore : columns.any PanelColumn.isCore = false)
    (row values : PatchPanelRow) : row.set columns values =
      { row with
        exposedAt := (row.set columns values).exposedAt
        developmentUsedAt := (row.set columns values).developmentUsedAt
        sealedAt := (row.set columns values).sealedAt
        retiredAt := (row.set columns values).retiredAt } := by
  have hnot : ∀ column : PanelColumn, column.isCore = true → column ∉ columns := by
    intro column hcolumn hmem
    rw [List.any_eq_true.mpr ⟨column, hmem, hcolumn⟩] at hcore
    cases hcore
  simp only [PatchPanelRow.set, hnot .panelKey rfl, hnot .panelId rfl, hnot .version rfl,
    hnot .split rfl, hnot .membershipDigest rfl, hnot .samplingPolicy rfl,
    hnot .parentPanelKey rfl, if_false]

/-- What passes the update triggers of `patch_panels`. -/
theorem panelsBeforeUpdate_eq_none {columns : List PanelColumn} {old new : PatchPanelRow}
    (h : panelsBeforeUpdate columns old new = none) :
    columns.any PanelColumn.isCore = false ∧ sealedUpdate old new = false := by
  unfold panelsBeforeUpdate at h
  split at h
  next => cases h
  next hquiet => exact Bool.or_eq_false_iff.mp (Bool.not_eq_true _ ▸ hquiet)

end Effect

/-! ## A small cohort -/

def smallKeys : ForeignKeys where
  tasks := ["task"]
  artifacts := ["diff"]
  repositorySnapshots := ["snapshot"]
  agentRuns := []
  adjudications := ["adjudication"]

def smallPanel (panelKey : String) (split : Split) : PatchPanelRow where
  panelKey := some panelKey
  panelId := panelKey
  version := "1"
  split := split
  membershipDigest := "digest"
  samplingPolicy := "fixed"
  exposedAt := none
  developmentUsedAt := none
  sealedAt := none
  retiredAt := none
  parentPanelKey := none

def smallCase : PatchCaseRow where
  caseId := some "case"
  taskKey := "task"
  diffDigest := "diff"
  baseSnapshotDigest := "snapshot"
  source := .reference
  sourceRunId := none
  parentCaseIds := .arr []
  familyId := "family"
  role := .challenge
  provenanceDigest := "provenance"
  licence := "MIT"
  createdAt := "2026-09-21T00:00:00Z"

def smallMember (panelKey : String) : PanelMembershipRow where
  panelKey := panelKey
  caseId := "case"
  adjudicationId := "adjudication"
  ordinal := 0
  expectedControlOutcomes := .obj []

/-- A development panel and an assessment panel, and one case. -/
def smallCohort : List PanelStatement :=
  [.insertPanels .abort [smallPanel "dev" .development, smallPanel "assess" .assessment],
    .insertCases .abort [smallCase]]

end VerifierCI
