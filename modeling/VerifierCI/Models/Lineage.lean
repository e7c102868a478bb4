import Mathlib.Data.List.Nodup
import Mathlib.Data.List.Perm.Subperm
import VerifierCI.Errors
import VerifierCI.Models.Protocol
import VerifierCI.Search.DepthFirst

/-! # Lineage of patch cases

The lineage check is a recursive search. It finds every cycle, but the interpreter allows
only so many nested calls, and a long derivation is refused with a `RecursionError`.
-/

namespace VerifierCI

open Search

def derivedCase (caseId : String) (parentCaseIds : List String) : PatchCase where
  caseId := caseId
  taskKey := "task"
  diffDigest := "diff"
  baseSnapshotDigest := "snapshot"
  source := .agent
  sourceRunId := none
  parentCaseIds := parentCaseIds
  familyId := "family"
  role := .challenge
  provenanceDigest := "provenance"
  licence := "licence"
  createdAt :=
    { micros := 0
      utcoffset := some 0
      micros_mem := Python.Datetime.zero_mem
      utcoffset_mem := Python.Datetime.utc_mem }

section Check

variable (cases : List PatchCase)

def caseIds : List String :=
  cases.map PatchCase.caseId

/-- `graph.get(node, [])`. Of two cases with one id, the graph holds the later. -/
def lineageGraph (node : String) : List String :=
  match cases.reverse.find? fun patch => patch.caseId = node with
  | some patch => patch.parentCaseIds
  | none => []

def raiseCycle (path : List String) : Exc :=
  .verifierCI .validationError ("Lineage cycle detected: " ++ " -> ".intercalate path)
    .validationError

/-- What the interpreter allows: how deep `dfs` calls may nest, and how much of that the
construction of an error takes, which calls `VerifierCIError.__init__`. -/
structure Recursion where
  frames : Nat
  errorFrames : Nat

/-- The error is raised if there are frames left for its construction. -/
def raiseFound (errorFrames frames : Nat) (path : List String) : Exc :=
  if errorFrames ≤ frames then raiseCycle path else .recursionError

def dfsParents (raised : List String → Exc)
    (dfs : String → List String → Marks String → Except Exc (Marks String))
    (path : List String) : List String → Marks String → Except Exc (Marks String)
  | [], visited => .ok visited
  | parent :: rest, visited =>
      if parent ∉ caseIds cases then dfsParents raised dfs path rest visited
      else
        match visited parent with
        | some .visiting => .error (raised (path ++ [parent]))
        | some .visited => dfsParents raised dfs path rest visited
        | none => do
            let visited ← dfs parent (path ++ [parent]) visited
            dfsParents raised dfs path rest visited

/-- `dfs(node, path)`, with what is left of the recursion limit. -/
def dfs (errorFrames : Nat) : Nat → String → List String → Marks String →
    Except Exc (Marks String)
  | 0, _, _, _ => .error .recursionError
  | frames + 1, node, path, visited => do
      let visited ← dfsParents cases (raiseFound errorFrames frames) (dfs errorFrames frames) path
        (lineageGraph cases node) (Function.update visited node (some .visiting))
      .ok (Function.update visited node (some .visited))

def dfsRoots (limit : Recursion) : List String → Marks String → Except Exc Unit
  | [], _ => .ok ()
  | cid :: rest, visited =>
      if visited cid = none then do
        let visited ← dfs cases limit.errorFrames limit.frames cid [cid] visited
        dfsRoots limit rest visited
      else dfsRoots limit rest visited

/-- `validate_lineage(cases)`, where the set of ids iterates in the given order. -/
def validateLineage (limit : Recursion) (order : List String) : Except Exc Unit :=
  dfsRoots cases limit order fun _ => none

/-! ## The relation -/

/-- The second case is given as a parent of the first, and both are supplied. -/
def ParentOf (child parent : String) : Prop :=
  (∃ patch ∈ cases, patch.caseId = child ∧ parent ∈ patch.parentCaseIds) ∧ parent ∈ caseIds cases

def CyclicLineage : Prop :=
  ∃ caseId, Relation.TransGen (ParentOf cases) caseId caseId

/-- The check tells cyclic lineages from others. -/
structure ExactCheck (outcome : Except Exc Unit) : Prop where
  raises : (∃ message, outcome = .error (.verifierCI .validationError message .validationError)) ↔
    CyclicLineage cases
  returns : outcome = .ok () ↔ ¬ CyclicLineage cases

/-- The supplied parents of a case, in the order it lists them. -/
def lineageParents (node : String) : List String :=
  (lineageGraph cases node).filter fun parent => parent ∈ caseIds cases

/-- No descent of the search, from any case, takes more calls than may nest, and one that
leads back to itself leaves room for the error. -/
structure FitsFrames (limit : Recursion) : Prop where
  descents : ∀ start ∈ caseIds cases, ∀ rest, Descent (lineageParents cases) (start :: rest) →
    (start :: rest).length ≤ limit.frames
  errors : ∀ start ∈ caseIds cases, ∀ rest, Descent (lineageParents cases) (start :: rest) →
    Closes (lineageParents cases) (· ∈ start :: rest) (start :: rest) →
      (start :: rest).length + limit.errorFrames ≤ limit.frames

/-! ## The search -/

def stopExc : Stop String → Exc
  | .cycle path => raiseCycle path
  | .tooDeep => .recursionError

variable {cases}

theorem stopExc_reported (errorFrames frames : Nat) (path : List String) :
    stopExc (reported errorFrames frames path) = raiseFound errorFrames frames path := by
  unfold reported raiseFound
  split <;> rfl

/-- The loop over the parents is the library's descent, given that the recursive call is. By
induction on the parents, so that the rest of the loop starts from the marks the recursive call
leaves. -/
theorem dfsParents_eq {raised : List String → Exc} {report : List String → Stop String}
    {dfs : String → List String → Marks String → Except Exc (Marks String)}
    {search : String → List String → Marks String → Except (Stop String) (Marks String)}
    (hraised : ∀ path, stopExc (report path) = raised path)
    (hdfs : ∀ node path visited, dfs node path visited =
      (search node path visited).mapError stopExc) (path parents : List String)
    (visited : Marks String) : dfsParents cases raised dfs path parents visited =
      (visitAll report search path (parents.filter fun parent => parent ∈ caseIds cases)
        visited).mapError stopExc := by
  induction parents generalizing visited with
  | nil => rfl
  | cons parent rest ih =>
      rw [dfsParents]
      -- A parent that was not supplied is skipped by the loop and filtered out of the graph.
      by_cases hsupplied : parent ∈ caseIds cases
      · rw [if_neg (not_not.mpr hsupplied), List.filter_cons_of_pos (by simpa using hsupplied),
          visitAll]
        cases hmark : visited parent with
        | none =>
            simp only [hdfs]
            cases search parent (path ++ [parent]) visited with
            | error stop => rfl
            | ok marks => exact ih marks
        | some mark =>
            cases mark with
            | visiting => exact congrArg Except.error (hraised _).symm
            | visited => exact ih visited
      · rw [if_pos hsupplied, List.filter_cons_of_neg (by simpa using hsupplied)]
        exact ih visited

/-- By induction on the frames: the function of the source is the general search with its own
error. -/
theorem dfs_eq (errorFrames frames : Nat) (node : String) (path : List String)
    (visited : Marks String) : dfs cases errorFrames frames node path visited =
      (visit (lineageParents cases) errorFrames frames node path visited).mapError stopExc := by
  induction frames generalizing node path visited with
  | zero => rfl
  | succ frames ih =>
      rw [dfs, visit, dfsParents_eq (stopExc_reported errorFrames frames) ih, ← lineageParents]
      cases visitAll (reported errorFrames frames)
        (visit (lineageParents cases) errorFrames frames) path (lineageParents cases node)
        (Function.update visited node (some .visiting)) <;> rfl

/-- The loop over the ids skips those that are visited, which the general search does as
well. -/
theorem dfsRoots_eq {limit : Recursion} {roots : List String} {visited : Marks String}
    (hsettled : Settled (lineageParents cases) visited)
    (hnone : ∀ node, visited node ≠ some .visiting) : dfsRoots cases limit roots visited =
      ((visitAll .cycle (visit (lineageParents cases) limit.errorFrames limit.frames) [] roots
        visited).map fun _ => ()).mapError stopExc := by
  induction roots generalizing visited with
  | nil => rfl
  | cons root rest ih =>
      rw [dfsRoots, visitAll]
      cases hmark : visited root with
      | none =>
          rw [if_pos rfl, dfs_eq]
          simp only [List.nil_append]
          cases hroot : visit (lineageParents cases) limit.errorFrames limit.frames root [root]
              visited with
          | error stop => rfl
          | ok marks =>
              have hexplored := visit_ok hsettled hmark hroot
              apply ih (hexplored.settled hsettled)
              intro node
              rw [ne_eq, hexplored.visiting]
              exact hnone node
      | some mark =>
          rw [if_neg (by simp)]
          cases mark with
          | visiting => exact absurd hmark (hnone root)
          | visited => exact ih hsettled hnone

/-- The check is the search for cycles among the supplied parents. -/
theorem validateLineage_eq (limit : Recursion) (order : List String) :
    validateLineage cases limit order = ((search (lineageParents cases) limit.errorFrames
      limit.frames order).map fun _ => ()).mapError stopExc :=
  dfsRoots_eq settled_none (by simp)

/-- A path that is too long, or closes without room for the error, is what the search gives up
on. -/
theorem fitsFrames_iff {limit : Recursion} : FitsFrames cases limit ↔
    ∀ start ∈ caseIds cases, ∀ rest, Descent (lineageParents cases) (start :: rest) →
      ¬ Exceeds (lineageParents cases) limit.errorFrames limit.frames (· ∈ start :: rest)
        (start :: rest) := by
  constructor
  · rintro h start hstart rest hdescent (hlong | ⟨hcloses, hlong⟩)
    · exact absurd (h.descents start hstart rest hdescent) (Nat.not_le_of_lt hlong)
    · exact absurd (h.errors start hstart rest hdescent hcloses) (Nat.not_le_of_lt hlong)
  · intro h
    refine ⟨fun start hstart rest hdescent => ?_, fun start hstart rest hdescent hcloses => ?_⟩
    · exact Nat.le_of_not_lt fun hlong => h start hstart rest hdescent (Or.inl hlong)
    · exact Nat.le_of_not_lt fun hlong => h start hstart rest hdescent (Or.inr ⟨hcloses, hlong⟩)

/-! ## Exactness -/

theorem lineageGraph_of_mem (hdistinct : (caseIds cases).Nodup) {patch : PatchCase}
    (hpatch : patch ∈ cases) : lineageGraph cases patch.caseId = patch.parentCaseIds := by
  rw [lineageGraph]
  cases hfind : cases.reverse.find? fun other => other.caseId = patch.caseId with
  | none =>
      have hnone := List.find?_eq_none.mp hfind patch (List.mem_reverse.mpr hpatch)
      simp at hnone
  | some other =>
      have hid : other.caseId = patch.caseId := by simpa using List.find?_some hfind
      have hmem := List.mem_reverse.mp (List.mem_of_find?_eq_some hfind)
      rw [List.inj_on_of_nodup_map hdistinct hmem hpatch hid]

theorem exists_of_mem_lineageGraph {node parent : String}
    (h : parent ∈ lineageGraph cases node) :
    ∃ patch ∈ cases, patch.caseId = node ∧ parent ∈ patch.parentCaseIds := by
  rw [lineageGraph] at h
  split at h
  next patch hfind =>
    have hid : patch.caseId = node := by simpa using List.find?_some hfind
    exact ⟨patch, List.mem_reverse.mp (List.mem_of_find?_eq_some hfind), hid, h⟩
  · cases h

/-- Ids are distinct, so the dictionary by id keeps every case. -/
theorem edge_iff (hdistinct : (caseIds cases).Nodup) {node parent : String} :
    Edge (lineageParents cases) node parent ↔ ParentOf cases node parent := by
  rw [Edge, lineageParents, List.mem_filter, decide_eq_true_eq, ParentOf]
  apply and_congr_left'
  constructor
  · exact exists_of_mem_lineageGraph
  · rintro ⟨patch, hpatch, rfl, hparent⟩
    rw [lineageGraph_of_mem hdistinct hpatch]
    exact hparent

/-- A case on a cycle is supplied. -/
theorem mem_of_onCycle {node : String} (h : OnCycle (lineageParents cases) node) :
    node ∈ caseIds cases := by
  obtain ⟨child, _, hedge⟩ := Relation.TransGen.tail'_iff.mp h
  exact of_decide_eq_true (List.mem_filter.mp hedge).2

/-- The relation of the claim and the edges of the search are the same. -/
theorem cyclicLineage_iff (hdistinct : (caseIds cases).Nodup) :
    CyclicLineage cases ↔ ∃ node, OnCycle (lineageParents cases) node := by
  have hedge : Edge (lineageParents cases) = ParentOf cases := by
    funext node parent
    exact propext (edge_iff hdistinct)
  simp only [CyclicLineage, OnCycle, hedge]

/-- A search that does not run out of frames is exact. Then it raises for a cycle exactly if
there is one, and names one that is there. -/
theorem exactCheck_iff (hdistinct : (caseIds cases).Nodup) {limit : Recursion}
    {order : List String} (hperm : order.Perm (caseIds cases)) :
    ExactCheck cases (validateLineage cases limit order) ↔
      search (lineageParents cases) limit.errorFrames limit.frames order ≠ .error .tooDeep := by
  rw [validateLineage_eq]
  cases hsearch : search (lineageParents cases) limit.errorFrames limit.frames order with
  | ok marks =>
      have hacyclic : ¬ CyclicLineage cases := by
        rw [cyclicLineage_iff hdistinct]
        rintro ⟨node, hcycle⟩
        exact search_ok hsearch node (hperm.mem_iff.mpr (mem_of_onCycle hcycle)) node .refl hcycle
      refine iff_of_true ⟨?_, iff_of_true rfl hacyclic⟩ (by simp)
      refine iff_of_false ?_ hacyclic
      rintro ⟨message, heq⟩
      cases heq
  | error stop =>
      cases stop with
      | cycle path =>
          have hcyclic : CyclicLineage cases := by
            obtain ⟨_, _, node, _, hcycle⟩ := search_cycle hsearch
            exact (cyclicLineage_iff hdistinct).mpr ⟨node, hcycle⟩
          refine iff_of_true ⟨iff_of_true ⟨_, rfl⟩ hcyclic, ?_⟩ (by simp)
          refine iff_of_false ?_ (not_not.mpr hcyclic)
          intro heq
          cases heq
      -- A search that runs out of frames tells nothing, whichever graph it was given.
      | tooDeep =>
          refine iff_of_false ?_ (by simp)
          intro h
          by_cases hcyclic : CyclicLineage cases
          · obtain ⟨message, heq⟩ := h.raises.mpr hcyclic
            cases heq
          · cases h.returns.mpr hcyclic

/-- The check is exact in every order of the ids exactly if no derivation outgrows the recursion
limit. A search that finds a cycle needs some room more than one that only descends, for the
error it raises. -/
theorem lineage_exact_iff (hdistinct : (caseIds cases).Nodup) (limit : Recursion) :
    (∀ order : List String, order.Perm (caseIds cases) →
        ExactCheck cases (validateLineage cases limit order)) ↔
      FitsFrames cases limit := by
  have hiff : (∀ order : List String, order.Perm (caseIds cases) →
      ExactCheck cases (validateLineage cases limit order)) ↔
        ∀ order : List String, order.Perm (caseIds cases) →
          search (lineageParents cases) limit.errorFrames limit.frames order ≠
            .error .tooDeep := by
    apply forall_congr'
    intro order
    exact forall_congr' fun hperm => exactCheck_iff hdistinct hperm
  rw [hiff, forall_order_iff, fitsFrames_iff]

/-- The default recursion limit, of which an error takes three frames. -/
def defaultRecursion : Recursion where
  frames := 1000
  errorFrames := 3

/-- Two cases, each derived from the other. -/
theorem lineage_exact_iff_pair : (∀ order : List String,
      order.Perm (caseIds [derivedCase "a" ["b"], derivedCase "b" ["a"]]) →
        ExactCheck [derivedCase "a" ["b"], derivedCase "b" ["a"]]
          (validateLineage [derivedCase "a" ["b"], derivedCase "b" ["a"]] defaultRecursion
            order)) ↔
    FitsFrames [derivedCase "a" ["b"], derivedCase "b" ["a"]] defaultRecursion :=
  lineage_exact_iff (by decide) defaultRecursion

end Check

/-! ## A long derivation -/

def derivedId (n : Nat) : String :=
  String.ofList (List.replicate (n + 1) 'c')

def derivation : Nat → List PatchCase
  | 0 => []
  | 1 => [derivedCase (derivedId 0) []]
  | n + 2 => derivedCase (derivedId (n + 1)) [derivedId n] :: derivation (n + 1)

theorem derivedId_injective : Function.Injective derivedId := by
  intro m n h
  have hlength := congrArg List.length (String.ofList_injective h)
  simpa using hlength

theorem caseIds_derivation (n : Nat) :
    caseIds (derivation n) = ((List.range n).map derivedId).reverse := by
  induction n using derivation.induct with
  | case1 => rfl
  | case2 => rfl
  | case3 n ih =>
      rw [List.range_succ, List.map_append, List.reverse_append, ← ih]
      rfl

theorem derivation_distinct (n : Nat) : (caseIds (derivation n)).Nodup := by
  rw [caseIds_derivation, List.nodup_reverse]
  exact List.nodup_range.map derivedId_injective

theorem derivation_chain (n : Nat) : (derivation n).IsChain fun patch parent =>
    patch.parentCaseIds = [parent.caseId] := by
  induction n using derivation.induct with
  | case1 => exact .nil
  | case2 => exact .singleton _
  | case3 n ih =>
      rw [derivation]
      cases n with
      | zero => exact .cons_cons rfl ih
      | succ n => exact .cons_cons rfl ih

/-- The search goes down the whole derivation. -/
theorem derivation_descent (n : Nat) :
    Descent (lineageParents (derivation n)) (caseIds (derivation n)) where
  nodup := derivation_distinct n
  chain := by
    rw [caseIds, List.isChain_map]
    apply (derivation_chain n).imp_of_mem_imp
    intro patch parent hpatch hparent hparents
    have hchildren : lineageParents (derivation n) patch.caseId = [parent.caseId] := by
      have hsupplied : parent.caseId ∈ caseIds (derivation n) := List.mem_map_of_mem hparent
      rw [lineageParents, lineageGraph_of_mem (derivation_distinct n) hpatch, hparents,
        List.filter_cons_of_pos (by simpa using hsupplied), List.filter_nil]
    exact ⟨[], [], hchildren, by simp⟩

/-- In the order of the ids the search takes a call for each case. -/
theorem validateLineage_derivation {n : Nat} {limit : Recursion} (h : limit.frames < n) :
    validateLineage (derivation n) limit (caseIds (derivation n)) = .error .recursionError := by
  have hdescent := derivation_descent n
  have hlength : (caseIds (derivation n)).length = n := by
    rw [caseIds_derivation, List.length_reverse, List.length_map, List.length_range]
  cases hids : caseIds (derivation n) with
  | nil =>
      rw [hids, List.length_nil] at hlength
      omega
  | cons start rest =>
      rw [hids] at hdescent hlength
      rw [validateLineage_eq, search_of_descent hdescent (Or.inl (by omega))]
      rfl

/-- An acyclic chain longer than the default limit is neither accepted nor refused with the
error that was promised. -/
theorem derivation_not_exact : (caseIds (derivation 1001)).Nodup ∧
    ¬ ∀ order : List String, order.Perm (caseIds (derivation 1001)) →
      ExactCheck (derivation 1001)
        (validateLineage (derivation 1001) defaultRecursion order) := by
  refine ⟨derivation_distinct 1001, fun h => ?_⟩
  have hexact := h _ (List.Perm.refl _)
  rw [validateLineage_derivation (by decide)] at hexact
  by_cases hcyclic : CyclicLineage (derivation 1001)
  · obtain ⟨message, heq⟩ := hexact.raises.mpr hcyclic
    cases heq
  · cases hexact.returns.mpr hcyclic

end VerifierCI
