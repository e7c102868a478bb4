import Mathlib.Data.List.Chain
import Mathlib.Logic.Function.Basic
import Mathlib.Logic.Relation
import Mathlib.Tactic.Common

/-! # Depth-first search for cycles

A recursive search colours the nodes of a directed graph and stops at the first edge
that leads back to a node it has not left yet. The recursion has a bounded number of
frames, and reporting a cycle takes some of them. A search that is not stopped by the
bound finds a cycle exactly if one can be reached, and the bound stops it exactly if it
can descend along a path that is too long.
-/

namespace Search

universe u

/-- What a search has noted about a node. -/
inductive Mark where
  | visiting
  | visited
deriving DecidableEq, Repr

/-- Why a search stops. -/
inductive Stop (α : Type u) where
  | cycle (path : List α)
  | tooDeep
deriving DecidableEq, Repr

variable {α : Type u}

abbrev Marks (α : Type u) := α → Option Mark

/-- Descend into the unmarked nodes of a list, one after the other. -/
def visitAll (report : List α → Stop α)
    (descend : α → List α → Marks α → Except (Stop α) (Marks α)) (path : List α) :
    List α → Marks α → Except (Stop α) (Marks α)
  | [], marks => .ok marks
  | node :: rest, marks =>
      match marks node with
      | some .visiting => .error (report (path ++ [node]))
      | some .visited => visitAll report descend path rest marks
      | none =>
          match descend node (path ++ [node]) marks with
          | .error stop => .error stop
          | .ok marks => visitAll report descend path rest marks

/-- A cycle is reported if there are frames left for the report. -/
def reported (cost frames : Nat) (path : List α) : Stop α :=
  if cost ≤ frames then .cycle path else .tooDeep

/-- Visit a node with a number of frames left. -/
def visit [DecidableEq α] (children : α → List α) (cost : Nat) :
    Nat → α → List α → Marks α → Except (Stop α) (Marks α)
  | 0, _, _, _ => .error .tooDeep
  | frames + 1, node, path, marks =>
      match visitAll (reported cost frames) (visit children cost frames) path (children node)
        (Function.update marks node (some .visiting)) with
      | .error stop => .error stop
      | .ok marks => .ok (Function.update marks node (some .visited))

/-- Search from the roots in their order, none of which is being visited. -/
def search [DecidableEq α] (children : α → List α) (cost frames : Nat) (roots : List α) :
    Except (Stop α) (Marks α) :=
  visitAll .cycle (visit children cost frames) [] roots fun _ => none

/-! ## Reachability -/

section Graph

variable (children : α → List α)

def Edge (node child : α) : Prop :=
  child ∈ children node

def Reach : α → α → Prop :=
  Relation.ReflTransGen (Edge children)

def OnCycle (node : α) : Prop :=
  Relation.TransGen (Edge children) node node

variable {children}

theorem reach_iff {node other : α} : Reach children node other ↔
    other = node ∨ ∃ child ∈ children node, Reach children child other := by
  constructor
  · intro h
    rcases Relation.ReflTransGen.cases_head h with heq | ⟨child, hedge, hrest⟩
    · exact Or.inl heq.symm
    · exact Or.inr ⟨child, hedge, hrest⟩
  · rintro (rfl | ⟨child, hedge, hrest⟩)
    · exact .refl
    · exact .head hedge hrest

theorem onCycle_iff {node : α} :
    OnCycle children node ↔ ∃ child ∈ children node, Reach children child node :=
  Relation.TransGen.head'_iff

/-! ## What a list of visits leaves behind -/

variable (children)

/-- Marked as visited are only nodes that reach visited nodes and no cycle. -/
def Settled (marks : Marks α) : Prop :=
  ∀ node, marks node = some .visited →
    ¬ OnCycle children node ∧ ∀ child ∈ children node, marks child = some .visited

/-- The nodes have been visited, and the search met no cycle on the way. -/
structure Explored (nodes : List α) (marks marks' : Marks α) : Prop where
  visiting : ∀ node, marks' node = some .visiting ↔ marks node = some .visiting
  visited : ∀ node, marks' node = some .visited ↔
    marks node = some .visited ∨ ∃ start ∈ nodes, Reach children start node
  clear : ∀ start ∈ nodes, ∀ node, Reach children start node →
    marks node ≠ some .visiting ∧ ¬ OnCycle children node

variable {children} {nodes others : List α} {marks marks' marks'' : Marks α} {node : α}

theorem Settled.reach (h : Settled children marks) (hnode : marks node = some .visited)
    {other : α} (hreach : Reach children node other) : marks other = some .visited := by
  induction hreach with
  | refl => exact hnode
  | tail _ hedge ih => exact (h _ ih).2 _ hedge

theorem settled_none : Settled children fun _ => none := by
  intro node h
  cases h

namespace Explored

theorem nil (marks : Marks α) : Explored children [] marks marks where
  visiting _ := Iff.rfl
  visited _ := by simp
  clear _ h := absurd h List.not_mem_nil

theorem settled (h : Explored children nodes marks marks') (hsettled : Settled children marks) :
    Settled children marks' := by
  intro node hnode
  rcases (h.visited node).mp hnode with hold | ⟨start, hstart, hreach⟩
  · have hchildren := (hsettled node hold).2
    exact ⟨(hsettled node hold).1, fun child hchild =>
      (h.visited child).mpr (Or.inl (hchildren child hchild))⟩
  · exact ⟨(h.clear start hstart node hreach).2, fun child hchild =>
      (h.visited child).mpr (Or.inr ⟨start, hstart, hreach.tail hchild⟩)⟩

theorem eq_none (h : Explored children nodes marks marks') (hnode : marks' node = none) :
    marks node = none := by
  cases hmark : marks node with
  | none => rfl
  | some mark =>
      cases mark with
      | visiting =>
          rw [(h.visiting node).mpr hmark] at hnode
          cases hnode
      | visited =>
          rw [(h.visited node).mpr (Or.inl hmark)] at hnode
          cases hnode

theorem eq_none_of (h : Explored children nodes marks marks') (hnode : marks node = none)
    (hreach : ∀ start ∈ nodes, ¬ Reach children start node) : marks' node = none := by
  cases hmark : marks' node with
  | none => rfl
  | some mark =>
      cases mark with
      | visiting =>
          rw [(h.visiting node).mp hmark] at hnode
          cases hnode
      | visited =>
          rcases (h.visited node).mp hmark with hold | ⟨start, hstart, hnew⟩
          · rw [hold] at hnode
            cases hnode
          · exact absurd hnew (hreach start hstart)

/-- A node that stays unmarked cannot be reached. -/
theorem not_reach (h : Explored children nodes marks marks') (hnode : marks' node = none)
    {start : α} (hstart : start ∈ nodes) : ¬ Reach children start node := by
  intro hreach
  rw [(h.visited node).mpr (Or.inr ⟨start, hstart, hreach⟩)] at hnode
  cases hnode

/-- Two explorations one behind the other are one of both lists. -/
theorem append (h : Explored children nodes marks marks')
    (h' : Explored children others marks' marks'') :
    Explored children (nodes ++ others) marks marks'' where
  visiting node := (h'.visiting node).trans (h.visiting node)
  visited node := by
    rw [h'.visited, h.visited, or_assoc]
    simp only [List.mem_append, or_and_right, exists_or]
  clear start hstart node hreach := by
    rcases List.mem_append.mp hstart with hnodes | hothers
    · exact h.clear start hnodes node hreach
    · obtain ⟨hvisiting, hcycle⟩ := h'.clear start hothers node hreach
      exact ⟨fun hmark => hvisiting ((h.visiting node).mpr hmark), hcycle⟩

/-- What is marked as visited was explored before and is left alone. -/
theorem of_visited (hsettled : Settled children marks) (hnode : marks node = some .visited) :
    Explored children [node] marks marks where
  visiting _ := Iff.rfl
  visited other := by
    refine ⟨Or.inl, ?_⟩
    rintro (hother | ⟨start, hstart, hreach⟩)
    · exact hother
    · obtain rfl := List.mem_singleton.mp hstart
      exact hsettled.reach hnode hreach
  clear start hstart other hreach := by
    obtain rfl := List.mem_singleton.mp hstart
    have hother := hsettled.reach hnode hreach
    refine ⟨?_, (hsettled other hother).1⟩
    rw [hother]
    decide

end Explored

/-! ## Descents -/

/-- The search goes from a node to a child once it is through with the children before
it. It gets there if these reach no cycle and nothing it has to avoid. -/
def Descends (children : α → List α) (avoid : α → Prop) (node child : α) : Prop :=
  ∃ pre post, children node = pre ++ child :: post ∧
    ∀ start ∈ pre, ∀ other, Reach children start other →
      ¬ avoid other ∧ ¬ OnCycle children other

/-- A path the search can be in the middle of. -/
structure Descent (children : α → List α) (path : List α) : Prop where
  nodup : path.Nodup
  chain : path.IsChain (Descends children (· ∈ path))

/-- From its end the search gets back to a node it has to avoid. -/
def Closes (children : α → List α) (avoid : α → Prop) (path : List α) : Prop :=
  ∃ last ∈ path.getLast?, ∃ child, Descends children avoid last child ∧ avoid child

/-- The path takes more frames than there are, or the report of the cycle at its end does. -/
def Exceeds (children : α → List α) (cost frames : Nat) (avoid : α → Prop) (path : List α) :
    Prop :=
  frames < path.length ∨ Closes children avoid path ∧ frames < path.length + cost

theorem Descends.congr {avoid avoid' : α → Prop} (hiff : ∀ other, avoid other ↔ avoid' other)
    {child : α} (h : Descends children avoid node child) : Descends children avoid' node child := by
  obtain ⟨pre, post, hsplit, hpre⟩ := h
  refine ⟨pre, post, hsplit, fun start hstart other hreach => ?_⟩
  rw [← hiff]
  exact hpre start hstart other hreach

theorem Exceeds.congr {cost frames : Nat} {avoid avoid' : α → Prop}
    (hiff : ∀ other, avoid other ↔ avoid' other) {path : List α}
    (h : Exceeds children cost frames avoid path) : Exceeds children cost frames avoid' path := by
  rcases h with hlong | ⟨⟨last, hlast, child, hdescends, havoid⟩, hlong⟩
  · exact Or.inl hlong
  · exact Or.inr ⟨⟨last, hlast, child, hdescends.congr hiff, (hiff child).mp havoid⟩, hlong⟩

/-- One more node takes one more frame. -/
theorem exceeds_cons_iff {cost frames : Nat} {avoid : α → Prop} {child : α} {rest : List α} :
    Exceeds children cost (frames + 1) avoid (node :: child :: rest) ↔
      Exceeds children cost frames avoid (child :: rest) := by
  have hlast : (node :: child :: rest).getLast? = (child :: rest).getLast? :=
    List.getLast?_cons_cons
  have hlength : (node :: child :: rest).length = (child :: rest).length + 1 := rfl
  rw [Exceeds, Exceeds, Closes, Closes, hlast, hlength, Nat.add_lt_add_iff_right,
    Nat.add_right_comm, Nat.add_lt_add_iff_right]

/-! ## Visits that are not stopped -/

section Loop

variable {report : List α → Stop α}
  {descend : α → List α → Marks α → Except (Stop α) (Marks α)} {path : List α}
  {stop : Stop α}

/-- By induction on the list: each descent leaves settled marks to the next. -/
theorem visitAll_ok (hsettled : Settled children marks)
    (hdescend : ∀ node path marks marks', Settled children marks → marks node = none →
      descend node path marks = .ok marks' → Explored children [node] marks marks')
    (h : visitAll report descend path nodes marks = .ok marks') :
    Explored children nodes marks marks' := by
  induction nodes generalizing marks with
  | nil =>
      obtain rfl := Except.ok.inj h
      exact .nil marks
  | cons node rest ih =>
      rw [visitAll] at h
      split at h
      · cases h
      next hmark =>
        exact (Explored.of_visited hsettled hmark).append (ih hsettled h)
      next hmark =>
        split at h
        · cases h
        next hnode =>
          have hfirst := hdescend _ _ _ _ hsettled hmark hnode
          exact hfirst.append (ih (hfirst.settled hsettled) h)

/-- Where a loop of visits is stopped. The nodes before it were visited without an error; it is
either marked as being visited, or its own descent is what stopped. -/
theorem visitAll_error (h : visitAll report descend path nodes marks = .error stop) :
    ∃ pre node post marks', nodes = pre ++ node :: post ∧
      visitAll report descend path pre marks = .ok marks' ∧
        (marks' node = some .visiting ∧ stop = report (path ++ [node]) ∨
          marks' node = none ∧ descend node (path ++ [node]) marks' = .error stop) := by
  induction nodes generalizing marks with
  | nil => cases h
  | cons node rest ih =>
      rw [visitAll] at h
      split at h
      -- the mark of a node on the path: this is the cycle
      next hmark =>
        exact ⟨[], node, rest, marks, rfl, rfl, Or.inl ⟨hmark, (Except.error.inj h).symm⟩⟩
      next hmark =>
        obtain ⟨pre, other, post, marks', rfl, hpre, hstop⟩ := ih h
        refine ⟨node :: pre, other, post, marks', rfl, ?_, hstop⟩
        rw [visitAll, hmark]
        exact hpre
      next hmark =>
        split at h
        next hnode =>
          obtain rfl := Except.error.inj h
          exact ⟨[], node, rest, marks, rfl, rfl, Or.inr ⟨hmark, hnode⟩⟩
        next marks₁ hnode =>
          obtain ⟨pre, other, post, marks', rfl, hpre, hstop⟩ := ih h
          refine ⟨node :: pre, other, post, marks', rfl, ?_, hstop⟩
          rw [visitAll, hmark]
          simp only [hnode, hpre]

theorem visitAll_append_error (h : visitAll report descend path nodes marks = .error stop) :
    visitAll report descend path (nodes ++ others) marks = .error stop := by
  induction nodes generalizing marks with
  | nil => cases h
  | cons node rest ih =>
      rw [visitAll] at h
      rw [List.cons_append, visitAll]
      split at h
      · exact h
      · exact ih h
      next =>
        split at h
        next hnode => simpa only [hnode] using h
        next hnode => simpa only [hnode] using ih h

/-- The search of a longer list goes on with the marks of its front. -/
theorem visitAll_append_ok (h : visitAll report descend path nodes marks = .ok marks') :
    visitAll report descend path (nodes ++ others) marks =
      visitAll report descend path others marks' := by
  induction nodes generalizing marks with
  | nil =>
      obtain rfl := Except.ok.inj h
      rfl
  | cons node rest ih =>
      rw [visitAll] at h
      rw [List.cons_append, visitAll]
      split at h
      · cases h
      · exact ih h
      next =>
        split at h
        · cases h
        next hnode => simpa only [hnode] using ih h

end Loop

variable [DecidableEq α] {report : List α → Stop α} {cost frames : Nat} {path : List α}

/-- Marking the node that is entered does not touch what is settled. -/
theorem settled_visiting (hsettled : Settled children marks) (hnode : marks node = none) :
    Settled children (Function.update marks node (some .visiting)) := by
  intro other hother
  have hne : other ≠ node := by
    rintro rfl
    rw [Function.update_self] at hother
    cases hother
  rw [Function.update_of_ne hne] at hother
  refine ⟨(hsettled other hother).1, fun child hchild => ?_⟩
  have hmark := (hsettled other hother).2 child hchild
  rw [Function.update_of_ne]
  · exact hmark
  · rintro rfl
    rw [hmark] at hnode
    cases hnode

/-- A visit marks what can be reached from the node. By induction on the frames: the children
are visited in turn, from marks that stay settled, and then the node is done. -/
theorem visit_ok (hsettled : Settled children marks) (hnode : marks node = none)
    (h : visit children cost frames node path marks = .ok marks') :
    Explored children [node] marks marks' := by
  induction frames generalizing node path marks marks' with
  | zero => cases h
  | succ frames ih =>
      rw [visit] at h
      split at h
      · cases h
      next marks₁ hloop =>
        obtain rfl := Except.ok.inj h
        have hchildren := visitAll_ok (settled_visiting hsettled hnode)
          (fun _ _ _ _ hsettled hnode h => ih hsettled hnode h) hloop
        -- A child that led back here would have met the mark of this node.
        have hself : ∀ child ∈ children node, ¬ Reach children child node := by
          intro child hchild hreach
          exact (hchildren.clear child hchild node hreach).1 (Function.update_self ..)
        constructor
        · intro other
          by_cases heq : other = node
          · simp [heq, hnode]
          · rw [Function.update_of_ne heq, hchildren.visiting, Function.update_of_ne heq]
        · intro other
          simp only [List.mem_singleton, exists_eq_left, @reach_iff α children node]
          by_cases heq : other = node
          · simp [heq]
          · rw [Function.update_of_ne heq, hchildren.visited, Function.update_of_ne heq]
            simp [heq]
        · intro start hstart other hreach
          obtain rfl := List.mem_singleton.mp hstart
          rcases reach_iff.mp hreach with rfl | ⟨child, hchild, hrest⟩
          · rw [onCycle_iff, hnode]
            refine ⟨by simp, ?_⟩
            rintro ⟨child, hchild, hreach⟩
            exact hself child hchild hreach
          · obtain ⟨hmark, hcycle⟩ := hchildren.clear child hchild other hrest
            have hne : other ≠ start := by
              rintro rfl
              exact hself child hchild hrest
            rw [Function.update_of_ne hne] at hmark
            exact ⟨hmark, hcycle⟩

theorem visitAll_visit_ok (hsettled : Settled children marks)
    (h : visitAll report (visit children cost frames) path nodes marks = .ok marks') :
    Explored children nodes marks marks' :=
  visitAll_ok hsettled (fun _ _ _ _ hsettled hnode h => visit_ok hsettled hnode h) h

/-! ## Visits that meet a cycle -/

/-- A list of visits stops at a cycle only if it can reach one, or a node that is
being visited. -/
theorem visitAll_cycle {found : List α} (hsettled : Settled children marks)
    (hdescend : ∀ node path marks, Settled children marks → marks node = none →
      visit children cost frames node path marks = .error (.cycle found) →
        ∃ other, Reach children node other ∧
          (marks other = some .visiting ∨ OnCycle children other))
    (h : visitAll report (visit children cost frames) path nodes marks = .error (.cycle found)) :
    ∃ start ∈ nodes, ∃ other, Reach children start other ∧
      (marks other = some .visiting ∨ OnCycle children other) := by
  obtain ⟨pre, node, post, marks', rfl, hpre, hstop⟩ := visitAll_error h
  have hexplored := visitAll_visit_ok hsettled hpre
  have hmem : node ∈ pre ++ node :: post := List.mem_append_right _ List.mem_cons_self
  rcases hstop with ⟨hmark, _⟩ | ⟨hmark, hnode⟩
  · exact ⟨node, hmem, node, .refl, Or.inl ((hexplored.visiting node).mp hmark)⟩
  · obtain ⟨other, hreach, hother⟩ :=
      hdescend _ _ _ (hexplored.settled hsettled) hmark hnode
    rw [hexplored.visiting] at hother
    exact ⟨node, hmem, other, hreach, hother⟩

/-- A reported node is either on the path from the root or on a cycle that was met below. -/
theorem visit_cycle {found : List α} (hsettled : Settled children marks)
    (hnode : marks node = none)
    (h : visit children cost frames node path marks = .error (.cycle found)) :
    ∃ other, Reach children node other ∧
      (marks other = some .visiting ∨ OnCycle children other) := by
  induction frames generalizing node path marks with
  | zero => cases h
  | succ frames ih =>
      rw [visit] at h
      split at h
      next hloop =>
        obtain rfl := Except.error.inj h
        obtain ⟨child, hchild, other, hreach, hother⟩ := visitAll_cycle
          (settled_visiting hsettled hnode) (fun _ _ _ hsettled hnode h => ih hsettled hnode h)
          hloop
        by_cases heq : other = node
        · rw [heq] at hreach
          exact ⟨node, .refl, Or.inr (onCycle_iff.mpr ⟨child, hchild, hreach⟩)⟩
        · rw [Function.update_of_ne heq] at hother
          exact ⟨other, .head hchild hreach, hother⟩
      · cases h

theorem visitAll_visit_cycle {found : List α} (hsettled : Settled children marks)
    (h : visitAll report (visit children cost frames) path nodes marks = .error (.cycle found)) :
    ∃ start ∈ nodes, ∃ other, Reach children start other ∧
      (marks other = some .visiting ∨ OnCycle children other) :=
  visitAll_cycle hsettled (fun _ _ _ hsettled hnode h => visit_cycle hsettled hnode h) h

/-! ## Visits that are too deep -/

/-- What a visit of a child has to avoid is what the visit of its parent has. -/
theorem avoid_iff (h : Explored children nodes (Function.update marks node (some .visiting)) marks')
    (rest : List α) (other : α) : other ∈ rest ∨ marks' other = some .visiting ↔
      other ∈ node :: rest ∨ marks other = some .visiting := by
  rw [h.visiting, List.mem_cons]
  by_cases heq : other = node
  · simp [heq]
  · simp [heq]

/-- A visit runs out of frames at the end of a descent, or where it has to report a cycle. By
induction on the frames: the path is that of the child the loop was stopped at, with the node in
front. -/
theorem visit_tooDeep (hsettled : Settled children marks) (hnode : marks node = none)
    (h : visit children cost frames node path marks = .error .tooDeep) :
    ∃ rest, (node :: rest).Nodup ∧ (∀ other ∈ node :: rest, marks other = none) ∧
      (node :: rest).IsChain (Descends children fun other =>
        other ∈ node :: rest ∨ marks other = some .visiting) ∧
      Exceeds children cost frames
        (fun other => other ∈ node :: rest ∨ marks other = some .visiting) (node :: rest) := by
  induction frames generalizing node path marks with
  | zero =>
      exact ⟨[], by simp, by simpa using hnode, by simp, Or.inl (by simp)⟩
  | succ frames ih =>
      rw [visit] at h
      split at h
      next hloop =>
        obtain rfl := Except.error.inj h
        obtain ⟨pre, child, post, marks', hsplit, hpre, hstop⟩ := visitAll_error hloop
        have hstart := settled_visiting hsettled hnode
        have hexplored := visitAll_visit_ok hstart hpre
        -- the children before this one reach nothing that is being visited
        have hdescends : ∀ rest, (∀ other ∈ rest, marks' other = none) →
            Descends children (fun other => other ∈ node :: rest ∨ marks other = some .visiting)
              node child := by
          intro rest hnone
          refine ⟨pre, post, hsplit, fun start hmem other hreach => ?_⟩
          obtain ⟨hmark, hcycle⟩ := hexplored.clear start hmem other hreach
          refine ⟨fun hother => ?_, hcycle⟩
          rcases (avoid_iff hexplored rest other).mpr hother with hrest | hvisiting
          · exact hexplored.not_reach (hnone other hrest) hmem hreach
          · exact hmark ((hexplored.visiting other).mp hvisiting)
        rcases hstop with ⟨hvisiting, hreport⟩ | ⟨hchild, hdeep⟩
        · have hcost : frames < cost := by
            by_contra hfits
            rw [reported, if_pos (Nat.le_of_not_lt hfits)] at hreport
            cases hreport
          have hback : child ∈ [node] ∨ marks child = some .visiting :=
            (avoid_iff hexplored [] child).mp (Or.inr hvisiting)
          refine ⟨[], by simp, by simpa using hnode, by simp, Or.inr ⟨⟨node, rfl, child, ?_, hback⟩,
            by simpa [Nat.add_comm] using hcost⟩⟩
          exact hdescends [] (by simp)
        · obtain ⟨rest, hnodup, hnone, hchain, hexceeds⟩ :=
            ih (hexplored.settled hstart) hchild hdeep
          have hvisiting : marks' node = some .visiting :=
            (hexplored.visiting node).mpr (Function.update_self ..)
          have hfresh : node ∉ child :: rest := by
            intro hmem
            rw [hnone node hmem] at hvisiting
            cases hvisiting
          have hold : ∀ other ∈ child :: rest, marks other = none := by
            intro other hother
            have hmark := hexplored.eq_none (hnone other hother)
            rwa [Function.update_of_ne (ne_of_mem_of_not_mem hother hfresh)] at hmark
          have havoid := avoid_iff hexplored (child :: rest)
          refine ⟨child :: rest, List.nodup_cons.mpr ⟨hfresh, hnodup⟩,
            List.forall_mem_cons.mpr ⟨hnode, hold⟩, ?_,
            exceeds_cons_iff.mpr (hexceeds.congr havoid)⟩
          rw [List.isChain_cons_cons]
          exact ⟨hdescends (child :: rest) hnone, hchain.imp fun _ _ => Descends.congr havoid⟩
      · cases h

/-- The children before the next node of a descent are explored, or they run out of frames. -/
theorem visitAll_pre {avoid : α → Prop} {pre : List α} (hsettled : Settled children marks)
    (hpre : ∀ start ∈ pre, ∀ other, Reach children start other →
      ¬ avoid other ∧ ¬ OnCycle children other)
    (havoid : ∀ other, marks other = some .visiting → avoid other) :
    visitAll report (visit children cost frames) path pre marks = .error .tooDeep ∨
      ∃ marks', visitAll report (visit children cost frames) path pre marks = .ok marks' ∧
        Explored children pre marks marks' := by
  cases hfirst : visitAll report (visit children cost frames) path pre marks with
  | ok marks' => exact Or.inr ⟨marks', rfl, visitAll_visit_ok hsettled hfirst⟩
  | error stop =>
      cases stop with
      | tooDeep => exact Or.inl rfl
      | cycle found =>
          obtain ⟨start, hmem, other, hreach, hother⟩ := visitAll_visit_cycle hsettled hfirst
          obtain ⟨hnot, hcycle⟩ := hpre start hmem other hreach
          exact absurd hother (not_or.mpr ⟨fun hmark => hnot (havoid other hmark), hcycle⟩)

/-- A descent that takes too many frames is followed to where they run out. By induction on the
frames: the loop gets to the next node of the descent, as nothing before it can lead back. -/
theorem visit_of_descent {rest : List α} (hsettled : Settled children marks)
    (hnodup : (node :: rest).Nodup) (hnone : ∀ other ∈ node :: rest, marks other = none)
    (hchain : (node :: rest).IsChain (Descends children fun other =>
      other ∈ node :: rest ∨ marks other = some .visiting))
    (hexceeds : Exceeds children cost frames
      (fun other => other ∈ node :: rest ∨ marks other = some .visiting) (node :: rest)) :
    visit children cost frames node path marks = .error .tooDeep := by
  induction frames generalizing node path marks rest with
  | zero => rfl
  | succ frames ih =>
      have hstart := settled_visiting hsettled (hnone node List.mem_cons_self)
      have hvisiting : ∀ other,
          Function.update marks node (some .visiting) other = some .visiting →
            other ∈ node :: rest ∨ marks other = some .visiting := by
        intro other hmark
        by_cases heq : other = node
        · exact Or.inl (heq ▸ List.mem_cons_self)
        · rw [Function.update_of_ne heq] at hmark
          exact Or.inr hmark
      rw [visit]
      cases rest with
      | nil =>
          -- The descent ends here: its last node sees a mark, and raising takes frames as well.
          rcases hexceeds with
            hlong | ⟨⟨last, hlast, child, ⟨pre, post, hsplit, hpre⟩, hback⟩, hlong⟩
          · simp at hlong
          · obtain rfl : node = last := by simpa using hlast
            rw [hsplit]
            rcases @visitAll_pre _ _ _ _ (reported cost frames) cost frames path _ pre hstart hpre
              hvisiting with hdeep | ⟨marks', hok, hexplored⟩
            · rw [visitAll_append_error hdeep]
            · have hmark : marks' child = some .visiting := by
                rcases (avoid_iff hexplored [] child).mpr hback with hnil | hmark
                · cases hnil
                · exact hmark
              have hcost : ¬ cost ≤ frames := by
                rw [List.length_singleton] at hlong
                omega
              rw [visitAll_append_ok hok, visitAll, hmark, reported, if_neg hcost]
      | cons child rest =>
          obtain ⟨hfresh, hrest⟩ := List.nodup_cons.mp hnodup
          rw [List.isChain_cons_cons] at hchain
          obtain ⟨⟨pre, post, hsplit, hpre⟩, hchain⟩ := hchain
          rw [hsplit]
          rcases @visitAll_pre _ _ _ _ (reported cost frames) cost frames path _ pre hstart hpre
            hvisiting with hdeep | ⟨marks', hok, hexplored⟩
          · rw [visitAll_append_error hdeep]
          -- The siblings before the child cannot have marked what lies below it.
          · have hunmarked : ∀ other ∈ child :: rest, marks' other = none := by
              intro other hother
              apply hexplored.eq_none_of
              · rw [Function.update_of_ne (ne_of_mem_of_not_mem hother hfresh)]
                exact hnone other (List.mem_cons_of_mem node hother)
              · intro start hmem hreach
                exact (hpre start hmem other hreach).1
                  (Or.inl (List.mem_cons_of_mem node hother))
            have havoid := avoid_iff hexplored (child :: rest)
            have hdeep := @ih marks' child (path ++ [child]) rest (hexplored.settled hstart)
              hrest hunmarked
              (hchain.imp fun _ _ => Descends.congr fun other => (havoid other).symm)
              ((exceeds_cons_iff.mp hexceeds).congr fun other => (havoid other).symm)
            rw [visitAll_append_ok hok, visitAll, hunmarked child List.mem_cons_self]
            simp only [hdeep]

/-! ## Searches -/

variable {roots : List α}

theorem search_ok (h : search children cost frames roots = .ok marks) :
    ∀ root ∈ roots, ∀ node, Reach children root node → ¬ OnCycle children node :=
  fun root hroot node hreach => ((visitAll_visit_ok settled_none h).clear root hroot node hreach).2

/-- A cycle that is reported lies below one of the roots. -/
theorem search_cycle {found : List α}
    (h : search children cost frames roots = .error (.cycle found)) :
    ∃ root ∈ roots, ∃ node, Reach children root node ∧ OnCycle children node := by
  obtain ⟨root, hroot, node, hreach, hnode⟩ := visitAll_visit_cycle settled_none h
  refine ⟨root, hroot, node, hreach, hnode.resolve_left ?_⟩
  simp

/-- When the frames run out, some root starts a descent they do not suffice for. -/
theorem search_tooDeep (h : search children cost frames roots = .error .tooDeep) :
    ∃ root ∈ roots, ∃ rest, Descent children (root :: rest) ∧
      Exceeds children cost frames (· ∈ root :: rest) (root :: rest) := by
  obtain ⟨pre, root, post, marks', rfl, hpre, hstop⟩ := visitAll_error h
  rcases hstop with ⟨_, hcycle⟩ | ⟨hroot, hdeep⟩
  · cases hcycle
  · have hexplored := visitAll_visit_ok settled_none hpre
    obtain ⟨rest, hnodup, _, hchain, hexceeds⟩ :=
      visit_tooDeep (hexplored.settled settled_none) hroot hdeep
    have havoid : ∀ other, other ∈ root :: rest ∨ marks' other = some .visiting ↔
        other ∈ root :: rest := by
      intro other
      rw [hexplored.visiting]
      simp
    exact ⟨root, List.mem_append_right _ List.mem_cons_self, rest,
      ⟨hnodup, hchain.imp fun _ _ => Descends.congr havoid⟩, hexceeds.congr havoid⟩

/-- A descent that exceeds the frames ends the search that enters it first. -/
theorem search_of_descent {root : α} {rest : List α} (h : Descent children (root :: rest))
    (hexceeds : Exceeds children cost frames (· ∈ root :: rest) (root :: rest)) :
    search children cost frames (root :: roots) = .error .tooDeep := by
  have havoid : ∀ other, other ∈ root :: rest ↔
      other ∈ root :: rest ∨ (none : Option Mark) = some .visiting := by simp
  have hdeep : visit children cost frames root ([] ++ [root]) (fun _ => none) =
      .error .tooDeep :=
    visit_of_descent settled_none h.nodup (fun _ _ => rfl)
      (h.chain.imp fun _ _ => Descends.congr havoid) (hexceeds.congr havoid)
  rw [search, visitAll]
  simp only [hdeep]

/-- No order of the roots makes a search too deep exactly if no root starts a descent that
takes more frames than there are. -/
theorem forall_order_iff : (∀ order, order.Perm roots →
      search children cost frames order ≠ .error .tooDeep) ↔
    ∀ root ∈ roots, ∀ rest, Descent children (root :: rest) →
      ¬ Exceeds children cost frames (· ∈ root :: rest) (root :: rest) := by
  constructor
  · intro h root hroot rest hdescent hexceeds
    exact h (root :: roots.erase root) (List.perm_cons_erase hroot).symm
      (search_of_descent hdescent hexceeds)
  · intro h order hperm hdeep
    obtain ⟨root, hroot, rest, hdescent, hexceeds⟩ := search_tooDeep hdeep
    exact h root (hperm.mem_iff.mp hroot) rest hdescent hexceeds

end Graph

end Search
