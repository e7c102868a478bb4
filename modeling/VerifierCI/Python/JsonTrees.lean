import VerifierCI.Python.Dict
import VerifierCI.Python.JsonLoads
import VerifierCI.Python.Sorted

/-! # Trees up to the order of keys

Two JSON trees are compared as their texts would be, except that an object may list its
keys in any order. Sorting the keys decides it.
-/

namespace Python

/-- Relations that agree on the items of two lists relate the same lists. -/
theorem forall₂_congr_of_mem {α β : Type} {R S : α → β → Prop} {items : List α} {others : List β}
    (h : ∀ item ∈ items, ∀ other ∈ others, R item other ↔ S item other) :
    List.Forall₂ R items others ↔ List.Forall₂ S items others := by
  induction items generalizing others with
  | nil => rw [List.forall₂_nil_left_iff, List.forall₂_nil_left_iff]
  | cons item rest ih =>
      cases others with
      | nil => simp
      | cons other others =>
          rw [List.forall₂_cons, List.forall₂_cons, h item List.mem_cons_self other
            List.mem_cons_self, ih fun a ha b hb =>
              h a (List.mem_cons_of_mem item ha) b (List.mem_cons_of_mem other hb)]

namespace Json

/-- What holds of a value whenever it holds of its parts holds of every value. -/
@[elab_as_elim]
theorem ind {P : Json → Prop} (null : P .null) (bool : ∀ value, P (.bool value))
    (int : ∀ value, P (.int value)) (float : ∀ value, P (.float value))
    (str : ∀ value, P (.str value)) (arr : ∀ items, (∀ item ∈ items, P item) → P (.arr items))
    (obj : ∀ members, (∀ member ∈ members, P member.2) → P (.obj members)) :
    ∀ value, P value :=
  @Json.rec P (fun items => ∀ item ∈ items, P item)
    (fun members => ∀ member ∈ members, P member.2) (fun member => P member.2)
    null bool int float str (fun items h => arr items h) (fun members h => obj members h)
    (fun _ h => nomatch h) (fun _ _ hhead htail => List.forall_mem_cons.mpr ⟨hhead, htail⟩)
    (fun _ h => nomatch h) (fun _ _ hhead htail => List.forall_mem_cons.mpr ⟨hhead, htail⟩)
    (fun _ _ h => h)

mutual

/-- The same tree up to the order of keys. Numbers and booleans are compared by their
spelling, like all other scalars. -/
def SameTree : Json → Json → Prop
  | .arr items, .arr others => SameItems items others
  | .obj members, .obj others => members.length = others.length ∧ SameMembers members others
  | .arr _, _ => False
  | .obj _, _ => False
  | _, .arr _ => False
  | _, .obj _ => False
  | value, other => value.write = other.write

def SameItems : List Json → List Json → Prop
  | [], [] => True
  | item :: rest, other :: others => item.SameTree other ∧ SameItems rest others
  | _, _ => False

def SameMembers : List (String × Json) → List (String × Json) → Prop
  | [], _ => True
  | (key, value) :: rest, others =>
      (match others.lookup key with
      | some other => value.SameTree other
      | none => False) ∧ SameMembers rest others

end

section Trees

variable {value other : Json}

theorem sameItems_iff {items others : List Json} :
    SameItems items others ↔ List.Forall₂ SameTree items others := by
  induction items generalizing others with
  | nil => cases others <;> simp [SameItems]
  | cons item rest ih =>
      cases others with
      | nil => simp [SameItems]
      | cons other others => rw [SameItems, ih, List.forall₂_cons]

/-- Members are compared key by key, in any order. -/
theorem sameMembers_iff {members others : List (String × Json)} :
    SameMembers members others ↔
      ∀ member ∈ members, ∃ other,
        others.lookup member.1 = some other ∧ member.2.SameTree other := by
  induction members with
  | nil => simp [SameMembers]
  | cons member rest ih =>
      rw [SameMembers, ih, List.forall_mem_cons]
      apply and_congr_left'
      cases others.lookup member.1 with
      | none => simp
      | some other => simp

theorem sameTree_scalar (hvalue : value.IsScalar) (hother : other.IsScalar) :
    value.SameTree other ↔ value.write = other.write := by
  cases value <;> cases other <;> first | exact Iff.rfl | exact hvalue.elim | exact hother.elim

theorem sortKeys_scalar (hvalue : value.IsScalar) : value.sortKeys = value := by
  cases value with
  | arr items => exact hvalue.elim
  | obj members => exact hvalue.elim
  | _ => rfl

/-- Scalars spell alike exactly when they are the same. -/
theorem sameTree_scalar_iff_eq (hvalue : value.IsScalar) (hother : other.IsScalar)
    (hdumps : value.Dumpable) (hdumps' : other.Dumpable) :
    value.SameTree other ↔ value = other := by
  rw [sameTree_scalar hvalue hother]
  constructor
  · intro h
    have hsorted : value.sortKeys = other.sortKeys := by
      apply sortKeys_eq_of_dumps_eq hdumps hdumps'
      rw [dumps, dumps, sortKeys_scalar hvalue, sortKeys_scalar hother, h]
    rwa [sortKeys_scalar hvalue, sortKeys_scalar hother] at hsorted
  · rintro rfl
    rfl

def sortedValue (member : String × Json) : String × Json :=
  (member.1, member.2.sortKeys)

theorem sortKeys_obj (members : List (String × Json)) :
    (obj members).sortKeys = .obj ((members.map sortedValue).insertionSort KeyLe) := by
  rw [sortKeys, sortMembers_eq]
  rfl

theorem map_fst_sortedValue (members : List (String × Json)) :
    (members.map sortedValue).map Prod.fst = members.map Prod.fst := by
  rw [List.map_map]
  rfl

/-- Objects are sorted alike exactly when one lists the sorted members of the other. -/
theorem sortKeys_obj_eq_iff {members others : List (String × Json)}
    (hkeys : (members.map Prod.fst).Nodup) :
    (obj members).sortKeys = (obj others).sortKeys ↔
      (members.map sortedValue).Perm (others.map sortedValue) := by
  rw [sortKeys_obj, sortKeys_obj, obj.injEq]
  constructor
  · intro h
    have hperm := (List.perm_insertionSort KeyLe (members.map sortedValue)).symm
    rw [h] at hperm
    exact hperm.trans (List.perm_insertionSort KeyLe _)
  · intro hperm
    apply sorted_eq_of_perm (fun _ _ => Iff.rfl) _ hperm
    rw [← map_fst_sortedValue] at hkeys
    exact List.inj_on_of_nodup_map hkeys

/-- Rows with distinct keys that all occur among as many others are the others in some order. -/
theorem perm_of_subset_of_length_eq {rows others : List (String × Json)}
    (hkeys : (rows.map Prod.fst).Nodup) (hsubset : rows ⊆ others)
    (hlength : rows.length = others.length) : rows.Perm others := by
  have hsubperm : rows.Subperm others := List.subperm_of_subset hkeys.of_map hsubset
  exact hsubperm.perm_of_length_le hlength.ge

/-- Sorting the keys tells trees apart up to the order of keys. By induction on one of the
trees, for all others at once. -/
theorem sameTree_iff_sortKeys_eq (hvalue : value.Dumpable) (hother : other.Dumpable) :
    value.SameTree other ↔ value.sortKeys = other.sortKeys := by
  induction value using ind generalizing other with
  | arr items ih =>
      cases other with
      | arr others =>
          rw [SameTree, sameItems_iff, sortKeys, sortKeys, sortItems_eq, sortItems_eq, arr.injEq]
          rw [Dumpable, itemsDumpable_iff] at hvalue hother
          rw [← List.forall₂_eq_eq_eq, List.forall₂_map_left_iff, List.forall₂_map_right_iff]
          exact forall₂_congr_of_mem fun item hitem other hmem =>
            ih item hitem (hvalue item hitem) (hother other hmem)
      | obj others => simp [SameTree, sortKeys]
      | _ => simp [SameTree, sortKeys]
  | obj members ih =>
      cases other with
      | obj others =>
          obtain ⟨hkeys, hmembers⟩ := hvalue
          obtain ⟨hkeys', hothers⟩ := hother
          rw [membersDumpable_iff] at hmembers hothers
          -- Two objects sort alike when their sorted members are permutations of each other.
          rw [SameTree, sameMembers_iff, sortKeys_obj_eq_iff hkeys]
          constructor
          · rintro ⟨hlength, hsame⟩
            apply perm_of_subset_of_length_eq
            · rw [map_fst_sortedValue]
              exact hkeys
            · intro row hrow
              obtain ⟨member, hmember, rfl⟩ := List.mem_map.mp hrow
              obtain ⟨other, hlookup, htree⟩ := hsame member hmember
              have hmem := mem_of_lookup_eq hlookup
              refine List.mem_map.mpr ⟨(member.1, other), hmem, ?_⟩
              have hsorted := (ih member hmember (hmembers member hmember)
                (hothers _ hmem)).mp htree
              rw [sortedValue, sortedValue, hsorted]
            · rw [List.length_map, List.length_map, hlength]
          · intro hperm
            refine ⟨by simpa using hperm.length_eq, fun member hmember => ?_⟩
            have hrow := hperm.mem_iff.mp (List.mem_map_of_mem hmember)
            obtain ⟨⟨key, other⟩, hmem, heq⟩ := List.mem_map.mp hrow
            obtain ⟨rfl, hsorted⟩ := Prod.mk.inj heq
            refine ⟨other, lookup_eq_of_mem hkeys' hmem, ?_⟩
            exact (ih member hmember (hmembers member hmember) (hothers _ hmem)).mpr hsorted.symm
      | arr others => simp [SameTree, sortKeys]
      | _ => simp [SameTree, sortKeys]
  | _ =>
      cases other with
      | arr others => simp [SameTree, sortKeys]
      | obj others => simp [SameTree, sortKeys]
      | _ => exact sameTree_scalar_iff_eq trivial trivial hvalue hother

end Trees

end Json

end Python
