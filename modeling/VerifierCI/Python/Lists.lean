import Mathlib.Data.List.Forall2
import Mathlib.Data.List.Nodup
import Mathlib.Data.List.Perm.Basic
import Mathlib.Tactic.Common

/-! # Lists taken apart

Lists that are made up of parts, related to each other part by part.
-/

namespace Python

/-- A list can be cut in one way where a separator stands for the first time. -/
theorem append_cons_inj {α : Type} {sep : α} {first other rest rest' : List α}
    (hfirst : sep ∉ first) (hother : sep ∉ other)
    (h : first ++ sep :: rest = other ++ sep :: rest') : first = other ∧ rest = rest' := by
  induction first generalizing other with
  | nil =>
      cases other with
      | nil => exact ⟨rfl, (List.cons.inj h).2⟩
      | cons c other => exact absurd ((List.cons.inj h).1 ▸ List.mem_cons_self) hother
  | cons c first ih =>
      rw [List.mem_cons, not_or] at hfirst
      cases other with
      | nil => exact absurd (List.cons.inj h).1.symm hfirst.1
      | cons d other =>
          rw [List.mem_cons, not_or] at hother
          obtain ⟨rfl, htail⟩ := List.cons.inj h
          obtain ⟨rfl, hrest⟩ := ih hfirst.2 hother.2 htail
          exact ⟨rfl, hrest⟩

theorem mem_intercalate {α : Type} {sep c : α} {parts : List (List α)}
    (h : c ∈ [sep].intercalate parts) : c = sep ∨ ∃ part ∈ parts, c ∈ part := by
  rw [List.intercalate, List.mem_flatten] at h
  obtain ⟨part, hpart, hc⟩ := h
  induction parts with
  | nil => cases hpart
  | cons head rest ih =>
      cases rest with
      | nil => exact Or.inr ⟨part, hpart, hc⟩
      | cons next rest =>
          rw [List.intersperse_cons_cons, List.mem_cons, List.mem_cons] at hpart
          rcases hpart with rfl | rfl | hrest
          · exact Or.inr ⟨part, List.mem_cons_self, hc⟩
          · exact Or.inl (List.mem_singleton.mp hc)
          · rcases ih hrest with hsep | ⟨other, hother, hmem⟩
            · exact Or.inl hsep
            · exact Or.inr ⟨other, List.mem_cons_of_mem head hother, hmem⟩

/-- Parts that are permutations of each other one by one make up permutations. -/
theorem flatMap_perm_of_forall₂ {α β γ : Type} {f : α → List γ} {g : β → List γ}
    {xs : List α} {ys : List β} (h : List.Forall₂ (fun x y => (f x).Perm (g y)) xs ys) :
    (xs.flatMap f).Perm (ys.flatMap g) := by
  induction h with
  | nil => exact .nil
  | cons hfirst _ ih =>
      rw [List.flatMap_cons, List.flatMap_cons]
      exact hfirst.append ih

/-- The results kept belong, in order, to a sublist of the items. -/
theorem filterMap_of_forall₂ {α β γ : Type} {R : α → β → Prop} {f : β → Option γ}
    {xs : List α} {ys : List β} (h : List.Forall₂ R xs ys) :
    ∃ kept, kept.Sublist xs ∧
      List.Forall₂ (fun x z => ∃ y, R x y ∧ f y = some z) kept (ys.filterMap f) := by
  induction h with
  | nil => exact ⟨[], .slnil, .nil⟩
  | @cons x y xs ys hfirst _ ih =>
      obtain ⟨kept, hkept, hresults⟩ := ih
      cases hf : f y with
      | none =>
          rw [List.filterMap_cons_none hf]
          exact ⟨kept, hkept.cons x, hresults⟩
      | some z =>
          rw [List.filterMap_cons_some hf]
          exact ⟨x :: kept, hkept.cons_cons x, .cons ⟨y, hfirst, hf⟩ hresults⟩

/-- Related elements can be extended by a third each. -/
theorem forall₂_extend {α β γ : Type} {R : α → β → Prop} {S : α → γ → Prop} {T : β → γ → Prop}
    {xs : List α} {ys : List β} (h : List.Forall₂ R xs ys)
    (hextend : ∀ x ∈ xs, ∀ y, R x y → ∃ z, S x z ∧ T y z) :
    ∃ zs, List.Forall₂ S xs zs ∧ List.Forall₂ T ys zs := by
  induction h with
  | nil => exact ⟨[], .nil, .nil⟩
  | cons hfirst _ ih =>
      rw [List.forall_mem_cons] at hextend
      obtain ⟨z, hz, hz'⟩ := hextend.1 _ hfirst
      obtain ⟨zs, hzs, hzs'⟩ := ih hextend.2
      exact ⟨z :: zs, .cons hz hzs, .cons hz' hzs'⟩

/-- Items without a group and the groups below a bound make up the list. Each item is in one
group or in none, so nothing is listed twice. -/
theorem groups_perm {α : Type} {group : α → Option Nat} {bound : Nat} {items : List α}
    (hitems : items.Nodup) (hgroup : ∀ item ∈ items, ∀ i ∈ group item, i < bound) :
    (items.filter (fun item => (group item).isNone) ++
      (List.range bound).flatMap fun i => items.filter fun item => group item = some i).Perm
        items := by
  have hgroups : ((List.range bound).flatMap fun i =>
      items.filter fun item => group item = some i).Nodup := by
    rw [List.nodup_flatMap]
    refine ⟨fun i _ => hitems.filter _, List.nodup_range.imp ?_⟩
    intro i j hne item hi hj
    have hi := of_decide_eq_true (List.mem_filter.mp hi).2
    have hj := of_decide_eq_true (List.mem_filter.mp hj).2
    exact hne (Option.some.inj (hi.symm.trans hj))
  refine (List.perm_ext_iff_of_nodup ?_ hitems).mpr ?_
  · refine List.Nodup.append (hitems.filter _) hgroups ?_
    intro item hnone hsome
    obtain ⟨i, _, hi⟩ := List.mem_flatMap.mp hsome
    have hi := of_decide_eq_true (List.mem_filter.mp hi).2
    have hnone := (List.mem_filter.mp hnone).2
    rw [hi] at hnone
    cases hnone
  · intro item
    simp only [List.mem_append, List.mem_filter, List.mem_flatMap, List.mem_range,
      decide_eq_true_eq, Option.isNone_iff_eq_none]
    constructor
    · rintro (⟨hmem, _⟩ | ⟨_, _, hmem, _⟩)
      · exact hmem
      · exact hmem
    · intro hmem
      cases hi : group item with
      | none => exact Or.inl ⟨hmem, rfl⟩
      | some i => exact Or.inr ⟨i, hgroup item hmem i hi, hmem, rfl⟩

end Python
