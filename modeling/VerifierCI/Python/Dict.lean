import Mathlib.Data.List.Lex
import VerifierCI.Python.JsonText

/-! # Dictionaries in the order of their keys

Neither `==` nor `sort_keys` sees the order in which the keys of a dictionary were
inserted. Where nothing else depends on it, a dictionary is the list of its items in
the order of their keys.
-/

namespace Python

section Forall₂

variable {α β γ : Type} {R S : α → β → Prop} {items : List α} {others : List β}

theorem exists_of_mem_forall₂ (h : List.Forall₂ R items others) {item : α} (hitem : item ∈ items) :
    ∃ other ∈ others, R item other := by
  induction h with
  | nil => cases hitem
  | cons hhead _ ih =>
      rcases List.mem_cons.mp hitem with rfl | hrest
      · exact ⟨_, List.mem_cons_self, hhead⟩
      · obtain ⟨other, hother, hR⟩ := ih hrest
        exact ⟨other, List.mem_cons_of_mem _ hother, hR⟩

theorem exists_forall₂ (h : ∀ item ∈ items, ∃ other, R item other) :
    ∃ others, List.Forall₂ R items others := by
  induction items with
  | nil => exact ⟨[], .nil⟩
  | cons item rest ih =>
      rw [List.forall_mem_cons] at h
      obtain ⟨other, hother⟩ := h.1
      obtain ⟨others, hothers⟩ := ih h.2
      exact ⟨other :: others, .cons hother hothers⟩

theorem forall₂_imp_of_mem (h : List.Forall₂ R items others)
    (himp : ∀ item ∈ items, ∀ other, R item other → S item other) :
    List.Forall₂ S items others := by
  induction h with
  | nil => exact .nil
  | cons hhead _ ih =>
      rw [List.forall_mem_cons] at himp
      exact .cons (himp.1 _ hhead) (ih himp.2)

/-- Related lists are equal under maps that make related items equal. -/
theorem map_eq_of_forall₂ {f : α → γ} {g : β → γ} (h : List.Forall₂ R items others)
    (heq : ∀ item ∈ items, ∀ other, R item other → f item = g other) :
    items.map f = others.map g := by
  have hmap := forall₂_imp_of_mem h heq
  rw [← List.forall₂_map_right_iff (R := fun item value => f item = value),
    ← List.forall₂_map_left_iff (R := fun value value' => value = value'),
    List.forall₂_eq_eq_eq] at hmap
  exact hmap

end Forall₂

section Lookup

variable {κ α : Type} [BEq κ] [LawfulBEq κ] {items : List (κ × α)}

/-- With distinct keys every item is found under its key. -/
theorem lookup_eq_of_mem {key : κ} {value : α} (hnodup : (items.map Prod.fst).Nodup)
    (hmem : (key, value) ∈ items) : items.lookup key = some value := by
  induction items with
  | nil => cases hmem
  | cons item rest ih =>
      rw [List.map_cons, List.nodup_cons] at hnodup
      rw [List.lookup_cons]
      rcases List.mem_cons.mp hmem with rfl | hrest
      · rw [beq_self_eq_true]
      · have hne : (key == item.1) = false := by
          rw [beq_eq_false_iff_ne]
          rintro rfl
          exact hnodup.1 (List.mem_map.mpr ⟨_, hrest, rfl⟩)
        rw [hne]
        exact ih hnodup.2 hrest

theorem mem_of_lookup_eq {key : κ} {value : α} (h : items.lookup key = some value) :
    (key, value) ∈ items := by
  obtain ⟨before, after, rfl, _⟩ := List.lookup_eq_some_iff.mp h
  exact List.mem_append_right _ List.mem_cons_self

end Lookup

section Dict

variable {κ α β : Type} [LinearOrder κ] {items others : List (κ × α)}

/-- The dictionary with the given items, no two of which have the same key. -/
def dict (items : List (κ × α)) : List (κ × α) :=
  items.insertionSort fun a b => a.1 ≤ b.1

/-- Every key is less than the keys behind it. -/
def Ordered (items : List (κ × α)) : Prop :=
  (items.map Prod.fst).Pairwise (· < ·)

instance (items : List (κ × α)) : Decidable (Ordered items) :=
  inferInstanceAs (Decidable (List.Pairwise _ _))

theorem dict_perm (items : List (κ × α)) : (dict items).Perm items :=
  List.perm_insertionSort _ items

@[simp] theorem mem_dict {item : κ × α} : item ∈ dict items ↔ item ∈ items :=
  (dict_perm items).mem_iff

theorem Ordered.nodup (h : Ordered items) : (items.map Prod.fst).Nodup :=
  h.imp fun hlt => ne_of_lt hlt

/-- Order depends on the keys only. -/
theorem Ordered.of_keys_eq {others : List (κ × β)} (h : Ordered items)
    (hkeys : others.map Prod.fst = items.map Prod.fst) : Ordered others := by
  rw [Ordered, hkeys]
  exact h

theorem ordered_dict (hnodup : (items.map Prod.fst).Nodup) : Ordered (dict items) := by
  have hle : ((dict items).map Prod.fst).Pairwise (· ≤ ·) := by
    rw [List.pairwise_map]
    exact List.pairwise_insertionSort _ items
  have hne : ((dict items).map Prod.fst).Nodup :=
    ((dict_perm items).map Prod.fst).nodup_iff.mpr hnodup
  exact (hle.and hne).imp fun h => lt_of_le_of_ne h.1 h.2

/-- Two orders of the same items are one dictionary. -/
theorem dict_eq_of_perm (hperm : items.Perm others) (hnodup : (items.map Prod.fst).Nodup) :
    dict items = dict others := by
  have hdict : (dict items).Perm (dict others) :=
    (dict_perm items).trans (hperm.trans (dict_perm others).symm)
  have hordered := ordered_dict hnodup
  have hordered' := ordered_dict ((hperm.map Prod.fst).nodup_iff.mp hnodup)
  have hkeys : (dict items).map Prod.fst = (dict others).map Prod.fst :=
    (hdict.map Prod.fst).eq_of_pairwise (fun a b _ _ hab hba => absurd hab (not_lt_of_gt hba))
      hordered hordered'
  exact Json.eq_of_perm_of_keys_eq Prod.fst hdict hkeys hordered.nodup

theorem dict_eq_self (h : Ordered items) : dict items = items := by
  apply List.Pairwise.insertionSort_eq
  rw [Ordered, List.pairwise_map] at h
  exact h.imp le_of_lt

/-- Converting the values keeps the order. -/
theorem map_dict (f : α → β) (items : List (κ × α)) :
    (dict items).map (fun item => (item.1, f item.2)) =
      dict (items.map fun item => (item.1, f item.2)) :=
  List.map_insertionSort _ _ _ _ fun _ _ _ _ => Iff.rfl

/-- A dictionary finds what the list of its items finds. -/
theorem lookup_dict [BEq κ] [LawfulBEq κ] {key : κ} (hnodup : (items.map Prod.fst).Nodup) :
    (dict items).lookup key = items.lookup key := by
  cases hitem : items.lookup key with
  | some value =>
      apply lookup_eq_of_mem (ordered_dict hnodup).nodup
      exact mem_dict.mpr (mem_of_lookup_eq hitem)
  | none =>
      rw [List.lookup_eq_none_iff] at hitem ⊢
      exact fun item hmem => hitem item (mem_dict.mp hmem)

end Dict

end Python
