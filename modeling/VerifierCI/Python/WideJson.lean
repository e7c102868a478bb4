import Mathlib.Order.Fin.Basic
import VerifierCI.Python.Dict
import VerifierCI.Python.JsonLoads

/-! # JSON values with lone surrogates

The escapes of a JSON text can put a lone surrogate into a string. Such a string is a
list of code points that is not a list of characters: it can be read but not encoded. A
value is canonical if its objects list their members in the order of their keys.
-/

namespace Python

/-- A Unicode code point. The surrogates are code points but no characters. -/
abbrev CodePoint := Fin 0x110000

/-- A `str`. -/
abbrev WideString := List CodePoint

/-! ## Code points and characters -/

theorem char_lt (c : Char) : c.toNat < 0x110000 := by
  have h : c.toNat < 0xd800 ∨ 0xdfff < c.toNat ∧ c.toNat < 0x110000 := c.valid
  omega

def codePoint (c : Char) : CodePoint :=
  ⟨c.toNat, char_lt c⟩

def CodePoint.isSurrogate (p : CodePoint) : Bool :=
  decide (0xd800 ≤ p.val ∧ p.val < 0xe000)

/-- The character with this code point; a surrogate has none. -/
def CodePoint.char? (p : CodePoint) : Option Char :=
  if p.isSurrogate then none else some (Char.ofNat p.val)

def wide (text : String) : WideString :=
  text.toList.map codePoint

/-- Can the string be encoded? -/
def IsUnicode (text : WideString) : Bool :=
  text.all fun p => !p.isSurrogate

/-- The string as a list of characters. -/
def narrow? (text : WideString) : Option String :=
  if IsUnicode text then some (String.ofList (text.map fun p => Char.ofNat p.val)) else none

theorem toNat_ofNat_of_valid {n : Nat} (h : n.isValidChar) : (Char.ofNat n).toNat = n := by
  rw [Char.ofNat, dif_pos h]
  rfl

theorem codePoint_ofNat {p : CodePoint} (h : p.isSurrogate = false) :
    codePoint (Char.ofNat p.val) = p := by
  rw [CodePoint.isSurrogate, decide_eq_false_iff_not] at h
  have hvalid : p.val.isValidChar := by
    have hlt := p.isLt
    simp only [Nat.isValidChar]
    omega
  exact Fin.ext (toNat_ofNat_of_valid hvalid)

theorem isSurrogate_codePoint (c : Char) : (codePoint c).isSurrogate = false := by
  have h : c.toNat < 0xd800 ∨ 0xdfff < c.toNat ∧ c.toNat < 0x110000 := c.valid
  have hval : (codePoint c).val = c.toNat := rfl
  rw [CodePoint.isSurrogate, decide_eq_false_iff_not, hval]
  omega

theorem codePoint_injective : Function.Injective codePoint := by
  intro c d h
  have hnat : c.toNat = d.toNat := Fin.mk.inj h
  rw [← Char.ofNat_toNat c, hnat, Char.ofNat_toNat]

theorem wide_injective : Function.Injective wide := by
  intro a b h
  exact String.toList_inj.mp (List.map_injective_iff.mpr codePoint_injective h)

@[simp] theorem isUnicode_wide (text : String) : IsUnicode (wide text) = true := by
  simp [IsUnicode, wide, isSurrogate_codePoint]

/-- A string that can be narrowed is the widening of what it is narrowed to. -/
theorem wide_of_narrow? {text : WideString} {value : String} (h : narrow? text = some value) :
    wide value = text := by
  unfold narrow? at h
  split at h
  next hunicode =>
    obtain rfl := Option.some.inj h
    rw [wide, String.toList_ofList, List.map_map]
    conv => rhs; rw [← List.map_id text]
    apply List.map_congr_left
    intro p hp
    have hsurrogate := List.all_eq_true.mp hunicode p hp
    exact codePoint_ofNat (by simpa using hsurrogate)
  next => cases h

/-! ## Values -/

/-- A value `json.loads` returns. -/
inductive WideJson where
  | null
  | bool (value : Bool)
  | int (value : Int)
  | float (value : PyFloat)
  | str (value : WideString)
  | arr (items : List WideJson)
  | obj (members : List (WideString × WideJson))
deriving Repr

namespace WideJson

/-- What holds of a value whenever it holds of its parts holds of every value. -/
@[elab_as_elim]
theorem ind {P : WideJson → Prop} (null : P .null) (bool : ∀ value, P (.bool value))
    (int : ∀ value, P (.int value)) (float : ∀ value, P (.float value))
    (str : ∀ value, P (.str value)) (arr : ∀ items, (∀ item ∈ items, P item) → P (.arr items))
    (obj : ∀ members, (∀ member ∈ members, P member.2) → P (.obj members)) :
    ∀ value, P value :=
  @WideJson.rec P (fun items => ∀ item ∈ items, P item)
    (fun members => ∀ member ∈ members, P member.2) (fun member => P member.2)
    null bool int float str (fun items h => arr items h) (fun members h => obj members h)
    (fun _ h => nomatch h) (fun _ _ hhead htail => List.forall_mem_cons.mpr ⟨hhead, htail⟩)
    (fun _ h => nomatch h) (fun _ _ hhead htail => List.forall_mem_cons.mpr ⟨hhead, htail⟩)
    (fun _ _ h => h)

mutual

def all (key : WideString → Bool) (scalar : WideJson → Bool) : WideJson → Bool
  | .arr items => allItems key scalar items
  | .obj members => allMembers key scalar members
  | value => scalar value

def allItems (key : WideString → Bool) (scalar : WideJson → Bool) : List WideJson → Bool
  | [] => true
  | item :: rest => item.all key scalar && allItems key scalar rest

def allMembers (key : WideString → Bool) (scalar : WideJson → Bool) :
    List (WideString × WideJson) → Bool
  | [] => true
  | (name, value) :: rest => key name && value.all key scalar && allMembers key scalar rest

end

mutual

def depth : WideJson → Nat
  | .arr items => itemsDepth items + 1
  | .obj members => membersDepth members + 1
  | _ => 0

def itemsDepth : List WideJson → Nat
  | [] => 0
  | item :: rest => max item.depth (itemsDepth rest)

def membersDepth : List (WideString × WideJson) → Nat
  | [] => 0
  | (_, value) :: rest => max value.depth (membersDepth rest)

end

mutual

/-- The arrays and objects of a value, without its scalars. -/
def skeleton : WideJson → WideJson
  | .arr items => .arr (itemsSkeleton items)
  | .obj members => .obj (membersSkeleton members)
  | _ => .null

def itemsSkeleton : List WideJson → List WideJson
  | [] => []
  | item :: rest => item.skeleton :: itemsSkeleton rest

def membersSkeleton : List (WideString × WideJson) → List (WideString × WideJson)
  | [] => []
  | (key, value) :: rest => (key, value.skeleton) :: membersSkeleton rest

end

mutual

/-- Every object lists its members in the order of their keys. -/
def Canonical : WideJson → Prop
  | .arr items => ItemsCanonical items
  | .obj members => Ordered members ∧ MembersCanonical members
  | _ => True

def ItemsCanonical : List WideJson → Prop
  | [] => True
  | item :: rest => item.Canonical ∧ ItemsCanonical rest

def MembersCanonical : List (WideString × WideJson) → Prop
  | [] => True
  | (_, value) :: rest => value.Canonical ∧ MembersCanonical rest

end

mutual

def narrow : WideJson → Option Json
  | .null => some .null
  | .bool value => some (.bool value)
  | .int value => some (.int value)
  | .float value => some (.float value)
  | .str value => (narrow? value).map .str
  | .arr items => (narrowItems items).map .arr
  | .obj members => (narrowMembers members).map .obj

def narrowItems : List WideJson → Option (List Json)
  | [] => some []
  | item :: rest => do
      let item ← item.narrow
      let rest ← narrowItems rest
      some (item :: rest)

def narrowMembers : List (WideString × WideJson) → Option (List (String × Json))
  | [] => some []
  | (key, value) :: rest => do
      let key ← narrow? key
      let value ← value.narrow
      let rest ← narrowMembers rest
      some ((key, value) :: rest)

end

mutual

/-- The value with its strings as lists of code points and its keys in order. -/
def ofJson : Json → WideJson
  | .null => .null
  | .bool value => .bool value
  | .int value => .int value
  | .float value => .float value
  | .str value => .str (wide value)
  | .arr items => .arr (ofItems items)
  | .obj members => .obj (dict (ofMembers members))

def ofItems : List Json → List WideJson
  | [] => []
  | item :: rest => ofJson item :: ofItems rest

def ofMembers : List (String × Json) → List (WideString × WideJson)
  | [] => []
  | (key, value) :: rest => (wide key, ofJson value) :: ofMembers rest

end

section Lists

variable {items : List WideJson} {members : List (WideString × WideJson)}

@[simp] theorem all_arr (key : WideString → Bool) (scalar : WideJson → Bool) :
    (arr items).all key scalar = items.all fun item => item.all key scalar := by
  rw [all]
  induction items with
  | nil => rfl
  | cons item rest ih => rw [allItems, ih, List.all_cons]

@[simp] theorem all_obj (key : WideString → Bool) (scalar : WideJson → Bool) :
    (obj members).all key scalar =
      members.all fun member => key member.1 && member.2.all key scalar := by
  rw [all]
  induction members with
  | nil => rfl
  | cons member rest ih => rw [allMembers, ih, List.all_cons]

theorem itemsDepth_le {n : Nat} : itemsDepth items ≤ n ↔ ∀ item ∈ items, item.depth ≤ n := by
  induction items with
  | nil => simp [itemsDepth]
  | cons item rest ih => rw [itemsDepth, max_le_iff, ih, List.forall_mem_cons]

theorem membersDepth_le {n : Nat} :
    membersDepth members ≤ n ↔ ∀ member ∈ members, member.2.depth ≤ n := by
  induction members with
  | nil => simp [membersDepth]
  | cons member rest ih => rw [membersDepth, max_le_iff, ih, List.forall_mem_cons]

@[simp] theorem skeleton_arr : (arr items).skeleton = .arr (items.map skeleton) := by
  rw [skeleton]
  congr 1
  induction items with
  | nil => rfl
  | cons item rest ih => rw [itemsSkeleton, ih, List.map_cons]

@[simp] theorem skeleton_obj :
    (obj members).skeleton = .obj (members.map fun member => (member.1, member.2.skeleton)) := by
  rw [skeleton]
  congr 1
  induction members with
  | nil => rfl
  | cons member rest ih => rw [membersSkeleton, ih, List.map_cons]

@[simp] theorem canonical_arr : (arr items).Canonical ↔ ∀ item ∈ items, item.Canonical := by
  rw [Canonical]
  induction items with
  | nil => simp [ItemsCanonical]
  | cons item rest ih => rw [ItemsCanonical, ih, List.forall_mem_cons]

@[simp] theorem canonical_obj :
    (obj members).Canonical ↔ Ordered members ∧ ∀ member ∈ members, member.2.Canonical := by
  rw [Canonical]
  have hmembers : MembersCanonical members ↔ ∀ member ∈ members, member.2.Canonical := by
    induction members with
    | nil => simp [MembersCanonical]
    | cons member rest ih => rw [MembersCanonical, ih, List.forall_mem_cons]
  rw [hmembers]

theorem narrowItems_eq_some {narrowed : List Json} :
    narrowItems items = some narrowed ↔
      List.Forall₂ (fun item other => item.narrow = some other) items narrowed := by
  induction items generalizing narrowed with
  | nil =>
      rw [narrowItems, Option.some_inj, List.forall₂_nil_left_iff]
      exact eq_comm
  | cons item rest ih =>
      simp only [narrowItems, Option.bind_eq_bind, Option.bind_eq_some_iff, Option.some_inj,
        List.forall₂_cons_left_iff, ih]
      constructor
      · rintro ⟨head, hhead, tail, htail, rfl⟩
        exact ⟨head, tail, hhead, htail, rfl⟩
      · rintro ⟨head, tail, hhead, htail, rfl⟩
        exact ⟨head, hhead, tail, htail, rfl⟩

theorem narrowMembers_eq_some {narrowed : List (String × Json)} :
    narrowMembers members = some narrowed ↔
      List.Forall₂ (fun member other => narrow? member.1 = some other.1 ∧
        member.2.narrow = some other.2) members narrowed := by
  induction members generalizing narrowed with
  | nil =>
      rw [narrowMembers, Option.some_inj, List.forall₂_nil_left_iff]
      exact eq_comm
  | cons member rest ih =>
      simp only [narrowMembers, Option.bind_eq_bind, Option.bind_eq_some_iff, Option.some_inj,
        List.forall₂_cons_left_iff, ih]
      constructor
      · rintro ⟨key, hkey, value, hvalue, tail, htail, rfl⟩
        exact ⟨(key, value), tail, ⟨hkey, hvalue⟩, htail, rfl⟩
      · rintro ⟨⟨key, value⟩, tail, ⟨hkey, hvalue⟩, htail, rfl⟩
        exact ⟨key, hkey, value, hvalue, tail, htail, rfl⟩

theorem ofItems_eq (items : List Json) : ofItems items = items.map ofJson := by
  induction items with
  | nil => rfl
  | cons item rest ih => rw [ofItems, ih, List.map_cons]

theorem ofMembers_eq (members : List (String × Json)) :
    ofMembers members = members.map fun member => (wide member.1, ofJson member.2) := by
  induction members with
  | nil => rfl
  | cons member rest ih => rw [ofMembers, ih, List.map_cons]

end Lists

/-- Scalars add nothing to the depth. -/
theorem depth_skeleton (value : WideJson) : value.skeleton.depth = value.depth := by
  induction value using ind with
  | arr items ih =>
      rw [skeleton_arr, depth, depth]
      congr 1
      apply le_antisymm
      · simp only [itemsDepth_le, List.forall_mem_map]
        exact fun item hitem => (ih item hitem).trans_le (itemsDepth_le.mp le_rfl item hitem)
      · rw [itemsDepth_le]
        intro item hitem
        rw [← ih item hitem]
        exact itemsDepth_le.mp le_rfl _ (List.mem_map_of_mem hitem)
  | obj members ih =>
      rw [skeleton_obj, depth, depth]
      congr 1
      apply le_antisymm
      · simp only [membersDepth_le, List.forall_mem_map]
        exact fun member hmem => (ih member hmem).trans_le (membersDepth_le.mp le_rfl member hmem)
      · rw [membersDepth_le]
        intro member hmem
        rw [← ih member hmem]
        exact membersDepth_le.mp le_rfl (member.1, member.2.skeleton)
          (List.mem_map.mpr ⟨member, hmem, rfl⟩)
  | _ => rfl

/-! ## Values without surrogates -/

def scalarUnicode : WideJson → Bool
  | .str value => IsUnicode value
  | _ => true

def unicode : WideJson → Bool :=
  all IsUnicode scalarUnicode

def scalarFinite : WideJson → Bool
  | .float value => value.isFinite
  | _ => true

def finite : WideJson → Bool :=
  all (fun _ => true) scalarFinite

/-- Can the integer be converted from and to its digits? Those of a JSON number have
no leading zeros. -/
def digitsFit (value : Int) : Bool :=
  decide ((Nat.toDigits 10 value.natAbs).length ≤ Json.maxDigits)

def scalarFits : WideJson → Bool
  | .int value => digitsFit value
  | _ => true

def fits : WideJson → Bool :=
  all (fun _ => true) scalarFits

theorem narrow?_isSome {text : WideString} : (narrow? text).isSome = IsUnicode text := by
  unfold narrow?
  split
  next h => rw [h, Option.isSome_some]
  next h => rw [Bool.not_eq_true] at h; rw [h, Option.isSome_none]

/-- A value can be narrowed exactly when it can be encoded. By induction on the value: what
keeps it from being encoded is a lone surrogate in a text or in a key. -/
theorem exists_narrow_iff {value : WideJson} :
    (∃ narrowed, value.narrow = some narrowed) ↔ value.unicode = true := by
  induction value using ind with
  | str value =>
      have hscalar : (str value).unicode = IsUnicode value := rfl
      rw [hscalar, ← narrow?_isSome, Option.isSome_iff_exists]
      simp [narrow]
  | arr items ih =>
      simp only [narrow, Option.map_eq_some_iff, unicode, all_arr, List.all_eq_true]
      constructor
      · rintro ⟨_, others, hothers, _⟩ item hitem
        obtain ⟨other, _, hother⟩ :=
          exists_of_mem_forall₂ (narrowItems_eq_some.mp hothers) hitem
        exact (ih item hitem).mp ⟨other, hother⟩
      · intro h
        obtain ⟨others, hothers⟩ :=
          exists_forall₂ fun item hitem => (ih item hitem).mpr (h item hitem)
        exact ⟨_, others, narrowItems_eq_some.mpr hothers, rfl⟩
  | obj members ih =>
      simp only [narrow, Option.map_eq_some_iff, unicode, all_obj, List.all_eq_true,
        Bool.and_eq_true]
      constructor
      · rintro ⟨_, others, hothers, _⟩ member hmember
        obtain ⟨other, _, hkey, hother⟩ :=
          exists_of_mem_forall₂ (narrowMembers_eq_some.mp hothers) hmember
        refine ⟨?_, (ih member hmember).mp ⟨other.2, hother⟩⟩
        rw [← narrow?_isSome, hkey, Option.isSome_some]
      · intro h
        have hmember : ∀ member ∈ members, ∃ other : String × Json,
            narrow? member.1 = some other.1 ∧ member.2.narrow = some other.2 := by
          intro member hmember
          obtain ⟨hkey, hvalue⟩ := h member hmember
          obtain ⟨narrowed, hnarrowed⟩ := (ih member hmember).mpr hvalue
          rw [← narrow?_isSome, Option.isSome_iff_exists] at hkey
          obtain ⟨key, hkey⟩ := hkey
          exact ⟨(key, narrowed), hkey, hnarrowed⟩
        obtain ⟨others, hothers⟩ := exists_forall₂ hmember
        exact ⟨_, others, narrowMembers_eq_some.mpr hothers, rfl⟩
  | _ => simp [narrow, unicode, all, scalarUnicode]

/-- Widening undoes narrowing. By induction on the value; keys and items are narrowed one by
one, in their order. -/
theorem ofJson_of_narrow {value : WideJson} (hcanonical : value.Canonical) {narrowed : Json}
    (h : value.narrow = some narrowed) : ofJson narrowed = value := by
  induction value using ind generalizing narrowed with
  | str value =>
      obtain ⟨text, htext, rfl⟩ := Option.map_eq_some_iff.mp h
      rw [ofJson, wide_of_narrow? htext]
  | arr items ih =>
      obtain ⟨others, hothers, rfl⟩ := Option.map_eq_some_iff.mp h
      rw [canonical_arr] at hcanonical
      rw [ofJson, ofItems_eq]
      congr 1
      have hmap := map_eq_of_forall₂ (f := id) (g := ofJson) (narrowItems_eq_some.mp hothers)
        fun item hitem other hother => (ih item hitem (hcanonical item hitem) hother).symm
      rw [← hmap, List.map_id]
  | obj members ih =>
      obtain ⟨others, hothers, rfl⟩ := Option.map_eq_some_iff.mp h
      rw [canonical_obj] at hcanonical
      rw [ofJson, ofMembers_eq]
      have hmap := map_eq_of_forall₂ (f := id)
        (g := fun member : String × Json => (wide member.1, ofJson member.2))
        (narrowMembers_eq_some.mp hothers) fun member hmember other hother =>
          Prod.ext (wide_of_narrow? hother.1).symm
            (ih member hmember (hcanonical.2 member hmember) hother.2).symm
      rw [← hmap, List.map_id, dict_eq_self hcanonical.1]
  | _ => obtain rfl := Option.some.inj h; rfl

/-- What can be encoded has a text that is read back. Narrowing keeps the keys in order and the
numbers as they are. -/
theorem dumpable_of_narrow {value : WideJson} (hcanonical : value.Canonical)
    (hfinite : value.finite = true) {narrowed : Json} (h : value.narrow = some narrowed) :
    narrowed.Dumpable := by
  induction value using ind generalizing narrowed with
  | str value =>
      obtain ⟨text, _, rfl⟩ := Option.map_eq_some_iff.mp h
      exact trivial
  | float value =>
      obtain rfl := Option.some.inj h
      exact hfinite
  | arr items ih =>
      obtain ⟨others, hothers, rfl⟩ := Option.map_eq_some_iff.mp h
      rw [canonical_arr] at hcanonical
      simp only [finite, all_arr, List.all_eq_true] at hfinite
      apply Json.itemsDumpable_iff.mpr
      intro other hother
      obtain ⟨item, hitem, hnarrow⟩ :=
        exists_of_mem_forall₂ (narrowItems_eq_some.mp hothers).flip hother
      exact ih item hitem (hcanonical item hitem) (hfinite item hitem) hnarrow
  | obj members ih =>
      obtain ⟨others, hothers, rfl⟩ := Option.map_eq_some_iff.mp h
      rw [canonical_obj] at hcanonical
      simp only [finite, all_obj, List.all_eq_true, Bool.true_and] at hfinite
      have hrows := narrowMembers_eq_some.mp hothers
      constructor
      · have hkeys := map_eq_of_forall₂ (f := Prod.fst) (g := fun other => wide other.1) hrows
          fun member _ other hother => (wide_of_narrow? hother.1).symm
        have hnodup := hcanonical.1.nodup
        rw [hkeys] at hnodup
        apply List.Nodup.of_map wide
        rw [List.map_map]
        exact hnodup
      · apply Json.membersDumpable_iff.mpr
        intro other hother
        obtain ⟨member, hmember, _, hnarrow⟩ := exists_of_mem_forall₂ hrows.flip hother
        exact ih member hmember (hcanonical.2 member hmember) (hfinite member hmember) hnarrow
  | _ =>
      obtain rfl := Option.some.inj h
      exact trivial

mutual

/-- Sorting the keys of a text changes nothing about the value read from it. -/
theorem ofJson_sortKeys : ∀ value : Json, value.Dumpable → ofJson value.sortKeys = ofJson value
  | .null, _ => rfl
  | .bool _, _ => rfl
  | .int _, _ => rfl
  | .float _, _ => rfl
  | .str _, _ => rfl
  | .arr items, h => congrArg arr (ofItems_sortItems items h)
  | .obj members, h => by
      rw [Json.sortKeys, ofJson, ofJson, ← ofMembers_sortMembers members h.2]
      congr 1
      have hperm := (List.perm_insertionSort Json.KeyLe (Json.sortMembers members)).map
        fun member => (wide member.1, ofJson member.2)
      rw [← ofMembers_eq, ← ofMembers_eq] at hperm
      apply dict_eq_of_perm hperm
      have hkeys : (Prod.fst ∘ fun member : String × Json => (wide member.1, ofJson member.2)) =
          wide ∘ Prod.fst := rfl
      rw [ofMembers_eq, List.map_map, hkeys, ← List.map_map]
      exact (Json.nodup_insertionSort (Json.map_fst_sortMembers members ▸ h.1)).map wide_injective

theorem ofItems_sortItems : ∀ items : List Json, Json.ItemsDumpable items →
    ofItems (Json.sortItems items) = ofItems items
  | [], _ => rfl
  | item :: rest, h => by
      rw [Json.sortItems, ofItems, ofItems, ofJson_sortKeys item h.1, ofItems_sortItems rest h.2]

theorem ofMembers_sortMembers : ∀ members : List (String × Json), Json.MembersDumpable members →
    ofMembers (Json.sortMembers members) = ofMembers members
  | [], _ => rfl
  | (key, value) :: rest, h => by
      rw [Json.sortMembers, ofMembers, ofMembers, ofJson_sortKeys value h.1,
        ofMembers_sortMembers rest h.2]

end

/-! ## Strings in a list -/

def ofStrings (values : List WideString) : WideJson :=
  .arr (values.map .str)

/-- `tuple(value)`: the items of an array, the characters of a string, the
keys of an object. Other values are not iterable. -/
def toTuple? : WideJson → Option (List WideJson)
  | .arr items => some items
  | .str value => some (value.map fun p => .str [p])
  | .obj members => some (members.map fun member => .str member.1)
  | _ => none

def isStr (text : WideString) : WideJson → Bool
  | .str value => value == text
  | _ => false

/-- `items == values` for a tuple of strings. -/
def eqStrings : List WideJson → List WideString → Bool
  | [], [] => true
  | item :: items, value :: values => item.isStr value && eqStrings items values
  | _, _ => false

@[simp] theorem finite_ofStrings (values : List WideString) : (ofStrings values).finite = true := by
  rw [ofStrings, finite, all_arr, List.all_map, List.all_eq_true]
  exact fun _ _ => rfl

theorem eqStrings_map_str {stored values : List WideString} :
    eqStrings (stored.map .str) values = true ↔ stored = values := by
  induction stored generalizing values with
  | nil => cases values <;> simp [eqStrings]
  | cons text rest ih =>
      cases values with
      | nil => simp [eqStrings]
      | cons value values =>
          rw [List.map_cons, eqStrings, Bool.and_eq_true, ih, isStr, beq_iff_eq, List.cons.injEq]

end WideJson

end Python
