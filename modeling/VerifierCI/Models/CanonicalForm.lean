import VerifierCI.Models.Records
import VerifierCI.Python.JsonTrees

/-! # What canonical bytes identify

Values are made canonical before they are hashed: a list and a tuple become one array, a
mapping and a dataclass one object, and a datetime the text of its instant in UTC. The
bytes then tell the resulting trees apart, up to the order of keys.
-/

namespace VerifierCI

open Python

/-- A value `canonical_repr` accepts. -/
inductive PyValue where
  | none
  | bool (value : Bool)
  | int (value : Int)
  | float (value : PyFloat)
  | str (value : String)
  | datetime (value : Datetime)
  | list (items : List PyValue)
  | tuple (items : List PyValue)
  /-- The items of a mapping, in the order it iterates over them. -/
  | mapping (entries : List (String × PyValue))
  /-- An instance of a dataclass, with its fields in the order of their declaration. -/
  | record (cls : String) (fields : List (String × PyValue))
deriving Repr

namespace PyValue

/-- What holds of a value whenever it holds of its parts holds of every value. -/
@[elab_as_elim]
theorem ind {P : PyValue → Prop} (none : P .none) (bool : ∀ value, P (.bool value))
    (int : ∀ value, P (.int value)) (float : ∀ value, P (.float value))
    (str : ∀ value, P (.str value)) (datetime : ∀ value, P (.datetime value))
    (list : ∀ items, (∀ item ∈ items, P item) → P (.list items))
    (tuple : ∀ items, (∀ item ∈ items, P item) → P (.tuple items))
    (mapping : ∀ entries, (∀ entry ∈ entries, P entry.2) → P (.mapping entries))
    (record : ∀ cls fields, (∀ field ∈ fields, P field.2) → P (.record cls fields)) :
    ∀ value, P value :=
  @PyValue.rec P (fun items => ∀ item ∈ items, P item)
    (fun members => ∀ member ∈ members, P member.2) (fun member => P member.2)
    none bool int float str datetime list tuple mapping record
    (fun _ h => nomatch h) (fun _ _ hhead htail => List.forall_mem_cons.mpr ⟨hhead, htail⟩)
    (fun _ h => nomatch h) (fun _ _ hhead htail => List.forall_mem_cons.mpr ⟨hhead, htail⟩)
    (fun _ _ h => h)

end PyValue

/-- What `canonical_repr` goes into. -/
inductive Container where
  | sequence
  | mapping
  | record
deriving DecidableEq, Repr

/-- Whether the interpreter has frames left for the calls that make a value canonical, inside
of the containers listed, innermost first. -/
abbrev Room := List Container → PyValue → Bool

namespace Room

def ample : Room := fun _ _ => true

/-- A number of frames. A sequence or a mapping takes one for its comprehension besides the
one every call takes, which a dataclass does without. -/
def ofFrames (frames : Nat) : Room := fun path value =>
  let taken := (path.map fun container => if container = .record then 1 else 2).sum
  match value with
  | .list _ | .tuple _ | .mapping _ => decide (taken + 2 ≤ frames)
  | _ => decide (taken + 1 ≤ frames)

end Room

namespace PyValue

mutual

/-- `canonical_repr(value)`, called inside of the containers of a path. -/
def canonicalRepr (room : Room) (path : List Container) (value : PyValue) : Except Exc Json :=
  if room path value = false then .error .recursionError
  else
    match value with
    | .none => .ok .null
    | .bool value => .ok (.bool value)
    | .int value => .ok (.int value)
    | .str value => .ok (.str value)
    | .float value =>
        if value.isFinite then .ok (.float value)
        else raiseWith .validationError "Non-finite float values are prohibited in canonical JSON."
    | .datetime value =>
        if value.utcoffset.isNone then
          raiseWith .validationError "Datetime must be timezone-aware."
        else
          match value.astimezoneUtc? with
          | Option.none => .error .overflowError
          | some utc => .ok (.str (String.ofList (utcText utc)))
    | .record _ fields => do
        let res ← reprMembers room (.record :: path) fields
        .ok (.obj res)
    | .mapping entries => do
        let res ← reprMembers room (.mapping :: path) entries
        .ok (.obj res)
    | .list items => do
        let res ← reprItems room (.sequence :: path) items
        .ok (.arr res)
    | .tuple items => do
        let res ← reprItems room (.sequence :: path) items
        .ok (.arr res)

def reprItems (room : Room) (path : List Container) : List PyValue → Except Exc (List Json)
  | [] => .ok []
  | item :: rest => do
      let item ← item.canonicalRepr room path
      let rest ← reprItems room path rest
      .ok (item :: rest)

def reprMembers (room : Room) (path : List Container) :
    List (String × PyValue) → Except Exc (List (String × Json))
  | [] => .ok []
  | (key, value) :: rest => do
      let value ← value.canonicalRepr room path
      let rest ← reprMembers room path rest
      .ok ((key, value) :: rest)

end

end PyValue

/-- `json.dumps(normalized, sort_keys=True, …).encode("utf-8")`. A tree that cannot be
walked through raises `RecursionError`, and an integer with too many digits `ValueError`. -/
def encodeCanonical (interpreter : Interpreter) (normalized : Json) : Except Exc (List UInt8) :=
  let value := WideJson.ofJson normalized
  if interpreter.encodes value.skeleton = false then .error .recursionError
  else if value.fits = false then .error .valueError
  else .ok (canonicalBytes normalized)

/-- `canonical_bytes(value)`. -/
def PyValue.canonicalBytes (interpreter : Interpreter) (room : Room) (value : PyValue) :
    Except Exc (List UInt8) := do
  let normalized ← value.canonicalRepr room []
  encodeCanonical interpreter normalized

/-! ## Values with a canonical form -/

/-- An aware datetime of the years 1000 to 9998. -/
structure IsCanonicalTime (value : Datetime) : Prop where
  aware : value.utcoffset.isSome = true
  first : 1000 ≤ (fieldsOfMicros value.micros).year
  last : (fieldsOfMicros value.micros).year ≤ 9998

/-- A day between two others in the range of datetimes keeps a day's distance from its ends. -/
theorem micros_bounds {fields : ClockFields} (hvalid : fields.Valid) (hfirst : 2 ≤ fields.year)
    (hlast : fields.year ≤ 9998) : minMicros + 86400000000 ≤ fields.micros ∧
      fields.micros + 86400000000 ≤ maxMicros := by
  obtain ⟨hmonth, hmonth'⟩ := hvalid.month
  obtain ⟨hday, hday'⟩ := hvalid.day
  have hday'' : fields.day ≤ 31 := hday'.trans (by rw [daysInMonth]; split_ifs <;> omega)
  have hhour := hvalid.hour
  have hminute := hvalid.minute
  have hsecond := hvalid.second
  have hmicrosecond := hvalid.microsecond
  have hdays : -719162 + 1 ≤ daysOfCivil fields.year fields.month fields.day ∧
      daysOfCivil fields.year fields.month fields.day ≤ 2932896 - 1 := by
    simp only [daysOfCivil, CycleDay.toDays, epochDays]
    split_ifs <;> omega
  rw [ClockFields.micros, minMicros, maxMicros]
  omega

/-- No offset leads out of the range of datetimes. -/
theorem IsCanonicalTime.astimezoneUtc? {value : Datetime} (h : IsCanonicalTime value) :
    ∃ utc, value.astimezoneUtc? = some utc := by
  have hbounds := micros_bounds (fieldsOfMicros_valid value.micros_mem)
    (le_trans (by decide) h.first) h.last
  rw [micros_fieldsOfMicros value.micros_mem] at hbounds
  obtain ⟨offset, hoffset⟩ := Option.isSome_iff_exists.mp h.aware
  have hoffset' := value.utcoffset_mem offset hoffset
  simp only [Datetime.astimezoneUtc?, hoffset, Option.getD_some]
  rw [dif_pos (by omega)]
  exact ⟨_, rfl⟩

theorem astimezoneUtc?_congr {value other : Datetime} (h : value.instant = other.instant) :
    value.astimezoneUtc? = other.astimezoneUtc? := by
  rw [Datetime.instant, Datetime.instant] at h
  simp only [Datetime.astimezoneUtc?, h]

namespace PyValue

mutual

/-- Floats are finite, datetimes canonical, and neither a mapping nor a dataclass has a
key twice. -/
def Normal : PyValue → Prop
  | .float value => value.isFinite = true
  | .datetime value => IsCanonicalTime value
  | .list items => ItemsNormal items
  | .tuple items => ItemsNormal items
  | .mapping entries => (entries.map Prod.fst).Nodup ∧ MembersNormal entries
  | .record _ fields => (fields.map Prod.fst).Nodup ∧ MembersNormal fields
  | _ => True

def ItemsNormal : List PyValue → Prop
  | [] => True
  | item :: rest => item.Normal ∧ ItemsNormal rest

def MembersNormal : List (String × PyValue) → Prop
  | [] => True
  | (_, value) :: rest => value.Normal ∧ MembersNormal rest

end

mutual

def tree : PyValue → Json
  | .none => .null
  | .bool value => .bool value
  | .int value => .int value
  | .float value => .float value
  | .str value => .str value
  | .datetime value => .str (String.ofList (utcText (value.astimezoneUtc?.getD value)))
  | .list items => .arr (itemTrees items)
  | .tuple items => .arr (itemTrees items)
  | .mapping entries => .obj (memberTrees entries)
  | .record _ fields => .obj (memberTrees fields)

def itemTrees : List PyValue → List Json
  | [] => []
  | item :: rest => item.tree :: itemTrees rest

def memberTrees : List (String × PyValue) → List (String × Json)
  | [] => []
  | (key, value) :: rest => (key, value.tree) :: memberTrees rest

end

mutual

/-- Is there room for every call `canonical_repr` makes? -/
def walked (room : Room) (path : List Container) (value : PyValue) : Bool :=
  room path value &&
    match value with
    | .list items => itemsWalked room (.sequence :: path) items
    | .tuple items => itemsWalked room (.sequence :: path) items
    | .mapping entries => membersWalked room (.mapping :: path) entries
    | .record _ fields => membersWalked room (.record :: path) fields
    | _ => true

def itemsWalked (room : Room) (path : List Container) : List PyValue → Bool
  | [] => true
  | item :: rest => item.walked room path && itemsWalked room path rest

def membersWalked (room : Room) (path : List Container) : List (String × PyValue) → Bool
  | [] => true
  | (_, value) :: rest => value.walked room path && membersWalked room path rest

end

section Lists

variable {items : List PyValue} {members : List (String × PyValue)}

theorem itemsNormal_iff : ItemsNormal items ↔ ∀ item ∈ items, item.Normal := by
  induction items with
  | nil => simp [ItemsNormal]
  | cons item rest ih => rw [ItemsNormal, ih, List.forall_mem_cons]

theorem membersNormal_iff : MembersNormal members ↔ ∀ member ∈ members, member.2.Normal := by
  induction members with
  | nil => simp [MembersNormal]
  | cons member rest ih => rw [MembersNormal, ih, List.forall_mem_cons]

theorem itemTrees_eq : itemTrees items = items.map tree := by
  induction items with
  | nil => rfl
  | cons item rest ih => rw [itemTrees, ih, List.map_cons]

theorem memberTrees_eq :
    memberTrees members = members.map fun member => (member.1, member.2.tree) := by
  induction members with
  | nil => rfl
  | cons member rest ih => rw [memberTrees, ih, List.map_cons]

theorem map_fst_memberTrees : (memberTrees members).map Prod.fst = members.map Prod.fst := by
  rw [memberTrees_eq, List.map_map]
  rfl

variable {room : Room} {path : List Container}

/-- The first item there is no room for ends the walk. -/
theorem reprItems_eq (h : ∀ item ∈ items, item.canonicalRepr room path =
      if item.walked room path then .ok item.tree else .error .recursionError) :
    reprItems room path items =
      if itemsWalked room path items then .ok (itemTrees items) else .error .recursionError := by
  induction items with
  | nil => rfl
  | cons item rest ih =>
      rw [List.forall_mem_cons] at h
      rw [reprItems, h.1, ih h.2, itemsWalked, itemTrees]
      cases item.walked room path with
      | false => rfl
      | true => cases itemsWalked room path rest <;> rfl

/-- The members are walked one after the other, and the first that runs out of frames
ends it. -/
theorem reprMembers_eq (h : ∀ member ∈ members, member.2.canonicalRepr room path =
      if member.2.walked room path then .ok member.2.tree else .error .recursionError) :
    reprMembers room path members =
      if membersWalked room path members then .ok (memberTrees members)
      else .error .recursionError := by
  induction members with
  | nil => rfl
  | cons member rest ih =>
      rw [List.forall_mem_cons] at h
      rw [reprMembers, h.1, ih h.2, membersWalked, memberTrees]
      cases member.2.walked room path with
      | false => rfl
      | true => cases membersWalked room path rest <;> rfl

/-- Trees of normal items make an array that can be written. -/
theorem itemTrees_dumpable (hitems : ItemsNormal items)
    (h : ∀ item ∈ items, item.Normal → item.tree.Dumpable) :
    (Json.arr (itemTrees items)).Dumpable := by
  rw [Json.Dumpable, itemTrees_eq, Json.itemsDumpable_iff]
  intro other hother
  obtain ⟨item, hitem, rfl⟩ := List.mem_map.mp hother
  exact h item hitem (itemsNormal_iff.mp hitems item hitem)

/-- Trees of normal values under distinct keys make an object that can be written. -/
theorem memberTrees_dumpable (hkeys : (members.map Prod.fst).Nodup)
    (hmembers : MembersNormal members)
    (h : ∀ member ∈ members, member.2.Normal → member.2.tree.Dumpable) :
    (Json.obj (memberTrees members)).Dumpable := by
  apply Json.dumpable_obj
  · rw [map_fst_memberTrees]
    exact hkeys
  · intro other hother
    rw [memberTrees_eq] at hother
    obtain ⟨member, hmember, rfl⟩ := List.mem_map.mp hother
    exact h member hmember (membersNormal_iff.mp hmembers member hmember)

end Lists

variable {value other : PyValue}

/-- A normal value has a canonical form, which only a lack of room keeps from it. By induction
on the value: each container is entered on a path one longer, and the room is asked for it. -/
theorem canonicalRepr_eq {room : Room} {path : List Container} (h : value.Normal) :
    value.canonicalRepr room path =
      if value.walked room path then .ok value.tree else .error .recursionError := by
  induction value using ind generalizing path with
  | float value =>
      have hfinite : value.isFinite = true := h
      simp only [canonicalRepr, walked, hfinite, Bool.and_true]
      cases room path (.float value) <;> rfl
  | datetime value =>
      obtain ⟨utc, hutc⟩ := IsCanonicalTime.astimezoneUtc? h
      have haware : value.utcoffset.isNone = false := by
        rw [Option.isNone_eq_false_iff]
        exact IsCanonicalTime.aware h
      simp only [canonicalRepr, walked, haware, hutc, tree, Bool.and_true]
      cases room path (.datetime value) <;> rfl
  | list items ih =>
      have hitems := itemsNormal_iff.mp h
      rw [canonicalRepr, walked, reprItems_eq fun item hitem => ih item hitem (hitems item hitem)]
      cases room path (.list items) with
      | false => rfl
      | true => cases itemsWalked room (.sequence :: path) items <;> rfl
  | tuple items ih =>
      have hitems := itemsNormal_iff.mp h
      rw [canonicalRepr, walked, reprItems_eq fun item hitem => ih item hitem (hitems item hitem)]
      cases room path (.tuple items) with
      | false => rfl
      | true => cases itemsWalked room (.sequence :: path) items <;> rfl
  | mapping entries ih =>
      have hentries := membersNormal_iff.mp h.2
      rw [canonicalRepr, walked,
        reprMembers_eq fun entry hentry => ih entry hentry (hentries entry hentry)]
      cases room path (.mapping entries) with
      | false => rfl
      | true => cases membersWalked room (.mapping :: path) entries <;> rfl
  | record cls fields ih =>
      have hfields := membersNormal_iff.mp h.2
      rw [canonicalRepr, walked,
        reprMembers_eq fun field hfield => ih field hfield (hfields field hfield)]
      cases room path (.record cls fields) with
      | false => rfl
      | true => cases membersWalked room (.record :: path) fields <;> rfl
  | _ =>
      simp only [canonicalRepr, walked, Bool.and_true]
      cases room path _ <;> rfl

/-- The canonical form of a normal value can be written. -/
theorem tree_dumpable (h : value.Normal) : value.tree.Dumpable := by
  induction value using ind with
  | float value => exact h
  | list items ih => exact itemTrees_dumpable h ih
  | tuple items ih => exact itemTrees_dumpable h ih
  | mapping entries ih => exact memberTrees_dumpable h.1 h.2 ih
  | record cls fields ih => exact memberTrees_dumpable h.1 h.2 ih
  | _ => trivial

/-! ## Rearrangements -/

/-- What may be done to a value anywhere inside of it: list the keys of a mapping in another
order, take a list for a tuple or a dataclass for the mapping of its fields, and tell the
time in another zone. -/
inductive Rearranged : PyValue → PyValue → Prop where
  | refl (value : PyValue) : Rearranged value value
  | symm {value other : PyValue} : Rearranged value other → Rearranged other value
  | trans {value other third : PyValue} :
      Rearranged value other → Rearranged other third → Rearranged value third
  | keys {entries others : List (String × PyValue)} :
      entries.Perm others → Rearranged (.mapping entries) (.mapping others)
  | sequence (items : List PyValue) : Rearranged (.list items) (.tuple items)
  | fields (cls : String) (fields : List (String × PyValue)) :
      Rearranged (.record cls fields) (.mapping fields)
  | instant {value other : Datetime} : IsCanonicalTime value → IsCanonicalTime other →
      value.instant = other.instant → Rearranged (.datetime value) (.datetime other)
  | item (before after : List PyValue) {value other : PyValue} : Rearranged value other →
      Rearranged (.list (before ++ value :: after)) (.list (before ++ other :: after))
  | entry (before after : List (String × PyValue)) (key : String) {value other : PyValue} :
      Rearranged value other → Rearranged (.mapping (before ++ (key, value) :: after))
        (.mapping (before ++ (key, other) :: after))

namespace Rearranged

/-- None of the rearrangements leads out of the values the form is defined for. -/
theorem normal_iff (h : Rearranged value other) : value.Normal ↔ other.Normal := by
  induction h with
  | refl value => exact Iff.rfl
  | symm _ ih => exact ih.symm
  | trans _ _ ih ih' => exact ih.trans ih'
  | keys hperm =>
      rw [Normal, Normal, membersNormal_iff, membersNormal_iff, (hperm.map Prod.fst).nodup_iff]
      apply and_congr_right'
      exact forall_congr' fun member => imp_congr_left hperm.mem_iff
  | sequence items => exact Iff.rfl
  | fields cls fields => exact Iff.rfl
  | instant hvalue hother _ => exact iff_of_true hvalue hother
  | item before after _ ih =>
      rw [Normal, Normal, itemsNormal_iff, itemsNormal_iff, List.forall_mem_append,
        List.forall_mem_append, List.forall_mem_cons, List.forall_mem_cons, ih]
  | entry before after key _ ih =>
      rw [Normal, Normal, membersNormal_iff, membersNormal_iff, List.map_append, List.map_append,
        List.forall_mem_append, List.forall_mem_append, List.forall_mem_cons,
        List.forall_mem_cons, ih]
      rfl

/-- A rearrangement keeps the tree up to the order of keys. By induction on the rearrangement:
fields and entries may change places, items may not. -/
theorem sortKeys_eq (h : Rearranged value other) (hvalue : value.Normal) :
    value.tree.sortKeys = other.tree.sortKeys := by
  induction h with
  | refl value => rfl
  | symm hre ih => exact (ih (hre.normal_iff.mpr hvalue)).symm
  | trans hre _ ih ih' => exact (ih hvalue).trans (ih' (hre.normal_iff.mp hvalue))
  | keys hperm =>
      rw [tree, tree, Json.sortKeys_obj_eq_iff (by rw [map_fst_memberTrees]; exact hvalue.1),
        memberTrees_eq, memberTrees_eq]
      exact (hperm.map _).map _
  | sequence items => rfl
  | fields cls fields => rfl
  | instant hvalue hother hinstant =>
      obtain ⟨utc, hutc⟩ := hvalue.astimezoneUtc?
      have hutc' := hutc
      rw [astimezoneUtc?_congr hinstant] at hutc'
      rw [tree, tree, hutc, hutc']
      rfl
  | item before after _ ih =>
      have hitem := itemsNormal_iff.mp hvalue _ (List.mem_append_right before List.mem_cons_self)
      simp only [tree, itemTrees_eq, Json.sortKeys, Json.sortItems_eq, List.map_append,
        List.map_cons, ih hitem]
  | entry before after key _ ih =>
      have hentry := membersNormal_iff.mp hvalue.2 _
        (List.mem_append_right before List.mem_cons_self)
      simp only [tree, memberTrees_eq, Json.sortKeys, Json.sortMembers_eq, List.map_append,
        List.map_cons, ih hentry]

end Rearranged

/-! ## Bytes -/

variable {interpreter : Interpreter} {room : Room} {bytes : List UInt8}

/-- What is written is the bytes of the tree. -/
theorem encodeCanonical_ok_iff {normalized : Json} :
    encodeCanonical interpreter normalized = .ok bytes ↔
      interpreter.encodes (WideJson.ofJson normalized).skeleton = true ∧
        (WideJson.ofJson normalized).fits = true ∧
        VerifierCI.canonicalBytes normalized = bytes := by
  rw [encodeCanonical]
  cases interpreter.encodes (WideJson.ofJson normalized).skeleton <;>
    cases (WideJson.ofJson normalized).fits <;> simp

/-- A normal value has bytes if there is room to walk through it and json.dumps can write
its tree. -/
theorem canonicalBytes_ok_iff (h : value.Normal) :
    value.canonicalBytes interpreter room = .ok bytes ↔
      value.walked room [] = true ∧ encodeCanonical interpreter value.tree = .ok bytes := by
  rw [canonicalBytes, canonicalRepr_eq h]
  cases value.walked room [] with
  | false =>
      constructor
      · intro hbytes
        cases hbytes
      · rintro ⟨hwalked, _⟩
        cases hwalked
  | true =>
      rw [and_iff_right rfl]
      rfl

/-- A normal value is never refused: it can only be too deep or hold too long an integer. -/
theorem canonicalBytes_error {error : Exc} (h : value.Normal)
    (herror : value.canonicalBytes interpreter room = .error error) :
    error ∈ [Exc.recursionError, .valueError] := by
  rw [canonicalBytes, canonicalRepr_eq h] at herror
  cases hwalked : value.walked room [] with
  | false =>
      rw [hwalked] at herror
      obtain rfl := Except.error.inj herror
      decide
  | true =>
      have hencode : encodeCanonical interpreter value.tree = .error error := by
        rw [hwalked] at herror
        exact herror
      rw [encodeCanonical] at hencode
      split_ifs at hencode
      · obtain rfl := Except.error.inj hencode
        decide
      · obtain rfl := Except.error.inj hencode
        decide

/-- Three frames are enough for a list in a dataclass, and too few for one in a mapping. -/
example :
    (record "Pair" [("a", .list [])]).walked (.ofFrames 3) [] = true ∧
      (mapping [("a", .list [])]).walked (.ofFrames 3) [] = false := by
  decide

end PyValue

end VerifierCI
