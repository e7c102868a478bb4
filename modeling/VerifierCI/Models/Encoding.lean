import VerifierCI.Models.Records

/-! # What the encoder writes

The encoder writes every datetime in UTC and everything else as it is. A datetime that
lies before the year 1000 in UTC is written with a year of fewer than four digits.
-/

namespace VerifierCI

open Python

/-! ## Values -/

namespace Value

mutual

def all (key : WideString → Bool) (scalar : Value → Bool) : Value → Bool
  | .tuple items => allItems key scalar items
  | .mapping entries => allEntries key scalar entries
  | .record _ fields => allFields key scalar fields
  | value => scalar value

def allItems (key : WideString → Bool) (scalar : Value → Bool) : List Value → Bool
  | [] => true
  | item :: rest => item.all key scalar && allItems key scalar rest

def allEntries (key : WideString → Bool) (scalar : Value → Bool) :
    List (WideString × Value) → Bool
  | [] => true
  | (name, value) :: rest => (key name && value.all key scalar) && allEntries key scalar rest

def allFields (key : WideString → Bool) (scalar : Value → Bool) : List (String × Value) → Bool
  | [] => true
  | (_, value) :: rest => value.all key scalar && allFields key scalar rest

end

mutual

def utc : Value → Value
  | .datetime value => .datetime (value.astimezoneUtc?.getD value)
  | .tuple items => .tuple (utcItems items)
  | .mapping entries => .mapping (utcEntries entries)
  | .record cls fields => .record cls (utcFields fields)
  | value => value

def utcItems : List Value → List Value
  | [] => []
  | item :: rest => item.utc :: utcItems rest

def utcEntries : List (WideString × Value) → List (WideString × Value)
  | [] => []
  | (key, value) :: rest => (key, value.utc) :: utcEntries rest

def utcFields : List (String × Value) → List (String × Value)
  | [] => []
  | (name, value) :: rest => (name, value.utc) :: utcFields rest

end

mutual

/-- The keys of mappings are listed in order, and no record has a field twice. -/
def WellKeyed : Value → Prop
  | .tuple items => ItemsWellKeyed items
  | .mapping entries => Ordered entries ∧ EntriesWellKeyed entries
  | .record _ fields => (fields.map Prod.fst).Nodup ∧ FieldsWellKeyed fields
  | _ => True

def ItemsWellKeyed : List Value → Prop
  | [] => True
  | item :: rest => item.WellKeyed ∧ ItemsWellKeyed rest

def EntriesWellKeyed : List (WideString × Value) → Prop
  | [] => True
  | (_, value) :: rest => value.WellKeyed ∧ EntriesWellKeyed rest

def FieldsWellKeyed : List (String × Value) → Prop
  | [] => True
  | (_, value) :: rest => value.WellKeyed ∧ FieldsWellKeyed rest

end

section Lists

variable {items : List Value} {entries : List (WideString × Value)}
  {fields : List (String × Value)} {cls : String}

@[simp] theorem all_tuple (key : WideString → Bool) (scalar : Value → Bool) :
    (tuple items).all key scalar = items.all fun item => item.all key scalar := by
  rw [all]
  induction items with
  | nil => rfl
  | cons item rest ih => rw [allItems, ih, List.all_cons]

@[simp] theorem all_mapping (key : WideString → Bool) (scalar : Value → Bool) :
    (mapping entries).all key scalar =
      entries.all fun entry => key entry.1 && entry.2.all key scalar := by
  rw [all]
  induction entries with
  | nil => rfl
  | cons entry rest ih => rw [allEntries, ih, List.all_cons]

@[simp] theorem all_record (key : WideString → Bool) (scalar : Value → Bool) :
    (record cls fields).all key scalar = fields.all fun field => field.2.all key scalar := by
  rw [all]
  induction fields with
  | nil => rfl
  | cons field rest ih => rw [allFields, ih, List.all_cons]

@[simp] theorem utc_tuple : (tuple items).utc = .tuple (items.map utc) := by
  rw [utc]
  congr 1
  induction items with
  | nil => rfl
  | cons item rest ih => rw [utcItems, ih, List.map_cons]

@[simp] theorem utc_mapping :
    (mapping entries).utc = .mapping (entries.map fun entry => (entry.1, entry.2.utc)) := by
  rw [utc]
  congr 1
  induction entries with
  | nil => rfl
  | cons entry rest ih => rw [utcEntries, ih, List.map_cons]

@[simp] theorem utc_record :
    (record cls fields).utc = .record cls (fields.map fun field => (field.1, field.2.utc)) := by
  rw [utc]
  congr 1
  induction fields with
  | nil => rfl
  | cons field rest ih => rw [utcFields, ih, List.map_cons]

@[simp] theorem wellKeyed_tuple : (tuple items).WellKeyed ↔ ∀ item ∈ items, item.WellKeyed := by
  rw [WellKeyed]
  induction items with
  | nil => simp [ItemsWellKeyed]
  | cons item rest ih => rw [ItemsWellKeyed, ih, List.forall_mem_cons]

@[simp] theorem wellKeyed_mapping : (mapping entries).WellKeyed ↔
    Ordered entries ∧ ∀ entry ∈ entries, entry.2.WellKeyed := by
  rw [WellKeyed]
  apply and_congr_right'
  induction entries with
  | nil => simp [EntriesWellKeyed]
  | cons entry rest ih => rw [EntriesWellKeyed, ih, List.forall_mem_cons]

@[simp] theorem wellKeyed_record : (record cls fields).WellKeyed ↔
    (fields.map Prod.fst).Nodup ∧ ∀ field ∈ fields, field.2.WellKeyed := by
  rw [WellKeyed]
  apply and_congr_right'
  induction fields with
  | nil => simp [FieldsWellKeyed]
  | cons field rest ih => rw [FieldsWellKeyed, ih, List.forall_mem_cons]

theorem eq_tuple {others : List Value} :
    (tuple items).eq (.tuple others) = true ↔
      List.Forall₂ (fun item other => item.eq other = true) items others := by
  rw [eq]
  induction items generalizing others with
  | nil => cases others <;> simp [eqItems]
  | cons item rest ih =>
      cases others with
      | nil => simp [eqItems]
      | cons other others => rw [eqItems, Bool.and_eq_true, ih, List.forall₂_cons]

theorem eq_mapping {others : List (WideString × Value)} :
    (mapping entries).eq (.mapping others) = true ↔ List.Forall₂ (fun entry other =>
      entry.1 = other.1 ∧ entry.2.eq other.2 = true) entries others := by
  rw [eq]
  induction entries generalizing others with
  | nil => cases others <;> simp [eqEntries]
  | cons entry rest ih =>
      cases others with
      | nil => simp [eqEntries]
      | cons other others =>
          rw [eqEntries, Bool.and_eq_true, Bool.and_eq_true, beq_iff_eq, ih, List.forall₂_cons]

theorem eq_record {cls' : String} {others : List (String × Value)} :
    (record cls fields).eq (.record cls' others) = true ↔ cls = cls' ∧
      List.Forall₂ (fun field other => field.1 = other.1 ∧ field.2.eq other.2 = true)
        fields others := by
  rw [eq, Bool.and_eq_true, beq_iff_eq]
  apply and_congr_right'
  induction fields generalizing others with
  | nil => cases others <;> simp [eqFields]
  | cons field rest ih =>
      cases others with
      | nil => simp [eqFields]
      | cons other others =>
          rw [eqFields, Bool.and_eq_true, Bool.and_eq_true, beq_iff_eq, ih, List.forall₂_cons]

end Lists

end Value

/-! ## Canonical values -/

section Repr

variable {json : WideJson}

theorem canonicalRepr_float_ok_iff {value : PyFloat} :
    canonicalRepr (.float value) = .ok json ↔ value.isFinite = true ∧ .float value = json := by
  rw [canonicalRepr]
  cases value.isFinite <;> simp [raiseWith]

theorem canonicalRepr_datetime_ok_iff {value : Datetime} :
    canonicalRepr (.datetime value) = .ok json ↔ value.utcoffset.isSome = true ∧
      ∃ utc, value.astimezoneUtc? = some utc ∧ .str ((utcText utc).map codePoint) = json := by
  rw [canonicalRepr]
  cases hoffset : value.utcoffset with
  | none => simp [raiseWith]
  | some offset => cases value.astimezoneUtc? <;> simp

/-- A tuple is written as the array of what its items are written as. -/
theorem canonicalRepr_tuple_ok_iff {items : List Value} :
    canonicalRepr (.tuple items) = .ok json ↔ ∃ others,
      List.Forall₂ (fun item other => canonicalRepr item = .ok other) items others ∧
        .arr others = json := by
  have hitems : ∀ others, reprItems items = .ok others ↔
      List.Forall₂ (fun item other => canonicalRepr item = .ok other) items others := by
    induction items with
    | nil =>
        intro others
        rw [reprItems, List.forall₂_nil_left_iff, Except.ok.injEq]
        exact eq_comm
    | cons item rest ih =>
        intro others
        simp only [reprItems, bind_eq_ok, Except.ok.injEq, List.forall₂_cons_left_iff, ih]
        constructor
        · rintro ⟨head, hhead, tail, htail, rfl⟩
          exact ⟨head, tail, hhead, htail, rfl⟩
        · rintro ⟨head, tail, hhead, htail, rfl⟩
          exact ⟨head, hhead, tail, htail, rfl⟩
  rw [canonicalRepr]
  simp only [bind_eq_ok, hitems, Except.ok.injEq]

/-- A mapping keeps its keys and is written entry by entry. -/
theorem canonicalRepr_mapping_ok_iff {entries : List (WideString × Value)} :
    canonicalRepr (.mapping entries) = .ok json ↔ ∃ members,
      List.Forall₂ (fun entry member => member.1 = entry.1 ∧
        canonicalRepr entry.2 = .ok member.2) entries members ∧ .obj members = json := by
  have hentries : ∀ members, reprEntries entries = .ok members ↔
      List.Forall₂ (fun entry member => member.1 = entry.1 ∧
        canonicalRepr entry.2 = .ok member.2) entries members := by
    induction entries with
    | nil =>
        intro members
        rw [reprEntries, List.forall₂_nil_left_iff, Except.ok.injEq]
        exact eq_comm
    | cons entry rest ih =>
        intro members
        simp only [reprEntries, bind_eq_ok, Except.ok.injEq, List.forall₂_cons_left_iff, ih]
        constructor
        · rintro ⟨value, hvalue, tail, htail, rfl⟩
          exact ⟨(entry.1, value), tail, ⟨rfl, hvalue⟩, htail, rfl⟩
        · rintro ⟨⟨_, value⟩, tail, ⟨rfl, hvalue⟩, htail, rfl⟩
          exact ⟨value, hvalue, tail, htail, rfl⟩
  rw [canonicalRepr]
  simp only [bind_eq_ok, hentries, Except.ok.injEq]

/-- A record is written as the dictionary of its fields. -/
theorem canonicalRepr_record_ok_iff {cls : String} {fields : List (String × Value)} :
    canonicalRepr (.record cls fields) = .ok json ↔ ∃ members,
      List.Forall₂ (fun field member => member.1 = wide field.1 ∧
        canonicalRepr field.2 = .ok member.2) fields members ∧ .obj (dict members) = json := by
  have hfields : ∀ members, reprFields fields = .ok members ↔
      List.Forall₂ (fun field member => member.1 = wide field.1 ∧
        canonicalRepr field.2 = .ok member.2) fields members := by
    induction fields with
    | nil =>
        intro members
        rw [reprFields, List.forall₂_nil_left_iff, Except.ok.injEq]
        exact eq_comm
    | cons field rest ih =>
        intro members
        simp only [reprFields, bind_eq_ok, Except.ok.injEq, List.forall₂_cons_left_iff, ih]
        constructor
        · rintro ⟨value, hvalue, tail, htail, rfl⟩
          exact ⟨(wide field.1, value), tail, ⟨rfl, hvalue⟩, htail, rfl⟩
        · rintro ⟨⟨_, value⟩, tail, ⟨rfl, hvalue⟩, htail, rfl⟩
          exact ⟨value, hvalue, tail, htail, rfl⟩
  rw [canonicalRepr]
  simp only [bind_eq_ok, hfields, Except.ok.injEq]

theorem nodup_of_fields {fields : List (String × Value)} {members : List (WideString × WideJson)}
    (h : List.Forall₂ (fun field member => member.1 = wide field.1 ∧
      canonicalRepr field.2 = .ok member.2) fields members) (hnodup : (fields.map Prod.fst).Nodup) :
    (members.map Prod.fst).Nodup := by
  have hkeys : members.map Prod.fst = (fields.map Prod.fst).map wide := by
    rw [List.map_map]
    exact (map_eq_of_forall₂ h fun field _ member hmember => hmember.1.symm).symm
  rw [hkeys]
  exact hnodup.map wide_injective

/-- Floats are finite in what the encoder writes. Infinities and NaN are refused wherever they
stand in a value. -/
theorem canonicalRepr_finite {value : Value} (h : canonicalRepr value = .ok json) :
    json.finite = true := by
  induction value using Value.ind generalizing json with
  | float x =>
      obtain ⟨hx, rfl⟩ := canonicalRepr_float_ok_iff.mp h
      exact hx
  | datetime date =>
      obtain ⟨_, utc, _, rfl⟩ := canonicalRepr_datetime_ok_iff.mp h
      rfl
  | tuple items ih =>
      obtain ⟨others, hothers, rfl⟩ := canonicalRepr_tuple_ok_iff.mp h
      rw [WideJson.finite, WideJson.all_arr, List.all_eq_true]
      intro other hother
      obtain ⟨item, hitem, hrepr⟩ := exists_of_mem_forall₂ hothers.flip hother
      exact ih item hitem hrepr
  | mapping entries ih =>
      obtain ⟨members, hmembers, rfl⟩ := canonicalRepr_mapping_ok_iff.mp h
      rw [WideJson.finite, WideJson.all_obj, List.all_eq_true]
      intro member hmember
      obtain ⟨entry, hentry, _, hrepr⟩ := exists_of_mem_forall₂ hmembers.flip hmember
      exact ih entry hentry hrepr
  | record cls fields ih =>
      obtain ⟨members, hmembers, rfl⟩ := canonicalRepr_record_ok_iff.mp h
      rw [WideJson.finite, WideJson.all_obj, List.all_eq_true]
      intro member hmember
      obtain ⟨field, hfield, _, hrepr⟩ := exists_of_mem_forall₂ hmembers.flip (mem_dict.mp hmember)
      exact ih field hfield hrepr
  | _ =>
      obtain rfl := Except.ok.inj h
      rfl

/-- What the encoder writes lists its keys in order. No key is repeated, as none is in the
value. -/
theorem canonicalRepr_canonical {value : Value} (hkeyed : value.WellKeyed)
    (h : canonicalRepr value = .ok json) : json.Canonical := by
  induction value using Value.ind generalizing json with
  | float x =>
      obtain ⟨_, rfl⟩ := canonicalRepr_float_ok_iff.mp h
      trivial
  | datetime date =>
      obtain ⟨_, utc, _, rfl⟩ := canonicalRepr_datetime_ok_iff.mp h
      trivial
  | tuple items ih =>
      obtain ⟨others, hothers, rfl⟩ := canonicalRepr_tuple_ok_iff.mp h
      rw [Value.wellKeyed_tuple] at hkeyed
      rw [WideJson.canonical_arr]
      intro other hother
      obtain ⟨item, hitem, hrepr⟩ := exists_of_mem_forall₂ hothers.flip hother
      exact ih item hitem (hkeyed item hitem) hrepr
  | mapping entries ih =>
      obtain ⟨members, hmembers, rfl⟩ := canonicalRepr_mapping_ok_iff.mp h
      rw [Value.wellKeyed_mapping] at hkeyed
      rw [WideJson.canonical_obj]
      constructor
      · apply hkeyed.1.of_keys_eq
        exact map_eq_of_forall₂ hmembers.flip fun member _ entry hmember => hmember.1
      · intro member hmember
        obtain ⟨entry, hentry, _, hrepr⟩ := exists_of_mem_forall₂ hmembers.flip hmember
        exact ih entry hentry (hkeyed.2 entry hentry) hrepr
  | record cls fields ih =>
      obtain ⟨members, hmembers, rfl⟩ := canonicalRepr_record_ok_iff.mp h
      rw [Value.wellKeyed_record] at hkeyed
      rw [WideJson.canonical_obj]
      constructor
      -- the fields of a record are named apart, and their dictionary is sorted
      · exact ordered_dict (nodup_of_fields hmembers hkeyed.1)
      · intro member hmember
        obtain ⟨field, hfield, _, hrepr⟩ :=
          exists_of_mem_forall₂ hmembers.flip (mem_dict.mp hmember)
        exact ih field hfield (hkeyed.2 field hfield) hrepr
  | _ =>
      obtain rfl := Except.ok.inj h
      trivial

end Repr

/-- The bytes of a record are those of a JSON text that reads as what the encoder writes. -/
theorem encodeRecord_ok {interpreter : Interpreter} {record : Value} {bytes : List UInt8}
    (hkeyed : record.WellKeyed) (h : encodeRecord interpreter record = .ok bytes) :
    ∃ json text, canonicalRepr record = .ok json ∧ text.Dumpable ∧ WideJson.ofJson text = json ∧
      canonicalBytes text = bytes := by
  obtain ⟨json, hjson, h⟩ := bind_eq_ok.mp h
  split_ifs at h
  cases hnarrow : json.narrow with
  | none =>
      rw [hnarrow] at h
      cases h
  | some text =>
      rw [hnarrow] at h
      have hcanonical := canonicalRepr_canonical hkeyed hjson
      exact ⟨json, text, hjson, WideJson.dumpable_of_narrow hcanonical (canonicalRepr_finite hjson)
        hnarrow, WideJson.ofJson_of_narrow hcanonical hnarrow, Except.ok.inj h⟩

end VerifierCI
