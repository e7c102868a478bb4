import VerifierCI.Python.WideLoads

/-! # Plain `json.loads`

Without a hook the later of two equal keys counts. The interpreter bounds the
nesting of arrays and objects and the digits of an integer; the second bound is
reported like a syntax error, the first one is not. Lone surrogates are kept.
-/

namespace Python

namespace WideJson

/-- Why a text cannot be read. -/
inductive ReadError where
  /-- `JSONDecodeError`, or the `ValueError` of a number with too many digits. -/
  | valueError
  | recursionError
deriving DecidableEq, Repr

def loadString (text : List Char) : Except ReadError (WideString × List Char) :=
  match readCharacters (text.length + 1) text with
  | none => .error .valueError
  | some result => .ok result

def loadScalar : List Char → Except ReadError (WideJson × List Char)
  | '"' :: rest => do
      let (value, rest) ← loadString rest
      .ok (.str value, rest)
  | text =>
      match Json.readKeyword text with
      | some (value, rest) => .ok (ofJson value, rest)
      | none =>
          match NumberText.scan text with
          | none => .error .valueError
          | some (number, rest) =>
              match number.toInt? with
              | none => .ok (.float number.toFloat, rest)
              | some value =>
                  if Json.maxDigits < number.whole.length then .error .valueError
                  else .ok (.int value, rest)

/-- `d[key] = value`. -/
def setMember (members : List (WideString × WideJson)) (member : WideString × WideJson) :
    List (WideString × WideJson) :=
  if members.any fun other => other.1 = member.1 then
    members.map fun other => if other.1 = member.1 then member else other
  else members ++ [member]

section Load

variable (load : List Char → Except ReadError (WideJson × List Char))

/-- The items of an array up to its closing bracket, of which there is one. -/
def loadItems : Nat → List Char → Except ReadError (List WideJson × List Char)
  | 0, _ => .error .valueError
  | fuel + 1, text => do
      let (item, rest) ← load text
      match Json.skipSpace rest with
      | ']' :: rest => .ok ([item], rest)
      | ',' :: rest => do
          let (items, rest) ← loadItems fuel (Json.skipSpace rest)
          .ok (item :: items, rest)
      | _ => .error .valueError

def loadMembers : Nat → List Char → Except ReadError (List (WideString × WideJson) × List Char)
  | 0, _ => .error .valueError
  | fuel + 1, text =>
      match text with
      | '"' :: rest => do
          let (key, rest) ← loadString rest
          match Json.skipSpace rest with
          | ':' :: rest => do
              let (value, rest) ← load (Json.skipSpace rest)
              match Json.skipSpace rest with
              | '}' :: rest => .ok ([(key, value)], rest)
              | ',' :: rest => do
                  let (members, rest) ← loadMembers fuel (Json.skipSpace rest)
                  .ok ((key, value) :: members, rest)
              | _ => .error .valueError
          | _ => .error .valueError
      | _ => .error .valueError

end Load

/-- A value with at most so many levels of nesting, in a text of at most `size`
characters. -/
def loadValue (size : Nat) : Nat → List Char → Except ReadError (WideJson × List Char)
  | _, [] => .error .valueError
  | 0, c :: rest => if c = '[' ∨ c = '{' then .error .recursionError else loadScalar (c :: rest)
  | depth + 1, '[' :: rest =>
      match Json.skipSpace rest with
      | ']' :: rest => .ok (.arr [], rest)
      | rest => do
          let (items, rest) ← loadItems (loadValue size depth) size rest
          .ok (.arr items, rest)
  | depth + 1, '{' :: rest =>
      match Json.skipSpace rest with
      | '}' :: rest => .ok (.obj [], rest)
      | rest => do
          let (members, rest) ← loadMembers (loadValue size depth) size rest
          .ok (.obj (members.foldl setMember []), rest)
  | _ + 1, text => loadScalar text

/-- `json.loads(text)`. -/
def loadsPlain (maxNesting : Nat) (text : List Char) : Except ReadError WideJson := do
  let (value, rest) ← loadValue (text.length + 1) maxNesting (Json.skipSpace text)
  if (Json.skipSpace rest).isEmpty then .ok value else .error .valueError

/-! ## The size of what is read -/

section Size

variable {load : List Char → Except ReadError (WideJson × List Char)} {text rest : List Char}

/-- Every item of an array takes some fuel, and so some of the text. -/
theorem loadItems_length {fuel : Nat} {items : List WideJson}
    (h : loadItems load fuel text = .ok (items, rest)) : items.length ≤ fuel := by
  induction fuel generalizing text rest items with
  | zero => cases h
  | succ fuel ih =>
      obtain ⟨⟨item, after⟩, _, h⟩ := Json.of_bind_eq_ok h
      dsimp only at h
      split at h
      · obtain ⟨rfl, _⟩ := Prod.mk.inj (Except.ok.inj h)
        simp
      · obtain ⟨⟨others, after'⟩, hothers, h⟩ := Json.of_bind_eq_ok h
        obtain ⟨rfl, _⟩ := Prod.mk.inj (Except.ok.inj h)
        have hle := ih hothers
        simp only [List.length_cons]
        omega
      · cases h

/-- The value of every member was read from some part of the text. By induction on the fuel, one
member at a time. -/
theorem loadMembers_value {fuel : Nat} {members : List (WideString × WideJson)}
    (h : loadMembers load fuel text = .ok (members, rest)) :
    ∀ member ∈ members, ∃ before after, load before = .ok (member.2, after) := by
  induction fuel generalizing text rest members with
  | zero => cases h
  | succ fuel ih =>
      unfold loadMembers at h
      split at h
      · obtain ⟨⟨key, afterKey⟩, _, h⟩ := Json.of_bind_eq_ok h
        dsimp only at h
        split at h
        · obtain ⟨⟨value, afterValue⟩, hvalue, h⟩ := Json.of_bind_eq_ok h
          dsimp only at h
          split at h
          · obtain ⟨rfl, _⟩ := Prod.mk.inj (Except.ok.inj h)
            intro member hmember
            obtain rfl := List.mem_singleton.mp hmember
            exact ⟨_, _, hvalue⟩
          · obtain ⟨⟨others, after⟩, hothers, h⟩ := Json.of_bind_eq_ok h
            obtain ⟨rfl, _⟩ := Prod.mk.inj (Except.ok.inj h)
            intro member hmember
            rcases List.mem_cons.mp hmember with rfl | hmember
            · exact ⟨_, _, hvalue⟩
            · exact ih hothers member hmember
          · cases h
        · cases h
      · cases h

theorem mem_setMember {members : List (WideString × WideJson)}
    {member other : WideString × WideJson}
    (h : other ∈ setMember members member) : other = member ∨ other ∈ members := by
  unfold setMember at h
  split at h
  · obtain ⟨old, hold, rfl⟩ := List.mem_map.mp h
    split
    · exact Or.inl rfl
    · exact Or.inr hold
  · rcases List.mem_append.mp h with h | h
    · exact Or.inr h
    · exact Or.inl (List.mem_singleton.mp h)

theorem mem_foldl_setMember {members stored : List (WideString × WideJson)}
    {other : WideString × WideJson}
    (h : other ∈ members.foldl setMember stored) : other ∈ members ∨ other ∈ stored := by
  induction members generalizing stored with
  | nil => exact Or.inr h
  | cons member rest ih =>
      rcases ih h with hrest | hstored
      · exact Or.inl (List.mem_cons_of_mem member hrest)
      · rcases mem_setMember hstored with rfl | hold
        · exact Or.inl List.mem_cons_self
        · exact Or.inr hold

/-- Neither an array nor an object. -/
def IsScalar : WideJson → Prop
  | .arr _ => False
  | .obj _ => False
  | _ => True

theorem isScalar_ofJson {value : Json} (h : value.IsScalar) : (ofJson value).IsScalar := by
  cases value with
  | arr items => exact h.elim
  | obj members => exact h.elim
  | _ => exact trivial

theorem loadScalar_isScalar {value : WideJson} (h : loadScalar text = .ok (value, rest)) :
    value.IsScalar := by
  unfold loadScalar at h
  split at h
  · obtain ⟨⟨word, after⟩, _, h⟩ := Json.of_bind_eq_ok h
    obtain ⟨rfl, _⟩ := Prod.mk.inj (Except.ok.inj h)
    exact trivial
  · split at h
    next value' after hkeyword =>
      obtain ⟨rfl, _⟩ := Prod.mk.inj (Except.ok.inj h)
      exact isScalar_ofJson (Json.readKeyword_isScalar hkeyword)
    next =>
      split at h
      · cases h
      · split at h
        · obtain ⟨rfl, _⟩ := Prod.mk.inj (Except.ok.inj h)
          exact trivial
        · split at h
          · cases h
          · obtain ⟨rfl, _⟩ := Prod.mk.inj (Except.ok.inj h)
            exact trivial

/-- The items of an array are bounded by the length of the text it is read from. -/
theorem loadValue_arr {size depth : Nat} {items : List WideJson}
    (h : loadValue size depth text = .ok (.arr items, rest)) : items.length ≤ size := by
  unfold loadValue at h
  split at h
  · cases h
  · split at h
    · cases h
    · exact (loadScalar_isScalar h).elim
  · split at h
    · obtain ⟨hitems, _⟩ := Prod.mk.inj (Except.ok.inj h)
      cases hitems
      exact Nat.zero_le size
    · obtain ⟨⟨others, after⟩, hothers, h⟩ := Json.of_bind_eq_ok h
      obtain ⟨hitems, _⟩ := Prod.mk.inj (Except.ok.inj h)
      cases hitems
      exact loadItems_length hothers
  · split at h
    · cases h
    · obtain ⟨⟨others, after⟩, _, h⟩ := Json.of_bind_eq_ok h
      cases h
  · exact (loadScalar_isScalar h).elim

/-- The arrays an object holds have no more items than the text has characters. An array is
found as the value of a member, and each of its items takes a character at least. -/
theorem loadsPlain_items {maxNesting : Nat} {members : List (WideString × WideJson)}
    {key : WideString}
    {items : List WideJson} (h : loadsPlain maxNesting text = .ok (.obj members))
    (hkey : members.lookup key = some (.arr items)) : items.length ≤ text.length + 1 := by
  obtain ⟨⟨value, after⟩, hvalue, h⟩ := Json.of_bind_eq_ok h
  dsimp only at h
  split at h
  next =>
    obtain rfl := Except.ok.inj h
    have hmem : (key, WideJson.arr items) ∈ members := by
      obtain ⟨before, later, rfl, _⟩ := List.lookup_eq_some_iff.mp hkey
      exact List.mem_append_right _ List.mem_cons_self
    unfold loadValue at hvalue
    split at hvalue
    · cases hvalue
    · split at hvalue
      · cases hvalue
      · exact (loadScalar_isScalar hvalue).elim
    · split at hvalue
      · cases hvalue
      · obtain ⟨⟨others, after'⟩, _, h⟩ := Json.of_bind_eq_ok hvalue
        cases h
    · split at hvalue
      · obtain ⟨hmembers, _⟩ := Prod.mk.inj (Except.ok.inj hvalue)
        cases hmembers
        cases hmem
      · obtain ⟨⟨others, after'⟩, hothers, h⟩ := Json.of_bind_eq_ok hvalue
        obtain ⟨hmembers, _⟩ := Prod.mk.inj (Except.ok.inj h)
        cases hmembers
        -- A member of the object was read somewhere, and its text is part of the text.
        rcases mem_foldl_setMember hmem with hmem | hmem
        · obtain ⟨before, after'', hload⟩ := loadMembers_value hothers _ hmem
          exact loadValue_arr hload
        · cases hmem
    · exact (loadScalar_isScalar hvalue).elim
  next => cases h

end Size

end WideJson

end Python
