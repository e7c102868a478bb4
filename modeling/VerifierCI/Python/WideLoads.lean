import VerifierCI.Python.WideJson

/-! # Reading with a hook

`json.loads` with a hook that refuses repeated keys. Where the reader that knows no lone
surrogates succeeds, this one reads the same value, so it reads back what was written.
-/

namespace Python

namespace WideJson

/-- Why a text is refused. -/
inductive LoadError where
  /-- `JSONDecodeError`, or the `ValueError` of a number with too many digits. -/
  | valueError
  | recursionError
  /-- The hook's, which is called on the members of every object. -/
  | duplicateKey (key : WideString)
deriving DecidableEq, Repr

/-- The code point of a `\u` escape. Two escaped surrogates make one code point. -/
def readUnicode (text : List Char) : Option (CodePoint × List Char) := do
  let (high, rest) ← Json.readHex text
  if 0xd800 ≤ high ∧ high < 0xdc00 then
    match rest with
    | '\\' :: 'u' :: escaped => do
        let (low, behind) ← Json.readHex escaped
        if 0xdc00 ≤ low ∧ low < 0xe000 then
          some (Fin.ofNat _ (0x10000 + (high - 0xd800) * 0x400 + (low - 0xdc00)), behind)
        else some (Fin.ofNat _ high, rest)
    | rest => some (Fin.ofNat _ high, rest)
  else some (Fin.ofNat _ high, rest)

def readChar : List Char → Option (CodePoint × List Char)
  | '\\' :: 'u' :: rest => readUnicode rest
  | text => do
      let (c, rest) ← Json.readChar text
      some (codePoint c, rest)

def readCharacters : Nat → List Char → Option (WideString × List Char)
  | 0, _ => none
  | fuel + 1, text =>
      match text with
      | '"' :: rest => some ([], rest)
      | text => do
          let (c, rest) ← readChar text
          let (cs, rest) ← readCharacters fuel rest
          some (c :: cs, rest)

def readString (text : List Char) : Except LoadError (WideString × List Char) :=
  match readCharacters (text.length + 1) text with
  | none => .error .valueError
  | some result => .ok result

def readScalar (text : List Char) : Except LoadError (WideJson × List Char) :=
  match Json.readScalar text with
  | .error _ => .error .valueError
  | .ok (.int value, rest) =>
      if digitsFit value then .ok (.int value, rest) else .error .valueError
  | .ok (value, rest) => .ok (ofJson value, rest)

/-- `_json_no_duplicates(ordered_pairs)`. -/
def jsonNoDuplicates (members : List (WideString × WideJson)) : Except LoadError WideJson :=
  match firstDuplicate? [] (members.map Prod.fst) with
  | some key => .error (.duplicateKey key)
  | none => .ok (.obj (dict members))

mutual

def readValue : Nat → List Char → Except LoadError (WideJson × List Char)
  | 0, _ => .error .valueError
  | fuel + 1, text =>
      match text with
      | '"' :: rest => do
          let (value, rest) ← readString rest
          .ok (.str value, rest)
      | '[' :: rest =>
          match Json.skipSpace rest with
          | ']' :: rest => .ok (.arr [], rest)
          | rest => do
              let (items, rest) ← readItems fuel rest
              .ok (.arr items, rest)
      | '{' :: rest =>
          match Json.skipSpace rest with
          | '}' :: rest => .ok (.obj [], rest)
          | rest => do
              let (members, rest) ← readMembers fuel rest
              let value ← jsonNoDuplicates members
              .ok (value, rest)
      | text => readScalar text

/-- The items of an array up to its closing bracket, of which there is one. -/
def readItems : Nat → List Char → Except LoadError (List WideJson × List Char)
  | 0, _ => .error .valueError
  | fuel + 1, text => do
      let (item, rest) ← readValue fuel text
      match Json.skipSpace rest with
      | ']' :: rest => .ok ([item], rest)
      | ',' :: rest => do
          let (items, rest) ← readItems fuel (Json.skipSpace rest)
          .ok (item :: items, rest)
      | _ => .error .valueError

def readMembers : Nat → List Char →
    Except LoadError (List (WideString × WideJson) × List Char)
  | 0, _ => .error .valueError
  | fuel + 1, text =>
      match text with
      | '"' :: rest => do
          let (key, rest) ← readString rest
          match Json.skipSpace rest with
          | ':' :: rest => do
              let (value, rest) ← readValue fuel (Json.skipSpace rest)
              match Json.skipSpace rest with
              | '}' :: rest => .ok ([(key, value)], rest)
              | ',' :: rest => do
                  let (members, rest) ← readMembers fuel (Json.skipSpace rest)
                  .ok ((key, value) :: members, rest)
              | _ => .error .valueError
          | _ => .error .valueError
      | _ => .error .valueError

end

/-- `json.loads(text, object_pairs_hook=_json_no_duplicates)` by an interpreter that
follows so many levels of nesting. -/
def loads (maxNesting : Nat) (text : List Char) : Except LoadError WideJson := do
  let text := Json.skipSpace text
  let (value, rest) ← readValue (text.length + 1) text
  if (Json.skipSpace rest).isEmpty then
    if value.depth ≤ maxNesting then .ok value else .error .recursionError
  else .error .valueError

/-! ## Agreement with the reader of characters -/

theorem hexValue?_lt {c : Char} {n : Nat} (h : Json.hexValue? c = some n) : n < 16 := by
  unfold Json.hexValue? at h
  have hnat : ∀ {a b : Char}, a ≤ b → a.toNat ≤ b.toNat := fun h => h
  split at h
  next hc =>
    obtain rfl := Option.some.inj h
    have hle := hnat hc.2
    have hnine : '9'.toNat = 57 := rfl
    omega
  next =>
    split at h
    next hc =>
      obtain rfl := Option.some.inj h
      have hle := hnat hc.2
      have hf : 'f'.toNat = 102 := rfl
      omega
    next =>
      split at h
      next hc =>
        obtain rfl := Option.some.inj h
        have hle := hnat hc.2
        have hf : 'F'.toNat = 70 := rfl
        omega
      next => cases h

theorem readHex_lt {text rest : List Char} {n : Nat} (h : Json.readHex text = some (n, rest)) :
    n < 0x10000 := by
  unfold Json.readHex at h
  split at h
  next a b c d tail =>
    simp only [Option.bind_eq_bind, Option.bind_eq_some_iff, Option.some_inj,
      Prod.mk.injEq] at h
    obtain ⟨a, ha, b, hb, c, hc, d, hd, rfl, _⟩ := h
    have ha := hexValue?_lt ha
    have hb := hexValue?_lt hb
    have hc := hexValue?_lt hc
    have hd := hexValue?_lt hd
    omega
  next => cases h

theorem ofNat_eq_codePoint {n : Nat} (h : n.isValidChar) :
    (Fin.ofNat 0x110000 n) = codePoint (Char.ofNat n) := by
  apply Fin.ext
  have hval : (codePoint (Char.ofNat n)).val = (Char.ofNat n).toNat := rfl
  rw [hval, toNat_ofNat_of_valid h, Fin.val_ofNat]
  apply Nat.mod_eq_of_lt
  rcases h with h | h
  · omega
  · exact h.2

/-- Where the reader with characters succeeds there is no lone surrogate, and both read the
same. -/
theorem readUnicode_eq {text rest : List Char} {c : Char}
    (h : Json.readUnicode text = some (c, rest)) : readUnicode text = some (codePoint c, rest) := by
  unfold Json.readUnicode at h
  unfold readUnicode
  cases hhex : Json.readHex text with
  | none => rw [hhex] at h; cases h
  | some result =>
      obtain ⟨high, behind⟩ := result
      have hlt := readHex_lt hhex
      rw [hhex] at h
      simp only [Option.bind_eq_bind, Option.bind_some] at h ⊢
      split at h
      next hhigh =>
        rw [if_pos hhigh]
        split at h
        next escaped =>
          cases hlow : Json.readHex escaped with
          | none => rw [hlow] at h; cases h
          | some result =>
              obtain ⟨low, after⟩ := result
              simp only [hlow, Option.bind_some] at h ⊢
              split at h
              next hrange =>
                rw [if_pos hrange]
                obtain ⟨rfl, rfl⟩ := Prod.mk.inj (Option.some.inj h)
                rw [ofNat_eq_codePoint (Or.inr ⟨by omega, by omega⟩)]
              next => cases h
        next => cases h
      next hhigh =>
        rw [if_neg hhigh]
        split at h
        next => cases h
        next hlow =>
          obtain ⟨rfl, rfl⟩ := Prod.mk.inj (Option.some.inj h)
          rw [ofNat_eq_codePoint]
          simp only [Nat.isValidChar]
          omega

theorem readChar_eq {text rest : List Char} {c : Char} (h : Json.readChar text = some (c, rest)) :
    readChar text = some (codePoint c, rest) := by
  unfold readChar
  split
  next escaped => exact readUnicode_eq h
  next =>
    rw [h]
    rfl

theorem readCharacters_eq {fuel : Nat} {text rest cs : List Char}
    (h : Json.readCharacters fuel text = some (cs, rest)) :
    readCharacters fuel text = some (cs.map codePoint, rest) := by
  induction fuel generalizing text cs with
  | zero => cases h
  | succ fuel ih =>
      unfold Json.readCharacters at h
      split at h
      next after =>
        obtain ⟨rfl, rfl⟩ := Prod.mk.inj (Option.some.inj h)
        rfl
      next hquote =>
        unfold readCharacters
        simp only [Option.bind_eq_bind, Option.bind_eq_some_iff, Option.some_inj,
          Prod.mk.injEq] at h
        obtain ⟨⟨c, after⟩, hchar, ⟨others, after'⟩, hothers, rfl, rfl⟩ := h
        split
        next => exact absurd rfl (hquote _)
        next => simp [readChar_eq hchar, ih hothers]

theorem readString_eq {text rest : List Char} {value : String}
    (h : Json.readString text = .ok (value, rest)) :
    readString text = .ok (wide value, rest) := by
  unfold Json.readString at h
  unfold readString
  cases hread : Json.readCharacters (text.length + 1) text with
  | none => rw [hread] at h; cases h
  | some result =>
      rw [hread] at h
      obtain ⟨rfl, rfl⟩ := Prod.mk.inj (Except.ok.inj h)
      rw [readCharacters_eq hread, wide, String.toList_ofList]

theorem readScalar_eq {text rest : List Char} {value : Json}
    (h : Json.readScalar text = .ok (value, rest)) (hfits : (ofJson value).fits = true) :
    readScalar text = .ok (ofJson value, rest) := by
  unfold readScalar
  rw [h]
  cases value with
  | int value => exact if_pos hfits
  | _ => rfl

/-- The hook refuses the same objects whichever strings it compares. -/
theorem jsonNoDuplicates_eq {members : List (String × Json)} {value : Json}
    (h : Json.jsonNoDuplicates members = .ok value) :
    value = .obj members ∧ jsonNoDuplicates (ofMembers members) = .ok (ofJson value) := by
  unfold Json.jsonNoDuplicates at h
  split at h
  next => cases h
  next hnone =>
    obtain rfl := Except.ok.inj h
    have hnodup := (firstDuplicate?_eq_none_iff.mp hnone).1
    have hkeys : (ofMembers members).map Prod.fst = (members.map Prod.fst).map wide := by
      rw [ofMembers_eq, List.map_map, List.map_map]
      rfl
    have hwide : firstDuplicate? [] ((ofMembers members).map Prod.fst) = none := by
      rw [hkeys]
      exact firstDuplicate?_eq_none_iff.mpr ⟨hnodup.map wide_injective, by simp⟩
    exact ⟨rfl, by simp only [jsonNoDuplicates, hwide, ofJson]⟩

/-- With this much fuel the two readers agree. -/
structure Agrees (fuel : Nat) : Prop where
  value : ∀ {text rest : List Char} {value : Json}, Json.readValue fuel text = .ok (value, rest) →
    (ofJson value).fits = true → readValue fuel text = .ok (ofJson value, rest)
  items : ∀ {text rest : List Char} {items : List Json},
    Json.readItems fuel text = .ok (items, rest) → (∀ item ∈ items, (ofJson item).fits = true) →
    readItems fuel text = .ok (ofItems items, rest)
  members : ∀ {text rest : List Char} {members : List (String × Json)},
    Json.readMembers fuel text = .ok (members, rest) →
    (∀ member ∈ members, (ofJson member.2).fits = true) →
    readMembers fuel text = .ok (ofMembers members, rest)

section Agrees

variable {fuel : Nat} {text rest : List Char}

theorem fits_arr {items : List Json} :
    (ofJson (.arr items)).fits = true ↔ ∀ item ∈ items, (ofJson item).fits = true := by
  simp [ofJson, ofItems_eq, fits]

theorem fits_obj {members : List (String × Json)} :
    (ofJson (.obj members)).fits = true ↔ ∀ member ∈ members, (ofJson member.2).fits = true := by
  simp only [ofJson, ofMembers_eq, fits, all_obj, List.all_eq_true, Bool.true_and, mem_dict,
    List.forall_mem_map]

/-- One more level of fuel: a value is read through its items, its members or as a scalar. -/
theorem Agrees.value_succ (ih : Agrees fuel) {value : Json}
    (h : Json.readValue (fuel + 1) text = .ok (value, rest))
    (hfits : (ofJson value).fits = true) :
    readValue (fuel + 1) text = .ok (ofJson value, rest) := by
  -- Both readers branch on the same character; only numbers and strings are read apart.
  unfold Json.readValue at h
  split at h
  next after =>
    obtain ⟨⟨word, after'⟩, hword, h⟩ := Json.of_bind_eq_ok h
    obtain ⟨rfl, rfl⟩ := Prod.mk.inj (Except.ok.inj h)
    rw [readValue, readString_eq hword]
    rfl
  next after =>
    split at h
    next empty hempty =>
      obtain ⟨rfl, rfl⟩ := Prod.mk.inj (Except.ok.inj h)
      rw [readValue, hempty]
      rfl
    next body hbody =>
      obtain ⟨⟨items, after'⟩, hitems, h⟩ := Json.of_bind_eq_ok h
      obtain ⟨rfl, rfl⟩ := Prod.mk.inj (Except.ok.inj h)
      have hread := ih.items hitems (fits_arr.mp hfits)
      rw [readValue]
      split
      next heq => exact absurd heq (hbody _)
      next =>
        rw [hread]
        rfl
  next after =>
    split at h
    next empty hempty =>
      obtain ⟨rfl, rfl⟩ := Prod.mk.inj (Except.ok.inj h)
      rw [readValue, hempty]
      rfl
    next body hbody =>
      obtain ⟨⟨members, after'⟩, hmembers, h⟩ := Json.of_bind_eq_ok h
      obtain ⟨object, hobject, h⟩ := Json.of_bind_eq_ok h
      obtain ⟨rfl, rfl⟩ := Prod.mk.inj (Except.ok.inj h)
      obtain ⟨rfl, hwide⟩ := jsonNoDuplicates_eq hobject
      have hread := ih.members hmembers (fits_obj.mp hfits)
      rw [readValue]
      split
      next heq => exact absurd heq (hbody _)
      next =>
        rw [hread]
        simp only [bind, Except.bind, hwide]
  next =>
    rw [readValue]
    · exact readScalar_eq h hfits
    all_goals assumption

theorem Agrees.items_succ (ih : Agrees fuel) {items : List Json}
    (h : Json.readItems (fuel + 1) text = .ok (items, rest))
    (hfits : ∀ item ∈ items, (ofJson item).fits = true) :
    readItems (fuel + 1) text = .ok (ofItems items, rest) := by
  rw [Json.readItems] at h
  rw [readItems]
  obtain ⟨⟨item, after⟩, hitem, h⟩ := Json.of_bind_eq_ok h
  dsimp only at h
  split at h
  next after' hafter =>
    obtain ⟨rfl, rfl⟩ := Prod.mk.inj (Except.ok.inj h)
    simp only [ih.value hitem (hfits item List.mem_cons_self), bind, Except.bind, hafter]
    rfl
  next after' hafter =>
    obtain ⟨⟨others, behind⟩, hothers, h⟩ := Json.of_bind_eq_ok h
    obtain ⟨rfl, rfl⟩ := Prod.mk.inj (Except.ok.inj h)
    rw [List.forall_mem_cons] at hfits
    simp only [ih.value hitem hfits.1, bind, Except.bind, hafter, ih.items hothers hfits.2]
    rfl
  next => cases h

/-- A member is read by its key first, which holds no surrogate where the other reader
succeeds. -/
theorem Agrees.members_succ (ih : Agrees fuel) {members : List (String × Json)}
    (h : Json.readMembers (fuel + 1) text = .ok (members, rest))
    (hfits : ∀ member ∈ members, (ofJson member.2).fits = true) :
    readMembers (fuel + 1) text = .ok (ofMembers members, rest) := by
  unfold Json.readMembers at h
  split at h
  next quoted =>
    rw [readMembers]
    obtain ⟨⟨key, afterKey⟩, hkey, h⟩ := Json.of_bind_eq_ok h
    dsimp only at h
    split at h
    next afterColon hcolon =>
      obtain ⟨⟨value, after⟩, hvalue, h⟩ := Json.of_bind_eq_ok h
      dsimp only at h
      split at h
      next after' hafter =>
        obtain ⟨rfl, rfl⟩ := Prod.mk.inj (Except.ok.inj h)
        simp only [readString_eq hkey, bind, Except.bind, hcolon,
          ih.value hvalue (hfits (key, value) List.mem_cons_self), hafter]
        rfl
      next after' hafter =>
        obtain ⟨⟨others, behind⟩, hothers, h⟩ := Json.of_bind_eq_ok h
        obtain ⟨rfl, rfl⟩ := Prod.mk.inj (Except.ok.inj h)
        rw [List.forall_mem_cons] at hfits
        simp only [readString_eq hkey, bind, Except.bind, hcolon, ih.value hvalue hfits.1, hafter,
          ih.members hothers hfits.2]
        rfl
      next => cases h
    next => cases h
  next => cases h

end Agrees

theorem agrees (fuel : Nat) : Agrees fuel := by
  induction fuel with
  | zero => exact ⟨nofun, nofun, nofun⟩
  | succ fuel ih => exact ⟨ih.value_succ, ih.items_succ, ih.members_succ⟩

/-- What was written is read back, provided it is not nested too deeply. -/
theorem loads_dumps_ofJson {value : Json} {maxNesting : Nat} (hdumpable : value.Dumpable)
    (hfits : (ofJson value).fits = true) (hdepth : (ofJson value).depth ≤ maxNesting) :
    loads maxNesting value.dumps = .ok (ofJson value) := by
  have hread := Json.loads_dumps hdumpable
  obtain ⟨⟨plain, rest⟩, hplain, hread⟩ := Json.of_bind_eq_ok hread
  dsimp only at hread
  split at hread
  next hend =>
    obtain rfl := Except.ok.inj hread
    have hsorted := ofJson_sortKeys value hdumpable
    have hwide := (agrees _).value hplain (by rw [hsorted]; exact hfits)
    rw [hsorted] at hwide
    simp only [loads, hwide, bind, Except.bind, hend, if_true, if_pos hdepth]
  next => cases hread

/-- What is written is read back as the value it was written for. -/
theorem loads_dumps {value : WideJson} {narrowed : Json} {maxNesting : Nat}
    (hcanonical : value.Canonical) (hfinite : value.finite = true) (hfits : value.fits = true)
    (hdepth : value.depth ≤ maxNesting) (hnarrow : value.narrow = some narrowed) :
    loads maxNesting narrowed.dumps = .ok value := by
  have hvalue : ofJson narrowed = value := ofJson_of_narrow hcanonical hnarrow
  rw [← hvalue] at hfits hdepth ⊢
  exact loads_dumps_ofJson (dumpable_of_narrow hcanonical hfinite hnarrow) hfits hdepth

/-! ## What is read -/

/-- Objects are in order and integers can be written again. -/
structure Readable (value : WideJson) : Prop where
  canonical : value.Canonical
  fits : value.fits = true

theorem readable_arr {items : List WideJson} (h : ∀ item ∈ items, Readable item) :
    Readable (.arr items) where
  canonical := canonical_arr.mpr fun item hitem => (h item hitem).canonical
  fits := by
    rw [WideJson.fits, all_arr, List.all_eq_true]
    exact fun item hitem => (h item hitem).fits

theorem readable_obj {members : List (WideString × WideJson)} (hordered : Ordered members)
    (h : ∀ member ∈ members, Readable member.2) : Readable (.obj members) where
  canonical := canonical_obj.mpr ⟨hordered, fun member hmember => (h member hmember).canonical⟩
  fits := by
    rw [WideJson.fits, all_obj, List.all_eq_true]
    exact fun member hmember => (h member hmember).fits

section Readable

variable {text rest : List Char}

theorem readScalar_isScalar {value : Json} (h : Json.readScalar text = .ok (value, rest)) :
    value.IsScalar := by
  unfold Json.readScalar at h
  split at h
  next result hkeyword =>
    obtain rfl := Except.ok.inj h
    exact Json.readKeyword_isScalar hkeyword
  next =>
    split at h
    next => cases h
    next =>
      split at h
      next => obtain ⟨rfl, _⟩ := Prod.mk.inj (Except.ok.inj h); exact trivial
      next => obtain ⟨rfl, _⟩ := Prod.mk.inj (Except.ok.inj h); exact trivial

/-- A scalar is in order by itself, and an integer that was read can be written. -/
theorem readable_readScalar {value : WideJson} (h : readScalar text = .ok (value, rest)) :
    Readable value := by
  unfold readScalar at h
  split at h
  next => cases h
  next n behind hread =>
    split at h
    next hdigits =>
      obtain ⟨rfl, _⟩ := Prod.mk.inj (Except.ok.inj h)
      exact ⟨trivial, hdigits⟩
    next => cases h
  next scalar behind hnot hread =>
    obtain ⟨rfl, _⟩ := Prod.mk.inj (Except.ok.inj h)
    have hscalar := readScalar_isScalar hread
    cases scalar with
    | int value => exact absurd rfl (hnot value)
    | arr items => exact hscalar.elim
    | obj members => exact hscalar.elim
    | _ => exact ⟨trivial, rfl⟩

/-- With this much fuel all that is read is readable. -/
structure ReadsReadable (fuel : Nat) : Prop where
  value : ∀ {text rest : List Char} {value : WideJson},
    readValue fuel text = .ok (value, rest) → Readable value
  items : ∀ {text rest : List Char} {items : List WideJson},
    readItems fuel text = .ok (items, rest) → ∀ item ∈ items, Readable item
  members : ∀ {text rest : List Char} {members : List (WideString × WideJson)},
    readMembers fuel text = .ok (members, rest) → ∀ member ∈ members, Readable member.2

variable {fuel : Nat}

theorem ReadsReadable.value_succ (ih : ReadsReadable fuel) {value : WideJson}
    (h : readValue (fuel + 1) text = .ok (value, rest)) : Readable value := by
  unfold readValue at h
  split at h
  next =>
    obtain ⟨⟨word, _⟩, _, h⟩ := Json.of_bind_eq_ok h
    obtain ⟨rfl, _⟩ := Prod.mk.inj (Except.ok.inj h)
    exact ⟨trivial, rfl⟩
  next =>
    split at h
    next =>
      obtain ⟨rfl, _⟩ := Prod.mk.inj (Except.ok.inj h)
      exact readable_arr nofun
    next =>
      obtain ⟨⟨items, _⟩, hitems, h⟩ := Json.of_bind_eq_ok h
      obtain ⟨rfl, _⟩ := Prod.mk.inj (Except.ok.inj h)
      exact readable_arr (ih.items hitems)
  next =>
    split at h
    next =>
      obtain ⟨rfl, _⟩ := Prod.mk.inj (Except.ok.inj h)
      exact readable_obj .nil nofun
    next =>
      obtain ⟨⟨members, _⟩, hmembers, h⟩ := Json.of_bind_eq_ok h
      obtain ⟨object, hobject, h⟩ := Json.of_bind_eq_ok h
      obtain ⟨rfl, _⟩ := Prod.mk.inj (Except.ok.inj h)
      unfold jsonNoDuplicates at hobject
      split at hobject
      next => cases hobject
      next hnone =>
        obtain rfl := Except.ok.inj hobject
        apply readable_obj (ordered_dict (firstDuplicate?_eq_none_iff.mp hnone).1)
        exact fun member hmember => ih.members hmembers member (mem_dict.mp hmember)
  next => exact readable_readScalar h

theorem ReadsReadable.items_succ (ih : ReadsReadable fuel) {items : List WideJson}
    (h : readItems (fuel + 1) text = .ok (items, rest)) : ∀ item ∈ items, Readable item := by
  rw [readItems] at h
  obtain ⟨⟨item, _⟩, hitem, h⟩ := Json.of_bind_eq_ok h
  dsimp only at h
  split at h
  next =>
    obtain ⟨rfl, _⟩ := Prod.mk.inj (Except.ok.inj h)
    exact List.forall_mem_singleton.mpr (ih.value hitem)
  next =>
    obtain ⟨⟨others, _⟩, hothers, h⟩ := Json.of_bind_eq_ok h
    obtain ⟨rfl, _⟩ := Prod.mk.inj (Except.ok.inj h)
    exact List.forall_mem_cons.mpr ⟨ih.value hitem, ih.items hothers⟩
  next => cases h

/-- Members are put into the order of their keys when the object is complete. -/
theorem ReadsReadable.members_succ (ih : ReadsReadable fuel)
    {members : List (WideString × WideJson)}
    (h : readMembers (fuel + 1) text = .ok (members, rest)) :
    ∀ member ∈ members, Readable member.2 := by
  unfold readMembers at h
  split at h
  next =>
    obtain ⟨⟨key, _⟩, _, h⟩ := Json.of_bind_eq_ok h
    dsimp only at h
    split at h
    next =>
      obtain ⟨⟨value, _⟩, hvalue, h⟩ := Json.of_bind_eq_ok h
      dsimp only at h
      split at h
      next =>
        obtain ⟨rfl, _⟩ := Prod.mk.inj (Except.ok.inj h)
        exact List.forall_mem_singleton.mpr (ih.value hvalue)
      next =>
        obtain ⟨⟨others, _⟩, hothers, h⟩ := Json.of_bind_eq_ok h
        obtain ⟨rfl, _⟩ := Prod.mk.inj (Except.ok.inj h)
        exact List.forall_mem_cons.mpr ⟨ih.value hvalue, ih.members hothers⟩
      next => cases h
    next => cases h
  next => cases h

end Readable

theorem readsReadable (fuel : Nat) : ReadsReadable fuel := by
  induction fuel with
  | zero => exact ⟨nofun, nofun, nofun⟩
  | succ fuel ih => exact ⟨ih.value_succ, ih.items_succ, ih.members_succ⟩

/-- Whatever is read is in order, and no deeper than the reader follows. -/
theorem readable_of_loads {maxNesting : Nat} {text : List Char} {value : WideJson}
    (h : loads maxNesting text = .ok value) : Readable value ∧ value.depth ≤ maxNesting := by
  obtain ⟨⟨read, rest⟩, hread, h⟩ := Json.of_bind_eq_ok h
  dsimp only at h
  split at h
  next =>
    split at h
    next hdepth =>
      obtain rfl := Except.ok.inj h
      exact ⟨(readsReadable _).value hread, hdepth⟩
    next => cases h
  next => cases h

end WideJson

end Python
