import Mathlib.Data.List.Sort
import VerifierCI.Python.FloatText

/-! # JSON texts

`json.dumps` with compact separators, sorted keys and unescaped non-ASCII
characters, and `json.loads`. Reading back a written value gives the value with
its keys sorted.
-/

namespace Python

/-- The first key that occurred before, as a loop with a set of seen keys finds it. -/
def firstDuplicate? {κ : Type} [DecidableEq κ] (seen : List κ) : List κ → Option κ
  | [] => none
  | key :: rest => if key ∈ seen then some key else firstDuplicate? (key :: seen) rest

/-- The loop with its set of seen keys finds nothing exactly if no key occurs twice. -/
theorem firstDuplicate?_eq_none_iff {κ : Type} [DecidableEq κ] {seen keys : List κ} :
    firstDuplicate? seen keys = none ↔ keys.Nodup ∧ ∀ key ∈ keys, key ∉ seen := by
  induction keys generalizing seen with
  | nil => simp [firstDuplicate?]
  | cons key rest ih =>
      rw [firstDuplicate?]
      split
      next hseen =>
        constructor
        · intro h
          cases h
        · rintro ⟨_, h⟩
          exact absurd hseen (h key List.mem_cons_self)
      next hnew =>
        rw [ih, List.nodup_cons]
        simp only [List.mem_cons, not_or, forall_eq_or_imp]
        constructor
        · rintro ⟨hnodup, hrest⟩
          exact ⟨⟨fun hmem => (hrest key hmem).1 rfl, hnodup⟩, hnew,
            fun other hother => (hrest other hother).2⟩
        · rintro ⟨⟨hnot, hnodup⟩, _, hrest⟩
          refine ⟨hnodup, fun other hother => ⟨?_, hrest other hother⟩⟩
          rintro rfl
          exact hnot hother

namespace Json

/-! ## Writing -/

def hexDigit (n : Nat) : Char :=
  if n < 10 then Char.ofNat (48 + n) else Char.ofNat (87 + n)

/-- A character inside a JSON string, with only control characters, quotes and
backslashes escaped. -/
def escapeChar (c : Char) : List Char :=
  if c = '"' then ['\\', '"']
  else if c = '\\' then ['\\', '\\']
  else if c = '\n' then ['\\', 'n']
  else if c = '\r' then ['\\', 'r']
  else if c = '\t' then ['\\', 't']
  else if c.toNat = 8 then ['\\', 'b']
  else if c.toNat = 12 then ['\\', 'f']
  else if c.toNat < 32 then
    ['\\', 'u', '0', '0', hexDigit (c.toNat / 16), hexDigit (c.toNat % 16)]
  else [c]

def writeString (value : String) : List Char :=
  '"' :: (value.toList.flatMap escapeChar ++ ['"'])

mutual

/-- `json.dumps` with compact separators, members in the given order. Floats
are finite where this is called. -/
def write : Json → List Char
  | .null => ['n', 'u', 'l', 'l']
  | .bool true => ['t', 'r', 'u', 'e']
  | .bool false => ['f', 'a', 'l', 's', 'e']
  | .int value => (NumberText.ofInt value).text
  | .float value => (NumberText.ofFloat value).text
  | .str value => writeString value
  | .arr items => '[' :: (writeItems items ++ [']'])
  | .obj members => '{' :: (writeMembers members ++ ['}'])

def writeItems : List Json → List Char
  | [] => []
  | [item] => item.write
  | item :: rest => item.write ++ ',' :: writeItems rest

def writeMembers : List (String × Json) → List Char
  | [] => []
  | [(key, value)] => writeString key ++ ':' :: value.write
  | (key, value) :: rest => writeString key ++ ':' :: (value.write ++ ',' :: writeMembers rest)

end

/-- The order of `sort_keys=True`. -/
def KeyLe (a b : String × Json) : Prop := a.1 ≤ b.1

instance (a b : String × Json) : Decidable (KeyLe a b) :=
  inferInstanceAs (Decidable (_ ≤ _))

mutual

def sortKeys : Json → Json
  | .arr items => .arr (sortItems items)
  | .obj members => .obj ((sortMembers members).insertionSort KeyLe)
  | value => value

def sortItems : List Json → List Json
  | [] => []
  | item :: rest => item.sortKeys :: sortItems rest

def sortMembers : List (String × Json) → List (String × Json)
  | [] => []
  | (key, value) :: rest => (key, value.sortKeys) :: sortMembers rest

end

theorem sortItems_eq (items : List Json) : sortItems items = items.map sortKeys := by
  induction items with
  | nil => rfl
  | cons item rest ih => rw [sortItems, ih, List.map_cons]

theorem sortMembers_eq (members : List (String × Json)) :
    sortMembers members = members.map fun member => (member.1, member.2.sortKeys) := by
  induction members with
  | nil => rfl
  | cons member rest ih => rw [sortMembers, ih, List.map_cons]

theorem sortKeys_ofStrings (values : List String) :
    (ofStrings values).sortKeys = ofStrings values := by
  rw [ofStrings, sortKeys, sortItems_eq, List.map_map]
  rfl

theorem sortKeys_ofOption {α : Type} {write : α → Json}
    (hwrite : ∀ a, (write a).sortKeys = write a) (value : Option α) :
    (ofOption write value).sortKeys = ofOption write value := by
  cases value with
  | none => rfl
  | some a => exact hwrite a

/-- Two orders of the same keyed rows that list the keys alike are one. -/
theorem eq_of_perm_of_keys_eq {κ ρ : Type} (key : ρ → κ) {rows others : List ρ}
    (hperm : rows.Perm others) (hkeys : rows.map key = others.map key)
    (hnodup : (rows.map key).Nodup) : rows = others := by
  apply List.ext_getElem hperm.length_eq
  intro i hi hi'
  obtain ⟨j, hj, heq⟩ := List.getElem_of_mem (hperm.mem_iff.mp (List.getElem_mem hi))
  have hkey : (others.map key)[j]? = (others.map key)[i]? :=
    calc (others.map key)[j]? = some (key rows[i]) := by
          rw [List.getElem?_map, List.getElem?_eq_getElem hj, heq, Option.map_some]
      _ = (rows.map key)[i]? := by
          rw [List.getElem?_map, List.getElem?_eq_getElem hi, Option.map_some]
      _ = (others.map key)[i]? := by rw [hkeys]
  rw [hkeys] at hnodup
  obtain rfl := (List.getElem?_inj (by simpa using hj) hnodup).mp hkey
  exact heq.symm

/-- Objects that list the same distinct keys are sorted alike only if their
values are. -/
theorem values_eq_of_sortKeys_eq {members others : List (String × Json)}
    (hkeys : members.map Prod.fst = others.map Prod.fst) (hnodup : (members.map Prod.fst).Nodup)
    (h : (obj members).sortKeys = (obj others).sortKeys) :
    members.map (fun member => member.2.sortKeys) = others.map fun member => member.2.sortKeys := by
  rw [sortKeys, sortKeys, obj.injEq] at h
  have hperm : (sortMembers members).Perm (sortMembers others) := by
    have hsorted := (List.perm_insertionSort KeyLe (sortMembers members)).symm
    rw [h] at hsorted
    exact hsorted.trans (List.perm_insertionSort KeyLe _)
  have hfst : ∀ rows : List (String × Json),
      (sortMembers rows).map Prod.fst = rows.map Prod.fst := by
    intro rows
    simp only [sortMembers_eq, List.map_map, Function.comp_def]
  have heq := eq_of_perm_of_keys_eq Prod.fst hperm (by rw [hfst, hfst, hkeys])
    (by rw [hfst]; exact hnodup)
  simpa only [sortMembers_eq, List.map_map, Function.comp_def] using congrArg (List.map Prod.snd)
    heq

/-- `json.dumps(value, sort_keys=True, separators=(",", ":"), ensure_ascii=False)`. -/
def dumps (value : Json) : List Char :=
  value.sortKeys.write

/-! ## Reading -/

/-- Why a text is refused. The second reason is the hook's, which is called on
the members of every object. -/
inductive LoadError where
  | invalid
  | duplicateKey (key : String)
deriving DecidableEq, Repr

def isSpace (c : Char) : Bool :=
  c = ' ' || c = '\t' || c = '\n' || c = '\r'

def skipSpace (text : List Char) : List Char :=
  text.dropWhile isSpace

def hexValue? (c : Char) : Option Nat :=
  if '0' ≤ c ∧ c ≤ '9' then some (c.toNat - 48)
  else if 'a' ≤ c ∧ c ≤ 'f' then some (c.toNat - 87)
  else if 'A' ≤ c ∧ c ≤ 'F' then some (c.toNat - 55)
  else none

def readHex : List Char → Option (Nat × List Char)
  | a :: b :: c :: d :: rest => do
      let a ← hexValue? a
      let b ← hexValue? b
      let c ← hexValue? c
      let d ← hexValue? d
      some (((a * 16 + b) * 16 + c) * 16 + d, rest)
  | _ => none

/-- The character of a `\u` escape. Two escaped surrogates make one character; a
lone surrogate is no character. -/
def readUnicode (text : List Char) : Option (Char × List Char) := do
  let (high, rest) ← readHex text
  if 0xd800 ≤ high ∧ high < 0xdc00 then
    match rest with
    | '\\' :: 'u' :: rest => do
        let (low, rest) ← readHex rest
        if 0xdc00 ≤ low ∧ low < 0xe000 then
          some (Char.ofNat (0x10000 + (high - 0xd800) * 0x400 + (low - 0xdc00)), rest)
        else none
    | _ => none
  else if 0xdc00 ≤ high ∧ high < 0xe000 then none
  else some (Char.ofNat high, rest)

/-- One character of a string, escaped or not. -/
def readChar : List Char → Option (Char × List Char)
  | [] => none
  | '\\' :: rest =>
      match rest with
      | '"' :: rest => some ('"', rest)
      | '\\' :: rest => some ('\\', rest)
      | '/' :: rest => some ('/', rest)
      | 'b' :: rest => some (Char.ofNat 8, rest)
      | 'f' :: rest => some (Char.ofNat 12, rest)
      | 'n' :: rest => some ('\n', rest)
      | 'r' :: rest => some ('\r', rest)
      | 't' :: rest => some ('\t', rest)
      | 'u' :: rest => readUnicode rest
      | _ => none
  | c :: rest => if c.toNat < 32 then none else some (c, rest)

def readCharacters : Nat → List Char → Option (List Char × List Char)
  | 0, _ => none
  | fuel + 1, text =>
      match text with
      | '"' :: rest => some ([], rest)
      | text => do
          let (c, rest) ← readChar text
          let (cs, rest) ← readCharacters fuel rest
          some (c :: cs, rest)

def readString (text : List Char) : Except LoadError (String × List Char) :=
  match readCharacters (text.length + 1) text with
  | none => .error .invalid
  | some (cs, rest) => .ok (String.ofList cs, rest)

def keywords : List (List Char × Json) :=
  [(['n', 'u', 'l', 'l'], .null), (['t', 'r', 'u', 'e'], .bool true),
    (['f', 'a', 'l', 's', 'e'], .bool false),
    (['N', 'a', 'N'], .float ⟨0x7ff8000000000000⟩),
    (['I', 'n', 'f', 'i', 'n', 'i', 't', 'y'], .float ⟨0x7ff0000000000000⟩),
    (['-', 'I', 'n', 'f', 'i', 'n', 'i', 't', 'y'], .float ⟨0xfff0000000000000⟩)]

def readKeyword (text : List Char) : Option (Json × List Char) :=
  keywords.findSome? fun keyword =>
    if keyword.1.isPrefixOf text then some (keyword.2, text.drop keyword.1.length) else none

def readScalar (text : List Char) : Except LoadError (Json × List Char) :=
  match readKeyword text with
  | some result => .ok result
  | none =>
      match NumberText.scan text with
      | none => .error .invalid
      | some (number, rest) =>
          match number.toInt? with
          | some value => .ok (.int value, rest)
          | none => .ok (.float number.toFloat, rest)

/-- `_json_no_duplicates(ordered_pairs)`. -/
def jsonNoDuplicates (members : List (String × Json)) : Except LoadError Json :=
  match firstDuplicate? [] (members.map Prod.fst) with
  | some key => .error (.duplicateKey key)
  | none => .ok (.obj members)

mutual

def readValue : Nat → List Char → Except LoadError (Json × List Char)
  | 0, _ => .error .invalid
  | fuel + 1, text =>
      match text with
      | '"' :: rest => do
          let (value, rest) ← readString rest
          .ok (.str value, rest)
      | '[' :: rest =>
          match skipSpace rest with
          | ']' :: rest => .ok (.arr [], rest)
          | rest => do
              let (items, rest) ← readItems fuel rest
              .ok (.arr items, rest)
      | '{' :: rest =>
          match skipSpace rest with
          | '}' :: rest => .ok (.obj [], rest)
          | rest => do
              let (members, rest) ← readMembers fuel rest
              let value ← jsonNoDuplicates members
              .ok (value, rest)
      | text => readScalar text

/-- The items of an array up to its closing bracket, of which there is one. -/
def readItems : Nat → List Char → Except LoadError (List Json × List Char)
  | 0, _ => .error .invalid
  | fuel + 1, text => do
      let (item, rest) ← readValue fuel text
      match skipSpace rest with
      | ']' :: rest => .ok ([item], rest)
      | ',' :: rest => do
          let (items, rest) ← readItems fuel (skipSpace rest)
          .ok (item :: items, rest)
      | _ => .error .invalid

def readMembers : Nat → List Char → Except LoadError (List (String × Json) × List Char)
  | 0, _ => .error .invalid
  | fuel + 1, text =>
      match text with
      | '"' :: rest => do
          let (key, rest) ← readString rest
          match skipSpace rest with
          | ':' :: rest => do
              let (value, rest) ← readValue fuel (skipSpace rest)
              match skipSpace rest with
              | '}' :: rest => .ok ([(key, value)], rest)
              | ',' :: rest => do
                  let (members, rest) ← readMembers fuel (skipSpace rest)
                  .ok ((key, value) :: members, rest)
              | _ => .error .invalid
          | _ => .error .invalid
      | _ => .error .invalid

end

/-- `json.loads(text, object_pairs_hook=_json_no_duplicates)`. -/
def loads (text : List Char) : Except LoadError Json := do
  let text := skipSpace text
  let (value, rest) ← readValue (text.length + 1) text
  if (skipSpace rest).isEmpty then .ok value else .error .invalid

/-! ## Strings are read back -/

theorem hexValue?_hexDigit {n : Nat} (hn : n < 16) : hexValue? (hexDigit n) = some n := by
  have h : ∀ n < 16, hexValue? (hexDigit n) = some n := by decide
  exact h n hn

theorem readUnicode_control {n : Nat} (hn : n < 32) (rest : List Char) :
    readUnicode ('0' :: '0' :: hexDigit (n / 16) :: hexDigit (n % 16) :: rest) =
      some (Char.ofNat n, rest) := by
  have hzero : hexValue? '0' = some 0 := by decide
  have hhex : readHex ('0' :: '0' :: hexDigit (n / 16) :: hexDigit (n % 16) :: rest) =
      some (n, rest) := by
    simp only [readHex, hzero, hexValue?_hexDigit (by omega : n / 16 < 16),
      hexValue?_hexDigit (by omega : n % 16 < 16), Option.bind_eq_bind, Option.bind_some]
    congr 2
    omega
  simp only [readUnicode, hhex, Option.bind_eq_bind, Option.bind_some]
  rw [if_neg (by omega), if_neg (by omega)]

/-- Every character is read back from its escape, whichever of the three forms it has. -/
theorem readChar_escapeChar (c : Char) (rest : List Char) :
    readChar (escapeChar c ++ rest) = some (c, rest) := by
  have hofNat : ∀ {n}, c.toNat = n → Char.ofNat n = c := by
    rintro n rfl
    exact Char.ofNat_toNat c
  unfold escapeChar
  split_ifs with hquote hbackslash hnewline hreturn htab hback hfeed hcontrol
  · subst hquote; rfl
  · subst hbackslash; rfl
  · subst hnewline; rfl
  · subst hreturn; rfl
  · subst htab; rfl
  · exact congrArg (fun d => some (d, rest)) (hofNat hback)
  · exact congrArg (fun d => some (d, rest)) (hofNat hfeed)
  · show readUnicode ('0' :: '0' :: hexDigit (c.toNat / 16) :: hexDigit (c.toNat % 16) :: rest) = _
    rw [readUnicode_control hcontrol, Char.ofNat_toNat]
  · show readChar (c :: rest) = _
    unfold readChar
    split
    next heq => cases heq
    next heq => exact absurd (List.cons.inj heq).1 hbackslash
    next heq =>
      obtain ⟨rfl, rfl⟩ := List.cons.inj heq
      rw [if_neg hcontrol]

theorem escapeChar_head (c : Char) (rest : List Char) :
    ∃ d tail, escapeChar c ++ rest = d :: tail ∧ d ≠ '"' := by
  unfold escapeChar
  split_ifs with hquote
  all_goals first
    | exact ⟨_, _, rfl, hquote⟩
    | exact ⟨_, _, rfl, by decide⟩

/-- By induction on the text; the fuel outlasts it, since every character takes one step. -/
theorem readCharacters_escaped (cs rest : List Char) {fuel : Nat} (hfuel : cs.length < fuel) :
    readCharacters fuel (cs.flatMap escapeChar ++ '"' :: rest) = some (cs, rest) := by
  induction cs generalizing fuel with
  | nil =>
      cases fuel with
      | zero => exact absurd hfuel (Nat.not_lt_zero _)
      | succ fuel => rfl
  | cons c cs ih =>
      cases fuel with
      | zero => exact absurd hfuel (Nat.not_lt_zero _)
      | succ fuel =>
          have hrest := ih (Nat.lt_of_succ_lt_succ hfuel)
          have hchar := readChar_escapeChar c (cs.flatMap escapeChar ++ '"' :: rest)
          obtain ⟨d, tail, hcons, hd⟩ := escapeChar_head c (cs.flatMap escapeChar ++ '"' :: rest)
          rw [List.flatMap_cons, List.append_assoc]
          rw [hcons] at hchar ⊢
          rw [readCharacters]
          · simp only [hchar, hrest, Option.bind_eq_bind, Option.bind_some]
          · intro r heq
            exact hd (List.cons.inj heq).1

theorem length_le_escaped (cs : List Char) : cs.length ≤ (cs.flatMap escapeChar).length := by
  induction cs with
  | nil => exact Nat.le_refl 0
  | cons c cs ih =>
      obtain ⟨d, tail, hcons, _⟩ := escapeChar_head c []
      rw [List.append_nil] at hcons
      rw [List.flatMap_cons, List.length_append, hcons]
      simp only [List.length_cons]
      omega

theorem readString_escaped (value : String) (rest : List Char) :
    readString (value.toList.flatMap escapeChar ++ '"' :: rest) = .ok (value, rest) := by
  have hlength := length_le_escaped value.toList
  have hfuel : value.toList.length <
      (value.toList.flatMap escapeChar ++ '"' :: rest).length + 1 := by
    rw [List.length_append]
    omega
  have hread := readCharacters_escaped value.toList rest hfuel
  simp only [readString, hread, String.ofList_toList]

theorem writeString_append (value : String) (rest : List Char) :
    writeString value ++ rest = '"' :: (value.toList.flatMap escapeChar ++ '"' :: rest) := by
  simp [writeString]

/-! ## Scalars are read back -/

/-- A number begins with a digit or with a sign and a digit. -/
theorem text_head {number : NumberText} (hnumber : number.WellFormed) (rest : List Char) :
    ∃ c tail, number.text ++ rest = c :: tail ∧
      (c.isDigit = true ∨ c = '-' ∧ ∃ d ds, tail = d :: ds ∧ d.isDigit = true) := by
  have hwhole : ∃ d ds, number.whole = d :: ds ∧ d.isDigit = true := by
    rcases hnumber.whole with hzero | ⟨c, digits, hcons, _, hdigit, _⟩
    · exact ⟨'0', [], hzero, by decide⟩
    · exact ⟨c, digits, hcons, hdigit⟩
  obtain ⟨d, ds, hcons, hdigit⟩ := hwhole
  unfold NumberText.text
  rw [hcons]
  cases number.negative with
  | true => exact ⟨'-', _, rfl, Or.inr ⟨rfl, d, _, rfl, hdigit⟩⟩
  | false => exact ⟨d, _, rfl, Or.inl hdigit⟩

theorem readKeyword_none {c : Char} {tail : List Char}
    (h : c.isDigit = true ∨ c = '-' ∧ ∃ d ds, tail = d :: ds ∧ d.isDigit = true) :
    readKeyword (c :: tail) = none := by
  have hdigit : ∀ {d : Char}, d.isDigit = true →
      d ≠ 'n' ∧ d ≠ 't' ∧ d ≠ 'f' ∧ d ≠ 'N' ∧ d ≠ 'I' ∧ d ≠ '-' := by
    intro d hd
    refine ⟨?_, ?_, ?_, ?_, ?_, ?_⟩ <;> (rintro rfl; exact absurd hd (by decide))
  rcases h with hc | ⟨rfl, d, ds, rfl, hd⟩
  · obtain ⟨h₁, h₂, h₃, h₄, h₅, h₆⟩ := hdigit hc
    simp [readKeyword, keywords, h₁.symm, h₂.symm, h₃.symm, h₄.symm, h₅.symm, h₆.symm]
  · obtain ⟨_, _, _, _, h₅, _⟩ := hdigit hd
    simp [readKeyword, keywords, h₅.symm]

/-- A number is read up to where its text ends, as an integer or as a float. -/
theorem readScalar_text {number : NumberText} (hnumber : number.WellFormed) {rest : List Char}
    (hrest : NumberText.Stops rest) :
    readScalar (number.text ++ rest) =
      match number.toInt? with
      | some value => .ok (.int value, rest)
      | none => .ok (.float number.toFloat, rest) := by
  obtain ⟨c, tail, hcons, hhead⟩ := text_head hnumber rest
  have hscan := NumberText.scan_text hnumber hrest
  have hkeyword := readKeyword_none hhead
  rw [hcons] at hscan ⊢
  simp only [readScalar, hkeyword, hscan]

/-! ## Values are read back -/

mutual

/-- What `json.dumps` can write and its reader accepts: floats are finite and
no object repeats a key. -/
def Dumpable : Json → Prop
  | .float value => value.isFinite = true
  | .arr items => ItemsDumpable items
  | .obj members => (members.map Prod.fst).Nodup ∧ MembersDumpable members
  | _ => True

def ItemsDumpable : List Json → Prop
  | [] => True
  | item :: rest => item.Dumpable ∧ ItemsDumpable rest

def MembersDumpable : List (String × Json) → Prop
  | [] => True
  | (_, value) :: rest => value.Dumpable ∧ MembersDumpable rest

end

theorem itemsDumpable_iff {items : List Json} :
    ItemsDumpable items ↔ ∀ item ∈ items, item.Dumpable := by
  induction items with
  | nil => simp [ItemsDumpable]
  | cons item rest ih => rw [ItemsDumpable, ih, List.forall_mem_cons]

theorem membersDumpable_iff {members : List (String × Json)} :
    MembersDumpable members ↔ ∀ member ∈ members, member.2.Dumpable := by
  induction members with
  | nil => simp [MembersDumpable]
  | cons member rest ih =>
      obtain ⟨key, value⟩ := member
      rw [MembersDumpable, ih, List.forall_mem_cons]

theorem dumpable_obj {members : List (String × Json)} (hkeys : (members.map Prod.fst).Nodup)
    (hvalues : ∀ member ∈ members, member.2.Dumpable) : (obj members).Dumpable :=
  ⟨hkeys, membersDumpable_iff.mpr hvalues⟩

theorem dumpable_ofStrings (values : List String) : (ofStrings values).Dumpable := by
  rw [ofStrings, Dumpable, itemsDumpable_iff]
  intro item hitem
  obtain ⟨value, _, rfl⟩ := List.mem_map.mp hitem
  trivial

theorem jsonNoDuplicates_of_nodup {members : List (String × Json)}
    (h : (members.map Prod.fst).Nodup) : jsonNoDuplicates members = .ok (.obj members) := by
  have hnone : firstDuplicate? [] (members.map Prod.fst) = none :=
    firstDuplicate?_eq_none_iff.mpr ⟨h, by simp⟩
  simp only [jsonNoDuplicates, hnone]

theorem skipSpace_cons {c : Char} (hc : isSpace c = false) (rest : List Char) :
    skipSpace (c :: rest) = c :: rest := by
  simp [skipSpace, hc]

/-- The first character of a written value is neither space nor a bracket that
ends an array. -/
theorem write_head (value : Json) (rest : List Char) :
    ∃ c tail, value.write ++ rest = c :: tail ∧ isSpace c = false ∧ c ≠ ']' := by
  have hnumber : ∀ {number : NumberText}, number.WellFormed →
      ∃ c tail, number.text ++ rest = c :: tail ∧ isSpace c = false ∧ c ≠ ']' := by
    intro number hnumber
    obtain ⟨c, tail, hcons, hhead⟩ := text_head hnumber rest
    refine ⟨c, tail, hcons, ?_⟩
    rcases hhead with hdigit | ⟨rfl, _⟩
    · constructor
      · simp only [isSpace, Bool.or_eq_false_iff, decide_eq_false_iff_not]
        refine ⟨⟨⟨?_, ?_⟩, ?_⟩, ?_⟩ <;> (rintro rfl; exact absurd hdigit (by decide))
      · rintro rfl
        exact absurd hdigit (by decide)
    · decide
  cases value with
  | null => exact ⟨'n', _, rfl, by decide⟩
  | bool value =>
      cases value with
      | true => exact ⟨'t', _, rfl, by decide⟩
      | false => exact ⟨'f', _, rfl, by decide⟩
  | int value => exact hnumber (NumberText.ofInt_wellFormed value)
  | float value => exact hnumber (NumberText.ofFloat_wellFormed value)
  | str value => exact ⟨'"', _, rfl, by decide⟩
  | arr items => exact ⟨'[', _, rfl, by decide⟩
  | obj members => exact ⟨'{', _, rfl, by decide⟩

theorem readValue_scalar {fuel : Nat} {c : Char} {tail : List Char}
    (hc : c ≠ '"' ∧ c ≠ '[' ∧ c ≠ '{') :
    readValue (fuel + 1) (c :: tail) = readScalar (c :: tail) := by
  rw [readValue]
  · intro r heq
    exact hc.1 (List.cons.inj heq).1
  · intro r heq
    exact hc.2.1 (List.cons.inj heq).1
  · intro r heq
    exact hc.2.2 (List.cons.inj heq).1

theorem readValue_number {number : NumberText} (hnumber : number.WellFormed) {rest : List Char}
    (hrest : NumberText.Stops rest) (fuel : Nat) :
    readValue (fuel + 1) (number.text ++ rest) =
      match number.toInt? with
      | some value => .ok (.int value, rest)
      | none => .ok (.float number.toFloat, rest) := by
  obtain ⟨c, tail, hcons, hhead⟩ := text_head hnumber rest
  have hscalar := readScalar_text hnumber hrest
  have hc : c ≠ '"' ∧ c ≠ '[' ∧ c ≠ '{' := by
    rcases hhead with hdigit | ⟨rfl, _⟩
    · refine ⟨?_, ?_, ?_⟩ <;> (rintro rfl; exact absurd hdigit (by decide))
    · decide
  rw [hcons] at hscalar ⊢
  rw [readValue_scalar hc, hscalar]

/-- An array with an item is read by `readItems`. -/
theorem readValue_items {fuel : Nat} {c : Char} {tail : List Char} (hspace : isSpace c = false)
    (hbracket : c ≠ ']') :
    readValue (fuel + 1) ('[' :: c :: tail) = (do
      let (items, rest) ← readItems fuel (c :: tail)
      .ok (.arr items, rest)) := by
  rw [readValue, skipSpace_cons hspace]
  split
  next heq => exact absurd (List.cons.inj heq).1 hbracket
  next => rfl

/-- An object with a member is read by `readMembers`. -/
theorem readValue_members (fuel : Nat) (tail : List Char) :
    readValue (fuel + 1) ('{' :: '"' :: tail) = (do
      let (members, rest) ← readMembers fuel ('"' :: tail)
      let value ← jsonNoDuplicates members
      .ok (value, rest)) := by
  rw [readValue, skipSpace_cons (by decide)]
  split
  next heq => exact absurd (List.cons.inj heq).1 (by decide)
  next => rfl

/-- With this much fuel written values are read back. -/
def ReadsValues (fuel : Nat) : Prop :=
  ∀ (value : Json) (rest : List Char), value.Dumpable → value.write.length < fuel →
    NumberText.Stops rest → readValue fuel (value.write ++ rest) = .ok (value, rest)

def ReadsItems (fuel : Nat) : Prop :=
  ∀ (items : List Json) (rest : List Char), items ≠ [] → ItemsDumpable items →
    (writeItems items).length + 1 < fuel →
    readItems fuel (writeItems items ++ ']' :: rest) = .ok (items, rest)

def ReadsMembers (fuel : Nat) : Prop :=
  ∀ (members : List (String × Json)) (rest : List Char), members ≠ [] →
    MembersDumpable members → (writeMembers members).length + 1 < fuel →
    readMembers fuel (writeMembers members ++ '}' :: rest) = .ok (members, rest)

section Reads

variable {fuel : Nat}

theorem writeItems_head {items : List Json} (hne : items ≠ []) (rest : List Char) :
    ∃ c tail, writeItems items ++ rest = c :: tail ∧ isSpace c = false ∧ c ≠ ']' := by
  cases items with
  | nil => exact absurd rfl hne
  | cons item items =>
      cases items with
      | nil => exact write_head item rest
      | cons next items =>
          rw [writeItems, List.append_assoc]
          · exact write_head item _
          · exact List.cons_ne_nil _ _

theorem writeMembers_head {members : List (String × Json)} (hne : members ≠ [])
    (rest : List Char) : ∃ tail, writeMembers members ++ rest = '"' :: tail := by
  cases members with
  | nil => exact absurd rfl hne
  | cons member members =>
      obtain ⟨key, value⟩ := member
      cases members with
      | nil => exact ⟨_, rfl⟩
      | cons next members => exact ⟨_, rfl⟩

theorem readsArray (hitems : ReadsItems fuel) {items : List Json} {rest : List Char}
    (hne : items ≠ []) (hdumpable : ItemsDumpable items)
    (hfuel : (writeItems items).length + 1 < fuel) :
    readValue (fuel + 1) ((Json.arr items).write ++ rest) = .ok (.arr items, rest) := by
  obtain ⟨c, tail, hcons, hspace, hbracket⟩ := writeItems_head hne (']' :: rest)
  have htext : (Json.arr items).write ++ rest = '[' :: c :: tail := by
    rw [← hcons]
    simp [write]
  rw [htext, readValue_items hspace hbracket, ← hcons, hitems items rest hne hdumpable hfuel]
  rfl

theorem readsObject (hmembers : ReadsMembers fuel) {members : List (String × Json)}
    {rest : List Char} (hne : members ≠ []) (hnodup : (members.map Prod.fst).Nodup)
    (hdumpable : MembersDumpable members) (hfuel : (writeMembers members).length + 1 < fuel) :
    readValue (fuel + 1) ((Json.obj members).write ++ rest) = .ok (.obj members, rest) := by
  obtain ⟨tail, hcons⟩ := writeMembers_head hne ('}' :: rest)
  have htext : (Json.obj members).write ++ rest = '{' :: '"' :: tail := by
    rw [← hcons]
    simp [write]
  have hread := hmembers members rest hne hdumpable hfuel
  rw [hcons] at hread
  rw [htext, readValue_members]
  simp only [hread, bind, Except.bind, jsonNoDuplicates_of_nodup hnodup]

/-- One more level of fuel: an array or an object is read through the items it has. Scalars need
no level, and their texts are told apart by the first character. -/
theorem ReadsValues.succ (hitems : ReadsItems fuel) (hmembers : ReadsMembers fuel) :
    ReadsValues (fuel + 1) := by
  intro value rest hdumpable hfuel hrest
  cases value with
  | null =>
      rw [write, List.cons_append, readValue_scalar (by decide)]
      simp [readScalar, readKeyword, keywords]
  | bool value =>
      cases value with
      | true =>
          rw [write, List.cons_append, readValue_scalar (by decide)]
          simp [readScalar, readKeyword, keywords]
      | false =>
          rw [write, List.cons_append, readValue_scalar (by decide)]
          simp [readScalar, readKeyword, keywords]
  | int value =>
      have h := readValue_number (NumberText.ofInt_wellFormed value) hrest fuel
      rw [NumberText.toInt?_ofInt] at h
      exact h
  | float value =>
      have h := readValue_number (NumberText.ofFloat_wellFormed value) hrest fuel
      rw [NumberText.ofFloat_toInt?, NumberText.ofFloat_toFloat hdumpable] at h
      exact h
  | str value =>
      rw [write, writeString_append, readValue, readString_escaped]
      rfl
  | arr items =>
      cases items with
      | nil => rfl
      | cons item items =>
          apply readsArray hitems (List.cons_ne_nil _ _) hdumpable
          simp only [write, List.length_cons, List.length_append, List.length_nil] at hfuel
          omega
  | obj members =>
      cases members with
      | nil => rfl
      | cons member members =>
          apply readsObject hmembers (List.cons_ne_nil _ _) hdumpable.1 hdumpable.2
          simp only [write, List.length_cons, List.length_append, List.length_nil] at hfuel
          omega

theorem ReadsItems.succ (hvalues : ReadsValues fuel) (hitems : ReadsItems fuel) :
    ReadsItems (fuel + 1) := by
  intro items rest hne hdumpable hfuel
  cases items with
  | nil => exact absurd rfl hne
  | cons item items =>
      cases items with
      | nil =>
          have hitem := hvalues item (']' :: rest) hdumpable.1 (Nat.lt_of_succ_lt_succ hfuel)
            (NumberText.stops_cons _ (by decide))
          rw [writeItems, readItems, hitem]
          rfl
      | cons next items =>
          have htext : writeItems (item :: next :: items) =
              item.write ++ ',' :: writeItems (next :: items) := by
            rw [writeItems]
            exact List.cons_ne_nil _ _
          have hlength := congrArg List.length htext
          rw [List.length_append, List.length_cons] at hlength
          have hitem := hvalues item (',' :: (writeItems (next :: items) ++ ']' :: rest))
            hdumpable.1 (by omega) (NumberText.stops_cons _ (by decide))
          have hrest := hitems (next :: items) rest (List.cons_ne_nil _ _) hdumpable.2 (by omega)
          obtain ⟨c, tail, hcons, hspace, _⟩ :=
            writeItems_head (List.cons_ne_nil next items) (']' :: rest)
          rw [hcons] at hitem hrest
          rw [htext, List.append_assoc, List.cons_append, hcons, readItems]
          simp only [hitem, hrest, bind, Except.bind, skipSpace_cons hspace,
            skipSpace_cons (by decide : isSpace ',' = false)]

theorem ReadsMembers.succ (hvalues : ReadsValues fuel) (hmembers : ReadsMembers fuel) :
    ReadsMembers (fuel + 1) := by
  intro members rest hne hdumpable hfuel
  cases members with
  | nil => exact absurd rfl hne
  | cons member members =>
      obtain ⟨key, value⟩ := member
      obtain ⟨c, tail, hcons, hspace, _⟩ := write_head value []
      rw [List.append_nil] at hcons
      cases members with
      | nil =>
          have hlength : (writeMembers [(key, value)]).length =
              (writeString key).length + 1 + value.write.length := by
            simp only [writeMembers, List.length_append, List.length_cons]
            omega
          have hvalue := hvalues value ('}' :: rest) hdumpable.1 (by omega)
            (NumberText.stops_cons _ (by decide))
          rw [hcons, List.cons_append] at hvalue
          rw [writeMembers, List.append_assoc, writeString_append, List.cons_append, hcons,
            List.cons_append, readMembers]
          simp only [readString_escaped, hvalue, bind, Except.bind, skipSpace_cons hspace,
            skipSpace_cons (by decide : isSpace ':' = false),
            skipSpace_cons (by decide : isSpace '}' = false)]
      | cons next members =>
          have htext : writeMembers ((key, value) :: next :: members) =
              writeString key ++ ':' :: (value.write ++ ',' :: writeMembers (next :: members)) := by
            rw [writeMembers]
            exact List.cons_ne_nil _ _
          have hlength := congrArg List.length htext
          simp only [List.length_append, List.length_cons] at hlength
          have hvalue := hvalues value (',' :: (writeMembers (next :: members) ++ '}' :: rest))
            hdumpable.1 (by omega) (NumberText.stops_cons _ (by decide))
          have hrest := hmembers (next :: members) rest (List.cons_ne_nil _ _) hdumpable.2
            (by omega)
          obtain ⟨more, hmore⟩ := writeMembers_head (List.cons_ne_nil next members) ('}' :: rest)
          rw [hmore] at hvalue hrest
          rw [hcons, List.cons_append] at hvalue
          rw [htext, List.append_assoc, writeString_append, List.cons_append, List.append_assoc,
            List.cons_append, hmore, hcons, List.cons_append, readMembers]
          simp only [readString_escaped, hvalue, hrest, bind, Except.bind, skipSpace_cons hspace,
            skipSpace_cons (by decide : isSpace ':' = false),
            skipSpace_cons (by decide : isSpace ',' = false),
            skipSpace_cons (by decide : isSpace '"' = false)]

end Reads

/-- By induction on the fuel, for values, items and members at once. -/
theorem reads (fuel : Nat) : ReadsValues fuel ∧ ReadsItems fuel ∧ ReadsMembers fuel := by
  induction fuel with
  | zero =>
      refine ⟨?_, ?_, ?_⟩
      · intro value rest _ hfuel
        exact absurd hfuel (Nat.not_lt_zero _)
      · intro items rest _ _ hfuel
        exact absurd hfuel (Nat.not_lt_zero _)
      · intro members rest _ _ hfuel
        exact absurd hfuel (Nat.not_lt_zero _)
  | succ fuel ih =>
      obtain ⟨hvalues, hitems, hmembers⟩ := ih
      exact ⟨.succ hitems hmembers, .succ hvalues hitems, .succ hvalues hmembers⟩

/-! ## Sorted keys -/

theorem map_fst_sortMembers (members : List (String × Json)) :
    (sortMembers members).map Prod.fst = members.map Prod.fst := by
  induction members with
  | nil => rfl
  | cons member rest ih =>
      obtain ⟨key, value⟩ := member
      rw [sortMembers, List.map_cons, List.map_cons, ih]

theorem nodup_insertionSort {members : List (String × Json)}
    (h : (members.map Prod.fst).Nodup) :
    ((members.insertionSort KeyLe).map Prod.fst).Nodup :=
  ((List.perm_insertionSort KeyLe members).map Prod.fst).nodup_iff.mpr h

mutual

/-- Sorting the keys changes no scalar. -/
theorem sortKeys_dumpable : ∀ (value : Json), value.Dumpable → value.sortKeys.Dumpable
  | .null, _ => trivial
  | .bool _, _ => trivial
  | .int _, _ => trivial
  | .float _, h => h
  | .str _, _ => trivial
  | .arr items, h => sortItems_dumpable items h
  | .obj members, h => by
      have hmembers := membersDumpable_iff.mp (sortMembers_dumpable members h.2)
      refine ⟨nodup_insertionSort (map_fst_sortMembers members ▸ h.1), ?_⟩
      apply membersDumpable_iff.mpr
      intro member hmember
      exact hmembers member ((List.mem_insertionSort KeyLe).mp hmember)

theorem sortItems_dumpable : ∀ (items : List Json), ItemsDumpable items →
    ItemsDumpable (sortItems items)
  | [], _ => trivial
  | item :: rest, h => ⟨sortKeys_dumpable item h.1, sortItems_dumpable rest h.2⟩

theorem sortMembers_dumpable : ∀ (members : List (String × Json)), MembersDumpable members →
    MembersDumpable (sortMembers members)
  | [], _ => trivial
  | (_, value) :: rest, h => ⟨sortKeys_dumpable value h.1, sortMembers_dumpable rest h.2⟩

end

/-- What `json.dumps` writes, `json.loads` reads back with its keys sorted. -/
theorem loads_dumps {value : Json} (h : value.Dumpable) :
    loads value.dumps = .ok value.sortKeys := by
  obtain ⟨c, tail, hcons, hspace, _⟩ := write_head value.sortKeys []
  have hread := (reads (value.dumps.length + 1)).1 value.sortKeys [] (sortKeys_dumpable value h)
    (Nat.lt_succ_self _) NumberText.stops_nil
  rw [List.append_nil] at hcons hread
  have hskip : skipSpace value.dumps = value.dumps := by
    rw [dumps, hcons, skipSpace_cons hspace]
  simp only [loads, hskip]
  rw [dumps] at hread ⊢
  simp only [hread, bind, Except.bind]
  rfl

/-- Values with one text are the same but for the order of their keys. -/
theorem sortKeys_eq_of_dumps_eq {value other : Json} (h : value.Dumpable) (hother : other.Dumpable)
    (heq : value.dumps = other.dumps) : value.sortKeys = other.sortKeys := by
  have hread := loads_dumps h
  rw [heq, loads_dumps hother] at hread
  exact (Except.ok.inj hread).symm

end Json

end Python
