import VerifierCI.Errors
import VerifierCI.Models.Canonical
import VerifierCI.Python.FromIso
import VerifierCI.Python.WideLoads

/-! # Records and their canonical bytes

The encoder goes by the values it finds, not by the declarations of their fields.
-/

namespace VerifierCI

open Python

/-- What the code takes from the interpreter it runs on. A value is walked through if
the recursion limit lets the calls nest as deep as its arrays and objects do. -/
structure Interpreter where
  /-- `datetime.fromisoformat`, or `none` for a `ValueError`. -/
  fromIsoformat : WideString → Option Datetime
  /-- It undoes `isoformat`. -/
  reads_isoformat : ∀ value : Datetime, value.utcoffset = some 0 →
    fromIsoformat (value.isoformat.map codePoint) = some value
  /-- A year has four digits. -/
  refuses_short : ∀ year rest : List Char, year.length < 4 →
    fromIsoformat ((year ++ '-' :: rest).map codePoint) = none
  /-- The levels of arrays and objects `json.loads` follows. -/
  maxNesting : Nat
  maxNesting_ge : 16 ≤ maxNesting
  /-- Can `_convert_field` walk through a value under `Any`? -/
  converts : WideJson → Bool
  /-- Can a message of `decode_record` spell a value out? -/
  formats : WideJson → Bool
  /-- Can `canonical_repr` and `json.dumps` walk through a value? -/
  encodes : WideJson → Bool

/-- An interpreter with the default recursion limit, which two frames a level use up. To
spell a value out takes one. -/
def Interpreter.default : Interpreter where
  fromIsoformat := fromIsoformatWide
  reads_isoformat value hutc := by
    rw [fromIsoformatWide_map, fromIsoformat_isoformat hutc]
  refuses_short year rest hyear := by
    rw [fromIsoformatWide_map, fromIsoformat_short hyear]
  maxNesting := 990
  maxNesting_ge := by decide
  converts skeleton := decide (skeleton.depth ≤ 490)
  formats skeleton := decide (skeleton.depth ≤ 980)
  encodes skeleton := decide (skeleton.depth ≤ 490)

/-- A value of a field. The items of a mapping are listed in the order of their keys. -/
inductive Value where
  | none
  | bool (value : Bool)
  | int (value : Int)
  | float (value : PyFloat)
  | str (value : WideString)
  | datetime (value : Datetime)
  | tuple (items : List Value)
  | mapping (entries : List (WideString × Value))
  /-- An instance of a dataclass, with its fields in the order of their declaration. -/
  | record (cls : String) (fields : List (String × Value))
deriving Repr

namespace Value

/-- What holds of a value whenever it holds of its parts holds of every value. -/
@[elab_as_elim]
theorem ind {P : Value → Prop} (none : P .none) (bool : ∀ value, P (.bool value))
    (int : ∀ value, P (.int value)) (float : ∀ value, P (.float value))
    (str : ∀ value, P (.str value)) (datetime : ∀ value, P (.datetime value))
    (tuple : ∀ items, (∀ item ∈ items, P item) → P (.tuple items))
    (mapping : ∀ entries, (∀ entry ∈ entries, P entry.2) → P (.mapping entries))
    (record : ∀ cls fields, (∀ field ∈ fields, P field.2) → P (.record cls fields)) :
    ∀ value, P value :=
  @Value.rec P (fun items => ∀ item ∈ items, P item) (fun entries => ∀ entry ∈ entries, P entry.2)
    (fun fields => ∀ field ∈ fields, P field.2) (fun entry => P entry.2) (fun field => P field.2)
    none bool int float str datetime tuple mapping record
    (fun _ h => nomatch h) (fun _ _ hhead htail => List.forall_mem_cons.mpr ⟨hhead, htail⟩)
    (fun _ h => nomatch h) (fun _ _ hhead htail => List.forall_mem_cons.mpr ⟨hhead, htail⟩)
    (fun _ h => nomatch h) (fun _ _ hhead htail => List.forall_mem_cons.mpr ⟨hhead, htail⟩)
    (fun _ _ h => h) (fun _ _ h => h)

/-! ## Equality -/

def number? : Value → Option Number
  | .bool value => some (.rational (if value then 1 else 0))
  | .int value => some (.rational value)
  | .float value => some value.number
  | _ => Option.none

mutual

/-- `==`. Aware datetimes are equal when they denote the same instant, and records when
their fields are. -/
def eq : Value → Value → Bool
  | .none, .none => true
  | .str a, .str b => a == b
  | .datetime a, .datetime b =>
      a.utcoffset.isSome == b.utcoffset.isSome && a.instant == b.instant
  | .tuple xs, .tuple ys => eqItems xs ys
  | .mapping xs, .mapping ys => eqEntries xs ys
  | .record a xs, .record b ys => a == b && eqFields xs ys
  | x, y =>
      match x.number?, y.number? with
      | some a, some b => a.eq b
      | _, _ => false

def eqItems : List Value → List Value → Bool
  | [], [] => true
  | x :: xs, y :: ys => x.eq y && eqItems xs ys
  | _, _ => false

def eqEntries : List (WideString × Value) → List (WideString × Value) → Bool
  | [], [] => true
  | (a, x) :: xs, (b, y) :: ys => a == b && x.eq y && eqEntries xs ys
  | _, _ => false

def eqFields : List (String × Value) → List (String × Value) → Bool
  | [], [] => true
  | (a, x) :: xs, (b, y) :: ys => a == b && x.eq y && eqFields xs ys
  | _, _ => false

end

end Value

/-! ## Encoding -/

/-- The RFC 3339 text of a UTC datetime. `%Y` does not pad a year. -/
def utcText (value : Datetime) : List Char :=
  let fields := fieldsOfMicros value.micros
  fields.isoText (Nat.toDigits 10 fields.year) ++ ['Z']

mutual

/-- `canonical_repr(value)`. -/
def canonicalRepr : Value → Except Exc WideJson
  | .none => .ok .null
  | .bool value => .ok (.bool value)
  | .int value => .ok (.int value)
  | .float value =>
      if value.isFinite then .ok (.float value)
      else raiseWith .validationError "Non-finite float values are prohibited in canonical JSON."
  | .str value => .ok (.str value)
  | .datetime value =>
      if value.utcoffset.isNone then raiseWith .validationError "Datetime must be timezone-aware."
      else
        match value.astimezoneUtc? with
        | none => .error .overflowError
        | some utc => .ok (.str ((utcText utc).map codePoint))
  | .tuple items => do
      let items ← reprItems items
      .ok (.arr items)
  | .mapping entries => do
      let entries ← reprEntries entries
      .ok (.obj entries)
  | .record _ fields => do
      let fields ← reprFields fields
      .ok (.obj (dict fields))

def reprItems : List Value → Except Exc (List WideJson)
  | [] => .ok []
  | item :: rest => do
      let item ← canonicalRepr item
      let rest ← reprItems rest
      .ok (item :: rest)

def reprEntries : List (WideString × Value) → Except Exc (List (WideString × WideJson))
  | [] => .ok []
  | (key, value) :: rest => do
      let value ← canonicalRepr value
      let rest ← reprEntries rest
      .ok ((key, value) :: rest)

def reprFields : List (String × Value) → Except Exc (List (WideString × WideJson))
  | [] => .ok []
  | (name, value) :: rest => do
      let value ← canonicalRepr value
      let rest ← reprFields rest
      .ok ((wide name, value) :: rest)

end

/-- `encode_record(record)`. A value that cannot be walked through raises
`RecursionError`, and an integer with too many digits `ValueError`. -/
def encodeRecord (interpreter : Interpreter) (record : Value) : Except Exc (List UInt8) := do
  let normalized ← canonicalRepr record
  if interpreter.encodes normalized.skeleton = false then .error .recursionError
  else if normalized.fits = false then .error .valueError
  else
    match normalized.narrow with
    | none => .error .unicodeEncodeError
    | some text => .ok (canonicalBytes text)

end VerifierCI
