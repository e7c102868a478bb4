import VerifierCI.Errors
import VerifierCI.Python.IntParse

/-! # Loaded YAML values

The values a safe YAML loader builds, with the conversions the code applies to
them. A lone surrogate, which no `Char` is, is read as U+FFFD. What `str` shows
of a bytes object, a date or a collection is a parameter.
-/

namespace Python

open VerifierCI

inductive Yaml where
  | null
  | bool (value : Bool)
  | int (n : Int)
  | float (x : PyFloat)
  | str (text : String)
  | bytes (data : List UInt8)
  | date (isoformat : String)
  | datetime (isoformat : String)
  | list (items : List Yaml)
  | tuple (items : List Yaml)
  /-- The elements in the order of iteration. -/
  | set (items : List Yaml)
  | dict (members : List (Yaml × Yaml))

namespace Yaml

def str? : Yaml → Option String
  | .str text => some text
  | _ => none

/-- `type(value).__name__`. -/
def typeName : Yaml → String
  | .null => "NoneType"
  | .bool _ => "bool"
  | .int _ => "int"
  | .float _ => "float"
  | .str _ => "str"
  | .bytes _ => "bytes"
  | .date _ => "date"
  | .datetime _ => "datetime"
  | .list _ => "list"
  | .tuple _ => "tuple"
  | .set _ => "set"
  | .dict _ => "dict"

/-- `members.get(name)` on a dictionary. -/
def get? (members : List (Yaml × Yaml)) (name : String) : Option Yaml :=
  (members.find? fun member => member.1.str? = some name).map Prod.snd

/-- `members.get(name, default)`. -/
def get (members : List (Yaml × Yaml)) (name : String) (default : Yaml) : Yaml :=
  (get? members name).getD default

/-- The elements `for x in value` binds. -/
def iterate : Yaml → Except Exc (List Yaml)
  | .str text => .ok (text.toList.map fun c => .str (String.singleton c))
  | .bytes data => .ok (data.map fun b => .int b.toNat)
  | .list items | .tuple items | .set items => .ok items
  | .dict members => .ok (members.map Prod.fst)
  | _ => .error .typeError

/-- `bool(value)`. -/
def truthy : Yaml → Bool
  | .null => false
  | .bool value => value
  | .int n => n ≠ 0
  | .float x => x.magnitude ≠ 0
  | .str text => text ≠ ""
  | .bytes data => data ≠ []
  | .date _ | .datetime _ => true
  | .list items | .tuple items | .set items => !items.isEmpty
  | .dict members => !members.isEmpty

/-- `needle in value`, where the needle is a string. -/
def contains (needle : String) : Yaml → Except Exc Bool
  | .str text => .ok (Python.contains needle.toList text.toList)
  | .list items | .tuple items | .set items => .ok (items.any fun item => item.str? = some needle)
  | .dict members => .ok (members.any fun member => member.1.str? = some needle)
  | _ => .error .typeError

/-- `str` of a float. -/
def strOfFloat (x : PyFloat) : String :=
  match x.number with
  | .nan => "nan"
  | .infinity negative => if negative then "-inf" else "inf"
  | .rational _ => String.ofList (NumberText.ofFloat x).text

/-- `str(value)`; `repr` covers the values that are no scalars. -/
def toStr (repr : Yaml → Except Exc String) : Yaml → Except Exc String
  | .null => .ok "None"
  | .bool value => .ok (if value then "True" else "False")
  | .int n =>
      match strOfInt? n with
      | none => .error .valueError
      | some text => .ok text
  | .float x => .ok (strOfFloat x)
  | .str text => .ok text
  | .date isoformat | .datetime isoformat => .ok isoformat
  | value => repr value

/-- `tuple(str(x) for x in value)`. -/
def toStrs (repr : Yaml → Except Exc String) (value : Yaml) : Except Exc (List String) := do
  let items ← value.iterate
  items.mapM (toStr repr)

/-- `int(value)`. -/
def toInt : Yaml → Except Exc Int
  | .bool value => .ok (if value then 1 else 0)
  | .int n => .ok n
  | .float x =>
      match x.toInt? with
      | none => .error (if x.number = .nan then .valueError else .overflowError)
      | some n => .ok n
  | .str text =>
      match intOfText? text.toList with
      | none => .error .valueError
      | some n => .ok n
  | .bytes data =>
      -- only ASCII digits count in a bytes object
      match intOfText? (data.map fun b => if b < 128 then Char.ofNat b.toNat else '?') with
      | none => .error .valueError
      | some n => .ok n
  | _ => .error .typeError

end Yaml

end Python
