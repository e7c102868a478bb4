import VerifierCI.Models.TypeHints
import VerifierCI.Models.Records
import VerifierCI.Python.FloatParse

/-! # Decoding records

`decode_record` reads the text, unwraps an envelope and converts the members of the
object to the declared types of the fields.
-/

namespace VerifierCI

open Python

/-- Why a payload is refused: the places that raise, with what their messages tell.
All but the last raise `ValidationError`. -/
inductive DecodeError where
  | payloadTooLarge (size : Nat) (maxBytes : Int)
  | unknownKind (kind : String)
  | invalidJson
  | schemaVersionType (found : String)
  | unsupportedSchemaVersion (version : WideString)
  | envelopeKind (found : WideJson) (kind : String)
  | expectedDict (cls found : String)
  | unexpectedFields (names : List WideString) (cls : String)
  | missingField (name cls : String)
  | noneNotAllowed (hint : TypeHint)
  | notAllowedLiteral (found : WideJson) (values : List String)
  | expectedType (expected found : String)
  /-- An integer too large for a float. -/
  | invalidFloat (value : Int)
  | nonFiniteFloat
  | naiveDatetime (text : WideString)
  | unreadableDatetime (text : WideString)
  | notADataclass (kind : String)
  | recursionError
deriving Repr

def DecodeError.isValidationError : DecodeError → Bool
  | .recursionError => false
  | _ => true

/-- The error whose message spells a value out, which takes frames of its own. -/
def Interpreter.spelling (interpreter : Interpreter) (found : WideJson) (error : DecodeError) :
    DecodeError :=
  if interpreter.formats found.skeleton then error else .recursionError

/-- `type(value).__name__`. -/
def typeName : WideJson → String
  | .null => "NoneType"
  | .bool _ => "bool"
  | .int _ => "int"
  | .float _ => "float"
  | .str _ => "str"
  | .arr _ => "list"
  | .obj _ => "dict"

def supportedSchemaVersions : List String := ["1.0", "1.0.0"]

def isSupportedVersion (version : WideString) : Bool :=
  supportedSchemaVersions.any fun supported => version == wide supported

/-- The check of a `schema_version` wherever it is a key. -/
def checkSchemaVersion : WideJson → Except DecodeError Unit
  | .str version =>
      if isSupportedVersion version then .ok () else .error (.unsupportedSchemaVersion version)
  | value => .error (.schemaVersionType (typeName value))

/-! ## Converting the value of a field -/

mutual

/-- `_convert_field(Any, value)`: lists become tuples. -/
def convertAny : WideJson → Value
  | .null => .none
  | .bool value => .bool value
  | .int value => .int value
  | .float value => .float value
  | .str value => .str value
  | .arr items => .tuple (convertAnyItems items)
  | .obj members => .mapping (convertAnyMembers members)

def convertAnyItems : List WideJson → List Value
  | [] => []
  | item :: rest => convertAny item :: convertAnyItems rest

def convertAnyMembers : List (WideString × WideJson) → List (WideString × Value)
  | [] => []
  | (key, value) :: rest => (key, convertAny value) :: convertAnyMembers rest

end

/-- Everything but `Any` and a union refuses `None` first. -/
def nonNull (hint : TypeHint) (value : WideJson)
    (convert : WideJson → Except DecodeError Value) : Except DecodeError Value :=
  match value with
  | .null => .error (.noneNotAllowed hint)
  | value => convert value

def convertBool : WideJson → Except DecodeError Value
  | .bool value => .ok (.bool value)
  | value => .error (.expectedType "bool" (typeName value))

def convertInt : WideJson → Except DecodeError Value
  | .int value => .ok (.int value)
  | value => .error (.expectedType "int" (typeName value))

def convertFloat : WideJson → Except DecodeError Value
  | .int value =>
      match PyFloat.ofInt? value with
      | some float => .ok (.float float)
      | none => .error (.invalidFloat value)
  | .float value => if value.isFinite then .ok (.float value) else .error .nonFiniteFloat
  | value => .error (.expectedType "float" (typeName value))

def convertStr : WideJson → Except DecodeError Value
  | .str text => .ok (.str text)
  | value => .error (.expectedType "str" (typeName value))

/-- `val.replace("Z", "+00:00")`, wherever a `Z` stands. -/
def replaceZ (text : WideString) : WideString :=
  text.flatMap fun p => if p = codePoint 'Z' then wide "+00:00" else [p]

def checkKeys (cls : String) (names : List String) (members : List (WideString × WideJson)) :
    Except DecodeError Unit := do
  match members.lookup (wide "schema_version") with
  | some version => checkSchemaVersion version
  | none => .ok ()
  let extra := members.filter fun member => names.all fun name => member.1 != wide name
  if extra.isEmpty then .ok () else .error (.unexpectedFields (extra.map Prod.fst) cls)

def instantiateWith (cls : String) (names : List String)
    (convert : List (WideString × WideJson) → Except DecodeError (List (String × Value))) :
    WideJson → Except DecodeError Value
  | .obj members => do
      checkKeys cls names members
      let fields ← convert members
      .ok (.record cls fields)
  | value => .error (.expectedDict cls (typeName value))

section Convert

variable (interpreter : Interpreter)

/-- The message about a text takes no frames. -/
def convertLiteral (values : List String) (value : WideJson) : Except DecodeError Value :=
  match value with
  | .str text =>
      if values.any fun allowed => text == wide allowed then .ok (.str text)
      else .error (.notAllowedLiteral value values)
  | value => .error (interpreter.spelling value (.notAllowedLiteral value values))

def convertDatetime : WideJson → Except DecodeError Value
  | .str text =>
      match interpreter.fromIsoformat (replaceZ text) with
      | none => .error (.unreadableDatetime text)
      | some value =>
          if value.utcoffset.isNone then .error (.naiveDatetime text) else .ok (.datetime value)
  | value => .error (.expectedType "datetime string" (typeName value))

mutual

/-- `_convert_field(target_type, val)`. -/
def convertField : TypeHint → WideJson → Except DecodeError Value
  | .any, value =>
      if interpreter.converts value.skeleton then .ok (convertAny value) else .error .recursionError
  | .optional alternative, value =>
      match value with
      | .null => .ok .none
      | value => convertField alternative value
  | .literal values, value => nonNull (.literal values) value (convertLiteral interpreter values)
  | .bool, value => nonNull .bool value convertBool
  | .int, value => nonNull .int value convertInt
  | .float, value => nonNull .float value convertFloat
  | .str, value => nonNull .str value convertStr
  | .datetime, value => nonNull .datetime value (convertDatetime interpreter)
  | .tuple item, value =>
      nonNull (.tuple item) value fun
        | .arr items => do
            let items ← items.mapM (convertField item)
            .ok (.tuple items)
        | value => .error (.expectedType "tuple/list" (typeName value))
  | .mapping entry, value =>
      nonNull (.mapping entry) value fun
        | .obj members => do
            let entries ← members.mapM fun member => do
              let value ← convertField entry member.2
              .ok (member.1, value)
            .ok (.mapping entries)
        | value => .error (.expectedType "dict/mapping" (typeName value))
  | .dataclass cls fields, value =>
      nonNull (.dataclass cls fields) value
        (instantiateWith cls (fields.map Prod.fst) (convertFields cls fields))

/-- The loop over the fields of `_instantiate_dataclass`. -/
def convertFields (cls : String) : List (String × TypeHint) → List (WideString × WideJson) →
    Except DecodeError (List (String × Value))
  | [], _ => .ok []
  | (name, hint) :: rest, members =>
      match members.lookup (wide name) with
      | none => .error (.missingField name cls)
      | some value => do
          let value ← convertField hint value
          let rest ← convertFields cls rest members
          .ok ((name, value) :: rest)

end

/-- `_instantiate_dataclass(cls, data)`. -/
def instantiateDataclass (cls : String) (fields : List (String × TypeHint)) :
    WideJson → Except DecodeError Value :=
  instantiateWith cls (fields.map Prod.fst) (convertFields interpreter cls fields)

/-! ## Decoding a payload -/

/-- `json.loads(payload.decode("utf-8"), object_pairs_hook=_json_no_duplicates)`. -/
def readPayload (payload : List UInt8) : Except DecodeError WideJson :=
  match decodeUtf8? payload with
  | none => .error .invalidJson
  | some text =>
      match WideJson.loads interpreter.maxNesting text with
      | .error _ => .error .invalidJson
      | .ok data => .ok data

end Convert

/-- The members of an exact `{schema_version, kind, data}` object. -/
def envelope? : WideJson → Option (WideJson × WideJson × WideJson)
  | .obj members => do
      let version ← members.lookup (wide "schema_version")
      let kind ← members.lookup (wide "kind")
      let data ← members.lookup (wide "data")
      if members.length = 3 then some (version, kind, data) else none
  | _ => none

/-- The record data of a payload: what an envelope holds, or the payload itself. -/
def unwrapEnvelope (interpreter : Interpreter) (kind : String) (data : WideJson) :
    Except DecodeError WideJson :=
  match envelope? data with
  | none => .ok data
  | some (version, found, inner) => do
      checkSchemaVersion version
      match found with
      | .str text =>
          if text == wide kind then .ok inner else .error (.envelopeKind (.str text) kind)
      | found => .error (interpreter.spelling found (.envelopeKind found kind))

/-- `decode_record(kind, payload, max_bytes=max_bytes)`. -/
def decodeRecord (interpreter : Interpreter) (maxBytes : Int) (kind : String)
    (payload : List UInt8) : Except DecodeError Value :=
  if maxBytes < payload.length then .error (.payloadTooLarge payload.length maxBytes)
  else
    match TypeHint.kindRegistry.lookup kind with
    | none => .error (.unknownKind kind)
    | some hint => do
        let data ← readPayload interpreter payload
        match hint with
        | .dataclass cls fields => do
            let data ← unwrapEnvelope interpreter kind data
            instantiateDataclass interpreter cls fields data
        | _ => .error (.notADataclass kind)

end VerifierCI
