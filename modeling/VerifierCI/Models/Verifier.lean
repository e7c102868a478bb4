import VerifierCI.Errors
import VerifierCI.Models.Canonical
import VerifierCI.Python.IntParse

/-! # Verifier manifests and their commands

A command template is resolved token by token: a token that holds a brace has
to be one of the four placeholders, and stands for a path.
-/

namespace VerifierCI

open Python

/-- Declared assurance boundary. -/
inductive VerifierMode where
  | compatibility
  | blackbox
deriving DecidableEq, Repr

def VerifierMode.text : VerifierMode → String
  | .compatibility => "compatibility"
  | .blackbox => "blackbox"

/-- Verifier execution configuration and test inventory. -/
structure VerifierManifest where
  manifestHash : String
  mode : VerifierMode
  command : List String
  /-- Optional build argv, empty when absent. -/
  buildCommand : List String
  expectedCollection : List String
  parserId : String
  /-- Relative result path under the out directory. -/
  reportPath : String
  /-- Read-only verifier bundle artifact. -/
  payloadDigest : String
  allowedEditPaths : List String
  requiredPassIds : List String
  permittedSkips : List String
  timeoutSeconds : Int
deriving DecidableEq, Repr

/-- SHA-256 of the canonical manifest content. It raises `ValueError` when the
timeout is too long to spell. -/
def manifestHash (sha256 : List UInt8 → Digest) (manifest : VerifierManifest) :
    Except Exc String :=
  match strOfInt? manifest.timeoutSeconds with
  | none => .error .valueError
  | some _ =>
      .ok (sha256 (canonicalBytes (.obj [
        ("mode", .str manifest.mode.text),
        ("command", Json.ofStrings manifest.command),
        ("build_command", Json.ofStrings manifest.buildCommand),
        ("expected_collection", Json.ofStrings manifest.expectedCollection),
        ("parser_id", .str manifest.parserId),
        ("report_path", .str manifest.reportPath),
        ("payload_digest", .str manifest.payloadDigest),
        ("allowed_edit_paths", Json.ofStrings manifest.allowedEditPaths),
        ("required_pass_ids", Json.ofStrings manifest.requiredPassIds),
        ("permitted_skips", Json.ofStrings manifest.permittedSkips),
        ("timeout_seconds", .int manifest.timeoutSeconds)]))).text

/-- A specific versioned verifier snapshot with its lineage and compatibility. -/
structure VerifierVersion where
  verifierKey : String
  verifierId : String
  version : String
  parentKey : Option String
  manifestHash : String
  payloadDigest : String
  compatibleContractHashes : List String
  createdAt : Datetime
deriving DecidableEq, Repr

structure CommandSpec where
  argv : List String
  cwd : String
  env : List (String × String)
  stdinDigest : Option String
  timeoutSeconds : Int
deriving DecidableEq, Repr

def allowedPlaceholders : List String :=
  ["\x7bout\x7d", "\x7bseed\x7d", "\x7bverifier\x7d", "\x7bworkspace\x7d"]

/-- `"{" in token or "}" in token`. -/
def hasBrace (token : String) : Bool :=
  token.toList.contains '{' || token.toList.contains '}'

/-- `token[1:-1]`. -/
def placeholderKey (token : String) : String :=
  String.ofList ((token.toList.drop 1).dropLast)

def resolveToken (paths : List (String × String)) (token : String) : Except Exc String :=
  if hasBrace token then
    if token ∉ allowedPlaceholders then
      raiseWith .validationError ("Invalid placeholder in token '" ++ token ++
        "'. Only whole-token placeholders (" ++ ", ".intercalate allowedPlaceholders ++
        ") are allowed; partial expansion is prohibited.")
    else
      match paths.lookup (placeholderKey token) with
      | none => raiseWith .validationError
          ("Missing required path substitution for placeholder '" ++ token ++ "'.")
      | some path => .ok path
  else .ok token

/-- Resolve whole-token placeholders in a command template. -/
def resolveCommand (template : List String) (paths : List (String × String)) (cwd : Option String)
    (timeoutSeconds : Int) (env : List (String × String)) : Except Exc CommandSpec := do
  let argv ← template.mapM (resolveToken paths)
  .ok {
    argv := argv
    cwd := cwd.getD ((paths.lookup "workspace").getD "/")
    env := env
    stdinDigest := none
    timeoutSeconds := timeoutSeconds }

/-! ## When a template resolves -/

/-- A token that is taken as it stands or names a path. -/
def WellPlaced (token : String) : Prop :=
  hasBrace token = true → token ∈ allowedPlaceholders

instance (token : String) : Decidable (WellPlaced token) :=
  inferInstanceAs (Decidable (_ → _))

/-- Every placeholder has a substitution. -/
def Covers (paths : List (String × String)) : Prop :=
  ∀ token ∈ allowedPlaceholders, (paths.lookup (placeholderKey token)).isSome = true

/-- What a well placed token stands for. -/
def substitute (paths : List (String × String)) (token : String) : String :=
  if hasBrace token then (paths.lookup (placeholderKey token)).getD token else token

section Resolve

variable {paths : List (String × String)}

/-- A token is taken as it stands, replaced as a whole, or refused. A brace inside any other
token is refused, so nothing is replaced in part. -/
theorem resolveToken_eq_ok_iff (hcovers : Covers paths) {token path : String} :
    resolveToken paths token = .ok path ↔ WellPlaced token ∧ path = substitute paths token := by
  unfold resolveToken WellPlaced substitute
  by_cases hbrace : hasBrace token = true
  · rw [if_pos hbrace, if_pos hbrace]
    by_cases hallowed : token ∈ allowedPlaceholders
    · rw [if_neg (not_not.mpr hallowed)]
      obtain ⟨found, hfound⟩ := Option.isSome_iff_exists.mp (hcovers token hallowed)
      rw [hfound, Option.getD_some]
      constructor
      · intro h
        exact ⟨fun _ => hallowed, (Except.ok.inj h).symm⟩
      · rintro ⟨_, rfl⟩
        rfl
    · rw [if_pos hallowed]
      constructor
      · intro h
        cases h
      · rintro ⟨h, _⟩
        exact absurd (h hbrace) hallowed
  · rw [if_neg hbrace, if_neg hbrace]
    constructor
    · intro h
      exact ⟨fun h => absurd h hbrace, (Except.ok.inj h).symm⟩
    · rintro ⟨_, rfl⟩
      rfl

theorem mapM_resolveToken_eq_ok_iff (hcovers : Covers paths) {template argv : List String} :
    template.mapM (resolveToken paths) = .ok argv ↔
      (∀ token ∈ template, WellPlaced token) ∧ argv = template.map (substitute paths) := by
  rw [mapM_eq_ok]
  induction template generalizing argv with
  | nil => simp
  | cons token rest ih =>
      rw [List.forall_mem_cons, List.map_cons]
      constructor
      · intro h
        cases h with
        | cons htoken hrest =>
            obtain ⟨hplaced, rfl⟩ := (resolveToken_eq_ok_iff hcovers).mp htoken
            obtain ⟨hothers, rfl⟩ := ih.mp hrest
            exact ⟨⟨hplaced, hothers⟩, rfl⟩
      · rintro ⟨⟨hplaced, hothers⟩, rfl⟩
        exact .cons ((resolveToken_eq_ok_iff hcovers).mpr ⟨hplaced, rfl⟩) (ih.mpr ⟨hothers, rfl⟩)

/-- With all paths given, a template resolves when its tokens are well placed. -/
theorem resolveCommand_eq_ok_iff (hcovers : Covers paths) {template : List String}
    {cwd : Option String} {timeoutSeconds : Int} {env : List (String × String)}
    {spec : CommandSpec} :
    resolveCommand template paths cwd timeoutSeconds env = .ok spec ↔
      (∀ token ∈ template, WellPlaced token) ∧ spec =
        { argv := template.map (substitute paths)
          cwd := cwd.getD ((paths.lookup "workspace").getD "/")
          env := env
          stdinDigest := none
          timeoutSeconds := timeoutSeconds } := by
  rw [resolveCommand, bind_eq_ok]
  constructor
  · rintro ⟨argv, hargv, h⟩
    obtain ⟨hplaced, rfl⟩ := (mapM_resolveToken_eq_ok_iff hcovers).mp hargv
    exact ⟨hplaced, (Except.ok.inj h).symm⟩
  · rintro ⟨hplaced, rfl⟩
    exact ⟨_, (mapM_resolveToken_eq_ok_iff hcovers).mpr ⟨hplaced, rfl⟩, rfl⟩

end Resolve

end VerifierCI
