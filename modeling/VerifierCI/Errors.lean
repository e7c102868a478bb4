import Mathlib.Data.List.Forall2
import Mathlib.Tactic.Common

/-! # Typed errors

The repository's own exceptions carry a class, a message and a stable code.
The remaining constructors are raised by the libraries the code calls.
-/

namespace VerifierCI

/-- Stable machine-readable error codes. -/
inductive ErrorCode where
  | patchError
  | buildError
  | collectionMismatch
  | emptyCollection
  | timeout
  | resourceExhausted
  | artifactLimit
  | digestMismatch
  | imageUnavailable
  | runtimeUnavailable
  | leaseLost
  | cancelled
  | parserError
  | databaseError
  | unsupportedDiagnostic
  | identityConflict
  | validationError
  | protectionError
  | infrastructureError
deriving DecidableEq, Repr

def ErrorCode.text : ErrorCode → String
  | .patchError => "PATCH_ERROR"
  | .buildError => "BUILD_ERROR"
  | .collectionMismatch => "COLLECTION_MISMATCH"
  | .emptyCollection => "EMPTY_COLLECTION"
  | .timeout => "TIMEOUT"
  | .resourceExhausted => "RESOURCE_EXHAUSTED"
  | .artifactLimit => "ARTIFACT_LIMIT"
  | .digestMismatch => "DIGEST_MISMATCH"
  | .imageUnavailable => "IMAGE_UNAVAILABLE"
  | .runtimeUnavailable => "RUNTIME_UNAVAILABLE"
  | .leaseLost => "LEASE_LOST"
  | .cancelled => "CANCELLED"
  | .parserError => "PARSER_ERROR"
  | .databaseError => "DATABASE_ERROR"
  | .unsupportedDiagnostic => "UNSUPPORTED_DIAGNOSTIC"
  | .identityConflict => "IDENTITY_CONFLICT"
  | .validationError => "VALIDATION_ERROR"
  | .protectionError => "PROTECTION_ERROR"
  | .infrastructureError => "INFRASTRUCTURE_ERROR"

/-- The subclasses of `VerifierCIError`. -/
inductive ErrorClass where
  | protectionError
  | validationError
  | identityConflict
  | infrastructureError
  | leaseLost
deriving DecidableEq, Repr

/-- The code a class uses when its constructor is given none. -/
def ErrorClass.defaultCode : ErrorClass → ErrorCode
  | .protectionError => .protectionError
  | .validationError => .validationError
  | .identityConflict => .identityConflict
  | .infrastructureError => .infrastructureError
  | .leaseLost => .leaseLost

/-- A raised exception. -/
inductive Exc where
  | verifierCI (cls : ErrorClass) (message : String) (code : ErrorCode)
  /-- `sqlite3.IntegrityError`: a constraint or a trigger aborts the statement. -/
  | integrityError
  /-- `OverflowError`: an integer outside SQLite's 64 bits, the floats or `time_t`, or an
  aware datetime whose UTC instant is out of range. -/
  | overflowError
  /-- `RecursionError`: calls that nest deeper than the interpreter allows. -/
  | recursionError
  /-- `TypeError`: a decoded JSON value that cannot be iterated. -/
  | typeError
  /-- `KeyError`: a key that a dictionary does not have. -/
  | keyError
  /-- `OSError`: the operating system refuses access to a path, or the C library a year. -/
  | osError
  /-- `ValueError`: a text that spells no number, a number too long to spell, or a clock
  outside the years 1 to 9999. -/
  | valueError
  /-- `UnicodeDecodeError`: a text file whose bytes are not UTF-8. -/
  | unicodeDecodeError
  /-- `UnicodeEncodeError`: a string with a lone surrogate. -/
  | unicodeEncodeError
  /-- `sqlite3.OperationalError`: a statement the state of the connection does not allow. -/
  | operationalError
  /-- The loop bound of a model function was too small; see `claim_ne_outOfFuel`. -/
  | outOfFuel
deriving DecidableEq, Repr

/-- Is the exception a `LeaseLost`? -/
def Exc.isLeaseLost : Exc → Bool
  | .verifierCI .leaseLost _ _ => true
  | _ => false

/-- `raise IdentityConflict(message)` and its siblings, with the class's own code. -/
def raiseWith {α : Type} (cls : ErrorClass) (message : String) : Except Exc α :=
  .error (.verifierCI cls message cls.defaultCode)

/-- `str(value)` of an optional integer. -/
def strOfOptionInt : Option Int → String
  | none => "None"
  | some n => toString n

/-- A computation that may raise succeeds when both of its parts do. -/
theorem bind_eq_ok {ε α β : Type} {first : Except ε α} {next : α → Except ε β} {value : β} :
    first >>= next = .ok value ↔ ∃ a, first = .ok a ∧ next a = .ok value := by
  cases first with
  | error exc =>
      constructor
      · intro h
        cases h
      · rintro ⟨a, h, _⟩
        cases h
  | ok a =>
      constructor
      · intro h
        exact ⟨a, rfl, h⟩
      · rintro ⟨a', h, hnext⟩
        cases h
        exact hnext

theorem bind_eq_ok_unit {ε β : Type} {first : Except ε Unit} {next : Unit → Except ε β}
    {value : β} :
    first >>= next = .ok value ↔ first = .ok () ∧ next () = .ok value := by
  rw [bind_eq_ok]
  exact ⟨fun ⟨_, hfirst, hnext⟩ => ⟨hfirst, hnext⟩, fun ⟨hfirst, hnext⟩ => ⟨(), hfirst, hnext⟩⟩

/-- It fails where the first of its parts that fails does. -/
theorem bind_eq_error {ε α β : Type} {first : Except ε α} {next : α → Except ε β} {error : ε} :
    first >>= next = .error error ↔
      first = .error error ∨ ∃ a, first = .ok a ∧ next a = .error error := by
  cases first with
  | error exc =>
      constructor
      · intro h
        obtain rfl := Except.error.inj h
        exact Or.inl rfl
      · rintro (h | ⟨a, h, _⟩)
        · obtain rfl := Except.error.inj h
          rfl
        · cases h
  | ok a =>
      constructor
      · intro h
        exact Or.inr ⟨a, rfl, h⟩
      · rintro (h | ⟨a', h, hnext⟩)
        · cases h
        · cases h
          exact hnext

/-- A loop over checks succeeds when every check does. -/
theorem forM_eq_ok {ε α : Type} {check : α → Except ε Unit} {items : List α} :
    items.forM check = .ok () ↔ ∀ item ∈ items, check item = .ok () := by
  induction items with
  | nil => simp [pure, Except.pure]
  | cons item rest ih => rw [List.forM, bind_eq_ok_unit, ih, List.forall_mem_cons]

/-- A loop that collects results succeeds when every turn does. -/
theorem mapM_eq_ok {ε α β : Type} {f : α → Except ε β} {items : List α} {results : List β} :
    items.mapM f = .ok results ↔
      List.Forall₂ (fun item result => f item = .ok result) items results := by
  induction items generalizing results with
  | nil =>
      rw [List.mapM_nil, List.forall₂_nil_left_iff]
      exact ⟨fun h => (Except.ok.inj h).symm, fun h => congrArg Except.ok h.symm⟩
  | cons item rest ih =>
      rw [List.mapM_cons, bind_eq_ok]
      constructor
      · rintro ⟨result, hresult, hrest⟩
        obtain ⟨tail, htail, hresults⟩ := bind_eq_ok.mp hrest
        obtain rfl := Except.ok.inj hresults
        exact .cons hresult (ih.mp htail)
      · intro h
        cases h with
        | cons hresult htail =>
            exact ⟨_, hresult, bind_eq_ok.mpr ⟨_, ih.mpr htail, rfl⟩⟩

/-- A list of fallible computations succeeds exactly if each of them does. -/
theorem exists_mapM_ok {ε α β : Type} {f : α → Except ε β} {items : List α} :
    (∃ results, items.mapM f = .ok results) ↔ ∀ item ∈ items, ∃ result, f item = .ok result := by
  induction items with
  | nil => exact ⟨fun _ _ hitem => absurd hitem List.not_mem_nil, fun _ => ⟨[], rfl⟩⟩
  | cons item rest ih =>
      rw [List.forall_mem_cons, ← ih]
      simp only [List.mapM_cons, bind_eq_ok]
      constructor
      · rintro ⟨_, result, hresult, results, hresults, _⟩
        exact ⟨⟨result, hresult⟩, results, hresults⟩
      · rintro ⟨⟨result, hresult⟩, results, hresults⟩
        exact ⟨result :: results, result, hresult, results, hresults, rfl⟩

/-- It fails with the failure of some turn. -/
theorem exists_of_mapM_error {ε α β : Type} {f : α → Except ε β} {items : List α} {error : ε}
    (h : items.mapM f = .error error) : ∃ item ∈ items, f item = .error error := by
  induction items with
  | nil => cases h
  | cons item rest ih =>
      rw [List.mapM_cons, bind_eq_error] at h
      rcases h with hitem | ⟨result, _, hrest⟩
      · exact ⟨item, List.mem_cons_self, hitem⟩
      · rcases bind_eq_error.mp hrest with hrest | ⟨_, _, hresults⟩
        · obtain ⟨failing, hfailing, hf⟩ := ih hrest
          exact ⟨failing, List.mem_cons_of_mem item hfailing, hf⟩
        · cases hresults

theorem exists_of_mem_mapM {ε α β : Type} {f : α → Except ε β} {items : List α}
    {results : List β} (h : items.mapM f = .ok results) {result : β} (hresult : result ∈ results) :
    ∃ item ∈ items, f item = .ok result := by
  have hall := mapM_eq_ok.mp h
  clear h
  induction hall with
  | nil => cases hresult
  | cons hfirst _ ih =>
      rcases List.mem_cons.mp hresult with rfl | hrest
      · exact ⟨_, List.mem_cons_self, hfirst⟩
      · obtain ⟨item, hitem, hf⟩ := ih hrest
        exact ⟨item, List.mem_cons_of_mem _ hitem, hf⟩

/-- What the file system answers; without an answer it raises. -/
def answered {α : Type} : Option α → Except Exc α
  | none => .error .osError
  | some answer => .ok answer

theorem answered_eq_ok {α : Type} {answer : Option α} {value : α}
    (h : answered answer = .ok value) : answer = some value := by
  cases answer with
  | none => cases h
  | some given => exact congrArg some (Except.ok.inj h)

end VerifierCI
