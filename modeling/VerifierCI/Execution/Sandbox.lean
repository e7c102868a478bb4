import VerifierCI.Errors
import VerifierCI.Python.Fnmatch
import VerifierCI.Python.Utf8

/-! # Patch validation

The validator reads a patch line by line and checks the paths of the header
forms it knows.
-/

namespace VerifierCI

open Python

def modePrefixes : List String :=
  ["new file mode ", "old mode ", "new mode ", "deleted file mode "]

/-- `text.startswith(prefixes)`. -/
def startsWithAny (prefixes : List String) (text : List Char) : Bool :=
  prefixes.any fun marker => marker.toList.isPrefixOf text

/-- Does a line announce a symlink? -/
def isSymlinkMode (line : List Char) : Bool :=
  startsWithAny modePrefixes (strip line) && "120000".toList.isSuffixOf (strip line)

def targetFiles (line : List Char) : List (List Char) :=
  if startsWithAny ["--- a/", "--- b/", "+++ a/", "+++ b/"] line then [strip (line.drop 6)]
  else if startsWithAny ["rename from ", "rename to "] line then
    -- the same offset for both, although one marker is two characters shorter
    [strip (line.drop 12)]
  else if "diff --git a/".toList.isPrefixOf line then
    let parts := split ' ' line
    (match parts[2]? with
      | some part => if "a/".toList.isPrefixOf part then [strip (part.drop 2)] else []
      | none => []) ++
    match parts[3]? with
    | some part => if "b/".toList.isPrefixOf part then [strip (part.drop 2)] else []
    | none => []
  else []

/-- `pattern.rstrip("/")`. -/
def rstripSlash (pattern : List Char) : List Char :=
  (pattern.reverse.dropWhile (· == '/')).reverse

def matchesPattern (targetFile : List Char) (pattern : String) : Bool :=
  let norm := rstripSlash pattern.toList
  fnmatch targetFile pattern.toList || fnmatch targetFile norm || targetFile == norm ||
    (norm ++ ['/']).isPrefixOf targetFile

def pathAllowed (allowedPaths : List String) (targetFile : List Char) : Bool :=
  allowedPaths.contains "*" || allowedPaths.any (matchesPattern targetFile)

def protectionError (message : String) (targetFile : List Char) : Except Exc Unit :=
  raiseWith .protectionError (message ++ String.ofList targetFile)

/-- `target_file.replace("\\", "/")`. -/
def normalizeSlashes (targetFile : List Char) : List Char :=
  targetFile.map fun c => if c = '\\' then '/' else c

def checkTarget (allowedPaths : List String) (targetFile : List Char) : Except Exc Unit :=
  if targetFile = [] ∨ targetFile = "/dev/null".toList then .ok ()
  else if startsWithAny ["/", "\\"] targetFile then
    protectionError "Absolute path in patch is prohibited: " targetFile
  else
    let parts := split '/' (normalizeSlashes targetFile)
    if ['.', '.'] ∈ parts ∨ ['.'] ∈ parts then
      protectionError "Path traversal in patch is prohibited: " targetFile
    else if pathAllowed allowedPaths targetFile then .ok ()
    else protectionError "Patch touches path outside allowed_edit_paths: " targetFile

def checkLine (allowedPaths : List String) (line : List Char) : Except Exc Unit :=
  if isSymlinkMode line then
    raiseWith .protectionError "Symlink creation or modification in patches is prohibited."
  else (targetFiles line).forM (checkTarget allowedPaths)

/-- Validate patch safety and allowed edit boundaries. -/
def validatePatch (diff : List UInt8) (allowedPaths : List String) : Except Exc Unit :=
  if isBlank diff then .ok ()
  else if contains "GIT binary patch".toList (decode diff) then
    raiseWith .protectionError "Binary patches are prohibited."
  else (splitlines (decode diff)).forM (checkLine allowedPaths)

/-! ## What acceptance says -/

theorem checkLine_ok {allowedPaths : List String} {line : List Char}
    (hok : checkLine allowedPaths line = .ok ()) :
    isSymlinkMode line = false ∧
      ∀ targetFile ∈ targetFiles line, checkTarget allowedPaths targetFile = .ok () := by
  unfold checkLine at hok
  split at hok
  · cases hok
  next hmode => exact ⟨eq_false_of_ne_true hmode, forM_eq_ok.mp hok⟩

/-- A patch that is accepted is blank, or every one of its lines passes. -/
theorem validatePatch_ok {diff : List UInt8} {allowedPaths : List String}
    (hok : validatePatch diff allowedPaths = .ok ()) :
    isBlank diff = true ∨
      ∀ line ∈ splitlines (decode diff), checkLine allowedPaths line = .ok () := by
  unfold validatePatch at hok
  split at hok
  next hblank => exact Or.inl hblank
  next =>
    split at hok
    · cases hok
    · exact Or.inr (forM_eq_ok.mp hok)

/-- The rules for a path: relative, without dot components, inside the allowed paths. -/
structure Confined (allowedPaths : List String) (path : List Char) : Prop where
  relative : ¬ ['/'] <+: path
  not_dot : ['.'] ∉ split '/' path
  not_dot_dot : ['.', '.'] ∉ split '/' path
  allowed : pathAllowed allowedPaths path = true

/-- A checked path obeys the rules, unless it stands for no file. The checks come in the order
of the source, and each failure raises. -/
theorem checkTarget_ok {allowedPaths : List String} {targetFile : List Char}
    (hok : checkTarget allowedPaths targetFile = .ok ()) (hne : targetFile ≠ [])
    (hnull : targetFile ≠ "/dev/null".toList) : Confined allowedPaths targetFile := by
  unfold checkTarget at hok
  rw [if_neg (not_or.mpr ⟨hne, hnull⟩)] at hok
  split at hok
  · cases hok
  next habsolute =>
    simp only at hok
    split at hok
    · cases hok
    next hdots =>
      obtain ⟨hdotdot, hdot⟩ := not_or.mp hdots
      split at hok
      · next hallowed =>
        refine ⟨?_, ?_, ?_, hallowed⟩
        · intro hslash
          apply habsolute
          exact List.any_eq_true.mpr
            ⟨"/", List.mem_cons_self, List.isPrefixOf_iff_prefix.mpr hslash⟩
        · intro hmem
          exact hdot (mem_split_replace hmem (by decide))
        · intro hmem
          exact hdotdot (mem_split_replace hmem (by decide))
      · cases hok

end VerifierCI
