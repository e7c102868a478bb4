import VerifierCI.Execution.GitApply
import VerifierCI.Execution.Sandbox

/-! # Does an accepted patch stay inside?

The validator looks at the header forms it knows and at the lines Python sees;
`git apply` is assumed to read more forms, and lines that end at newlines only.
On the forms both read alike acceptance confines the path. Everything else is
outside of what acceptance says.
-/

namespace VerifierCI

open Python GitApply

/-! ## From git's lines to the validator's -/

/-- The beginning of a line of git, up to the first break Python knows, is a
line of the validator. -/
theorem firstLine_mem_of_mem_lines {diff line : List UInt8} (hline : line ∈ lines diff)
    (hne : firstLine (decode line) ≠ []) :
    firstLine (decode line) ∈ splitlines (decode diff) := by
  obtain ⟨before, after, rfl, hbefore, hafter⟩ := exists_of_mem_split hline
  have hnewline : ∀ left right : List UInt8,
      decode (left ++ 10 :: right) = decode left ++ '\n' :: decode right :=
    fun left right => decode_append_ascii (b := 10) (by decide) left right
  -- decoding meets the boundaries of the line one after the other
  have htail : decode (line ++ after) = decode line ++ decode after ∧
      (decode after = [] ∨ ∃ tail, decode after = '\n' :: tail) := by
    rcases hafter with rfl | ⟨tail, rfl⟩
    · exact ⟨by rw [List.append_nil, show decode [] = [] from rfl, List.append_nil], Or.inl rfl⟩
    · have hself : decode (10 :: tail) = '\n' :: decode tail := hnewline [] tail
      exact ⟨by rw [hnewline, hself], Or.inr ⟨_, hself⟩⟩
  rcases hbefore with rfl | ⟨init, rfl⟩
  · rw [List.nil_append, htail.1]
    have hnil : ([] : List Char) = [] ∨ ∃ init, ([] : List Char) = init ++ ['\n'] := Or.inl rfl
    exact firstLine_mem_splitlines hnil htail.2 hne
  · have hdecode : decode (init ++ [10] ++ line ++ after) =
        (decode init ++ ['\n']) ++ decode line ++ decode after := by
      rw [List.append_assoc, List.append_assoc, List.singleton_append, hnewline, htail.1]
      simp
    rw [hdecode]
    exact firstLine_mem_splitlines (Or.inr ⟨_, rfl⟩) htail.2 hne

theorem isBlank_of_mem_lines {diff line : List UInt8} (hline : line ∈ lines diff)
    (hblank : isBlank diff = true) : isBlank line = true := by
  obtain ⟨before, after, rfl, _⟩ := exists_of_mem_split hline
  simp only [isBlank, List.all_append, Bool.and_eq_true] at hblank ⊢
  exact hblank.1.2

/-- Every header line of an accepted patch passes the line check, as far as Python reads it. -/
theorem checkLine_of_mem_headers {diff line : List UInt8} {allowedPaths : List String}
    (hok : validatePatch diff allowedPaths = .ok ()) (hblank : isBlank diff ≠ true)
    (hline : line ∈ headers diff) (hne : firstLine (decode line) ≠ []) :
    checkLine allowedPaths (firstLine (decode line)) = .ok () := by
  rcases validatePatch_ok hok with hisBlank | hlines
  · exact absurd hisBlank hblank
  · exact hlines _ (firstLine_mem_of_mem_lines (mem_lines_of_mem_headers hline) hne)

/-! ## Headers both read alike -/

/-- The markers after which the validator takes the rest of the line for the path. -/
def plainMarkers : List String :=
  ["--- a/", "--- b/", "+++ a/", "+++ b/", "rename from "]

/-- The line is one of the validator's own forms and spells the path verbatim:
no Python line break in it, no white space around it, not `/dev/null`. -/
structure Plain (line path : List UInt8) : Prop where
  marker : ∃ marker ∈ plainMarkers, line = ascii marker ++ path
  unbroken : ∀ c ∈ decode path, isLineBreak c = false
  stripped : strip (decode path) = decode path
  not_null : decode path ≠ "/dev/null".toList

theorem targetFiles_plain {marker : String} (hmarker : marker ∈ plainMarkers) (rest : List Char) :
    targetFiles (marker.toList ++ rest) = [strip rest] := by
  simp only [plainMarkers, List.mem_cons, List.not_mem_nil, or_false] at hmarker
  rcases hmarker with rfl | rfl | rfl | rfl | rfl <;> rfl

theorem ascii_plainMarkers {marker : String} (hmarker : marker ∈ plainMarkers) :
    ∀ c ∈ marker.toList, c.toNat < 0x80 := by
  have hall : (plainMarkers.all fun marker => marker.toList.all fun c => c.toNat < 0x80) =
      true := by
    decide
  simpa using List.all_eq_true.mp hall marker hmarker

theorem unbroken_plainMarkers {marker : String} (hmarker : marker ∈ plainMarkers) :
    ∀ c ∈ marker.toList, isLineBreak c = false := by
  have hall : (plainMarkers.all fun marker => marker.toList.all fun c => !isLineBreak c) =
      true := by
    decide
  simpa using List.all_eq_true.mp hall marker hmarker

theorem Plain.firstLine_decode {line path : List UInt8} (hplain : Plain line path) :
    ∃ marker ∈ plainMarkers, firstLine (decode line) = marker.toList ++ decode path := by
  obtain ⟨marker, hmarker, rfl⟩ := hplain.marker
  refine ⟨marker, hmarker, ?_⟩
  rw [decode_ascii_append (ascii_plainMarkers hmarker)]
  apply firstLine_eq_self
  intro c hc
  rcases List.mem_append.mp hc with hc | hc
  · exact unbroken_plainMarkers hmarker c hc
  · exact hplain.unbroken c hc

/-- Acceptance confines the paths of plain headers. -/
theorem Plain.confined {diff line path : List UInt8} {allowedPaths : List String}
    (hplain : Plain line path) (hok : validatePatch diff allowedPaths = .ok ())
    (hblank : isBlank diff ≠ true) (hline : line ∈ headers diff) (hne : path ≠ []) :
    Confined allowedPaths (decode path) := by
  obtain ⟨marker, hmarker, hfirst⟩ := hplain.firstLine_decode
  have hpath : decode path ≠ [] := decode_ne_nil hne
  have hcheck := checkLine_of_mem_headers hok hblank hline (by rw [hfirst]; simp [hpath])
  have htargets := (checkLine_ok hcheck).2
  rw [hfirst, targetFiles_plain hmarker, hplain.stripped] at htargets
  exact checkTarget_ok (htargets _ List.mem_cons_self) hpath hplain.not_null

/-! ## The confinement of a patch -/

/-- Every path the patch makes `git apply` touch obeys the rules, and it
creates or modifies no symlink. -/
structure PatchConfined (ends : UInt8 → Bool) (diff : List UInt8) (allowedPaths : List String) :
    Prop where
  paths : ∀ path, Touches ends diff path → Confined allowedPaths (decode path)
  no_symlink : ¬ TouchesSymlink diff

/-- The lines git reads and the validator does not read alike are harmless: a
header that is not plain names a path inside the rules, and a mode that makes a
symlink is spelled the way the validator looks for. -/
structure Recognised (ends : UInt8 → Bool) (diff : List UInt8) (allowedPaths : List String) :
    Prop where
  paths : ∀ line ∈ headers diff, ∀ path, target? ends line = some path → ¬ Plain line path →
    Confined allowedPaths (decode path)
  modes : ∀ line ∈ headers diff, ∀ mode ∈ mode? line, isSymlink mode = true →
    isSymlinkMode (firstLine (decode line)) = true

/-- What git touches includes what only git reads. -/
theorem PatchConfined.recognised {ends : UInt8 → Bool} {diff : List UInt8}
    {allowedPaths : List String} (hconfined : PatchConfined ends diff allowedPaths) :
    Recognised ends diff allowedPaths where
  paths line hline path htarget _ := hconfined.paths path ⟨line, hline, htarget⟩
  modes line hline mode hmode hsymlink :=
    absurd ⟨line, hline, mode, hmode, hsymlink⟩ hconfined.no_symlink

/-- A header is either plain, and then the validator has checked the path git takes from it, or
it is among those the condition speaks of. -/
theorem Recognised.patchConfined {ends : UInt8 → Bool} {diff : List UInt8}
    {allowedPaths : List String} (hrecognised : Recognised ends diff allowedPaths)
    (hok : validatePatch diff allowedPaths = .ok ()) : PatchConfined ends diff allowedPaths := by
  by_cases hblank : isBlank diff = true
  · -- a blank patch is accepted unread, and git finds no header in it either
    have hnothing : ∀ line ∈ headers diff, (∀ ends, target? ends line = none) ∧ mode? line = none :=
      fun line hline => not_marked_of_isBlank
        (isBlank_of_mem_lines (mem_lines_of_mem_headers hline) hblank)
    constructor
    · rintro path ⟨line, hline, htarget⟩
      rw [(hnothing line hline).1] at htarget
      cases htarget
    · rintro ⟨line, hline, mode, hmode, _⟩
      rw [(hnothing line hline).2] at hmode
      cases hmode
  · constructor
    · rintro path ⟨line, hline, htarget⟩
      by_cases hplain : Plain line path
      · exact hplain.confined hok hblank hline (target?_ne_nil htarget)
      · exact hrecognised.paths line hline path htarget hplain
    · rintro ⟨line, hline, mode, hmode, hsymlink⟩
      have hfound := hrecognised.modes line hline mode hmode hsymlink
      have hne : firstLine (decode line) ≠ [] := by
        intro hnil
        rw [hnil] at hfound
        exact absurd hfound (by decide)
      have hcheck := checkLine_of_mem_headers hok hblank hline hne
      rw [(checkLine_ok hcheck).1] at hfound
      cases hfound

/-- An accepted patch stays inside exactly if whatever only git reads does: headers the
validator does not look at or reads differently, and modes it does not recognise. -/
theorem patchConfined_iff {ends : UInt8 → Bool} {diff : List UInt8} {allowedPaths : List String}
    (hok : validatePatch diff allowedPaths = .ok ()) :
    PatchConfined ends diff allowedPaths ↔ Recognised ends diff allowedPaths :=
  ⟨PatchConfined.recognised, fun hrecognised => hrecognised.patchConfined hok⟩

/-- An edit of one file below `src`. -/
def plainEdit : List UInt8 :=
  ascii "--- a/src/app.py\n+++ b/src/app.py\n@@ -1 +1 @@\n-old\n+new\n"

/-- The headers of the edit are plain and it has no mode line. -/
theorem patchConfined_iff_plainEdit :
    PatchConfined (fun b => b == 9) plainEdit ["src/*"] ↔
      Recognised (fun b => b == 9) plainEdit ["src/*"] :=
  patchConfined_iff (by decide)

/-- The same edit, of a file elsewhere and with another first component. -/
def foreignPrefix : List UInt8 :=
  ascii "--- x/secrets/key\n+++ x/secrets/key\n@@ -1 +1 @@\n-old\n+new\n"

/-- A rename out of `src` whose target loses two characters in the validator's
reading; the line that opens it names no first component `a`. -/
def renameOutside : List UInt8 :=
  ascii ("diff --git src/app.py x/src/app.py\nsimilarity index 100%\n" ++
    "rename from src/app.py\nrename to x/src/app.py\n")

/-- A new file whose type bits make it a symlink. -/
def otherSymlinkMode : List UInt8 :=
  ascii ("diff --git a/src/link b/src/link\nnew file mode 120777\n" ++
    "--- /dev/null\n+++ b/src/link\n@@ -0,0 +1 @@\n+/etc/passwd\n")

/-- Three patches that are accepted for `src` alone: one touches a file under `secrets`, one
moves a file out of `src`, and one creates a symlink. -/
theorem accepted_patches_escape :
    (validatePatch foreignPrefix ["src/*"] = .ok () ∧
      ¬ PatchConfined (fun b => b == 9) foreignPrefix ["src/*"]) ∧
    (validatePatch renameOutside ["src/*"] = .ok () ∧
      ¬ PatchConfined (fun b => b == 9) renameOutside ["src/*"]) ∧
    (validatePatch otherSymlinkMode ["src/*"] = .ok () ∧
      ¬ PatchConfined (fun b => b == 9) otherSymlinkMode ["src/*"]) := by
  refine ⟨⟨by decide, ?_⟩, ⟨by decide, ?_⟩, ⟨by decide, ?_⟩⟩
  · intro hconfined
    have hallowed := (hconfined.paths (ascii "secrets/key")
      ⟨ascii "--- x/secrets/key", by decide, by decide⟩).allowed
    exact absurd hallowed (by decide)
  · intro hconfined
    have hallowed := (hconfined.paths (ascii "x/src/app.py")
      ⟨ascii "rename to x/src/app.py", by decide, by decide⟩).allowed
    exact absurd hallowed (by decide)
  · intro hconfined
    have hmode : mode? (ascii "new file mode 120777") = some 0o120777 := rfl
    exact hconfined.no_symlink ⟨ascii "new file mode 120777", by decide, _, hmode, by decide⟩

end VerifierCI
