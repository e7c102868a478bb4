import Mathlib.Data.Nat.Bitwise
import VerifierCI.Python.Utf8

/-! # How `git apply` is assumed to read a patch

Lines end at newlines only. Outside of hunks, every `--- P` and `+++ P` line is
a file header, whose target is `P` without its first component; the operands of
rename and copy lines are targets as they stand; an operand may be C-quoted.
File modes are octal numbers, and the type bits alone make a symlink.
-/

namespace VerifierCI.GitApply

open Python

/-! ## Lines and hunks -/

def lines (patch : List UInt8) : List (List UInt8) :=
  split 10 patch

def isDigit (b : UInt8) : Bool :=
  48 ≤ b && b ≤ 57

def readNat : Nat → List UInt8 → Nat × List UInt8
  | value, [] => (value, [])
  | value, b :: rest =>
      if isDigit b then readNat (value * 10 + (b.toNat - 48)) rest else (value, b :: rest)

/-- The length in a hunk range `start` or `start,length`. -/
def readRange (range : List UInt8) : Nat × List UInt8 :=
  match (readNat 0 range).2 with
  | 44 :: rest => readNat 0 rest
  | rest => (1, rest)

/-- The numbers of old and new lines a hunk header announces. -/
def hunkLengths? (line : List UInt8) : Option (Nat × Nat) :=
  if (ascii "@@ -").isPrefixOf line then
    let (old, rest) := readRange (line.drop 4)
    if (ascii " +").isPrefixOf rest then some (old, (readRange (rest.drop 2)).1) else none
  else none

/-- The lines outside of hunks, when the current hunk still has `old` and `new` lines to come. -/
def headerLines (old new : Nat) : List (List UInt8) → List (List UInt8)
  | [] => []
  | line :: rest =>
      if old = 0 ∧ new = 0 then
        match hunkLengths? line with
        | some (old, new) => headerLines old new rest
        | none => line :: headerLines 0 0 rest
      else
        match line.head? with
        | some 43 => headerLines old (new - 1) rest
        | some 45 => headerLines (old - 1) new rest
        | some 92 => headerLines old new rest
        | _ => headerLines (old - 1) (new - 1) rest

/-- The lines of a patch that are not part of a hunk. -/
def headers (patch : List UInt8) : List (List UInt8) :=
  headerLines 0 0 (lines patch)

theorem headerLines_subset (old new : Nat) (lines : List (List UInt8)) :
    headerLines old new lines ⊆ lines := by
  induction lines generalizing old new with
  | nil => exact List.Subset.refl _
  | cons line rest ih =>
      simp only [headerLines]
      split
      · split
        · exact List.subset_cons_of_subset line (ih _ _)
        · exact List.cons_subset_cons line (ih 0 0)
      · split <;> exact List.subset_cons_of_subset line (ih _ _)

theorem mem_lines_of_mem_headers {patch line : List UInt8} (hline : line ∈ headers patch) :
    line ∈ lines patch :=
  headerLines_subset 0 0 _ hline

/-! ## Names -/

/-- The byte a backslash escape stands for. -/
def escape? (b : UInt8) : Option UInt8 :=
  match Char.ofNat b.toNat with
  | 'a' => some 7
  | 'b' => some 8
  | 't' => some 9
  | 'n' => some 10
  | 'v' => some 11
  | 'f' => some 12
  | 'r' => some 13
  | '"' => some 34
  | '\\' => some 92
  | _ => none

def isOctal (b : UInt8) : Bool :=
  48 ≤ b && b ≤ 55

/-- Where a reader stands inside a C-quoted name. -/
inductive QuoteState where
  | plain
  /-- After a backslash. -/
  | escaped
  /-- Inside an octal escape, with so many digits to come. -/
  | octal (left value : Nat)

/-- The text of a C-quoted name, after its opening quote and up to its closing one. -/
def unquoteFrom : QuoteState → List UInt8 → Option (List UInt8)
  | _, [] => none
  | .plain, b :: rest =>
      if b = 34 then some []
      else if b = 92 then unquoteFrom .escaped rest
      else (unquoteFrom .plain rest).map (b :: ·)
  | .escaped, b :: rest =>
      match escape? b with
      | some byte => (unquoteFrom .plain rest).map (byte :: ·)
      | none => if isOctal b && b ≤ 51 then unquoteFrom (.octal 2 (b.toNat - 48)) rest else none
  | .octal left value, b :: rest =>
      let value := value * 8 + (b.toNat - 48)
      if !isOctal b then none
      else if left = 1 then (unquoteFrom .plain rest).map (UInt8.ofNat value :: ·)
      else unquoteFrom (.octal (left - 1) value) rest

/-- The name an operand spells. An unquoted one ends at a byte that satisfies `ends`. -/
def operand (ends : UInt8 → Bool) (text : List UInt8) : List UInt8 :=
  match text with
  | 34 :: rest => (unquoteFrom .plain rest).getD (text.takeWhile fun b => !ends b)
  | _ => text.takeWhile fun b => !ends b

/-- A name without its first component, whatever that is. -/
def dropComponent (name : List UInt8) : List UInt8 :=
  (name.dropWhile (· ≠ 47)).drop 1

def fileMarkers : List String := ["--- ", "+++ "]

def moveMarkers : List String := ["rename from ", "rename to ", "copy from ", "copy to "]

/-- The part of a line after the first marker that it starts with. -/
def after? (markers : List String) (line : List UInt8) : Option (List UInt8) :=
  (markers.find? fun marker => (ascii marker).isPrefixOf line).map
    fun marker => line.drop (ascii marker).length

theorem eq_append_of_after? {markers : List String} {line text : List UInt8}
    (hafter : after? markers line = some text) :
    ∃ marker ∈ markers, line = ascii marker ++ text := by
  obtain ⟨marker, hmarker, rfl⟩ := Option.map_eq_some_iff.mp hafter
  refine ⟨marker, List.mem_of_find?_eq_some hmarker, ?_⟩
  have hpre : (ascii marker).isPrefixOf line = true := by
    simpa using List.find?_some hmarker
  obtain ⟨rest, rfl⟩ := List.isPrefixOf_iff_prefix.mp hpre
  rw [List.drop_left]

section Targets

-- The bytes that end the unquoted name of a file header besides the newline,
-- such as the tab before a time stamp.
variable (ends : UInt8 → Bool)

/-- The target of a file header. `/dev/null` stands for no file. -/
def fileTarget (text : List UInt8) : List UInt8 :=
  if (text.takeWhile fun b => !ends b) = ascii "/dev/null" then []
  else dropComponent (operand ends text)

def namedPath (line : List UInt8) : List UInt8 :=
  match after? fileMarkers line with
  | some text => fileTarget ends text
  | none =>
      match after? moveMarkers line with
      | some text => operand (fun _ => false) text
      | none => []

/-- The path a header line makes `git apply` touch. -/
def target? (line : List UInt8) : Option (List UInt8) :=
  if namedPath ends line = [] then none else some (namedPath ends line)

/-- A patch makes `git apply` touch a path. -/
def Touches (patch path : List UInt8) : Prop :=
  ∃ line ∈ headers patch, target? ends line = some path

end Targets

/-! ## Modes -/

/-- Deleting a symlink counts as modifying it. -/
def modeMarkers : List String :=
  ["new file mode ", "old mode ", "new mode ", "deleted file mode "]

/-- A file mode: an octal number that the line or white space ends. -/
def readMode (text : List UInt8) : Option Nat :=
  let text := text.dropWhile isBlankByte
  let digits := text.takeWhile isOctal
  if !digits.isEmpty && (text.dropWhile isOctal).head?.all isBlankByte then
    some (digits.foldl (fun value b => value * 8 + (b.toNat - 48)) 0)
  else none

/-- The file mode in a header line. An index line ends with one when the mode
does not change. -/
def mode? (line : List UInt8) : Option Nat :=
  match after? modeMarkers line with
  | some text => readMode text
  | none => (after? ["index "] line).bind fun text => readMode (text.dropWhile (· ≠ 32))

/-- Do the type bits of a mode make a symlink? -/
def isSymlink (mode : Nat) : Bool :=
  mode &&& 0o170000 == 0o120000

/-- A patch makes `git apply` treat a file as a symlink. -/
def TouchesSymlink (patch : List UInt8) : Prop :=
  ∃ line ∈ headers patch, ∃ mode ∈ mode? line, isSymlink mode = true

/-! ## Which lines have a meaning -/

theorem target?_ne_nil {ends : UInt8 → Bool} {line path : List UInt8}
    (htarget : target? ends line = some path) : path ≠ [] := by
  unfold target? at htarget
  split at htarget
  · cases htarget
  next hne =>
    obtain rfl := Option.some.inj htarget
    exact hne

theorem marker_of_target? {ends : UInt8 → Bool} {line path : List UInt8}
    (htarget : target? ends line = some path) :
    ∃ marker ∈ fileMarkers ++ moveMarkers, ∃ text, line = ascii marker ++ text := by
  have hne := target?_ne_nil htarget
  unfold target? at htarget
  split at htarget
  · cases htarget
  obtain rfl := Option.some.inj htarget
  unfold namedPath at hne
  cases hfile : after? fileMarkers line with
  | some text =>
      obtain ⟨marker, hmarker, hline⟩ := eq_append_of_after? hfile
      exact ⟨marker, List.mem_append_left _ hmarker, text, hline⟩
  | none =>
      cases hmove : after? moveMarkers line with
      | some text =>
          obtain ⟨marker, hmarker, hline⟩ := eq_append_of_after? hmove
          exact ⟨marker, List.mem_append_right _ hmarker, text, hline⟩
      | none => simp [hfile, hmove] at hne

theorem marker_of_mode? {line : List UInt8} {mode : Nat} (hmode : mode? line = some mode) :
    ∃ marker ∈ "index " :: modeMarkers, ∃ text, line = ascii marker ++ text := by
  unfold mode? at hmode
  cases hmarked : after? modeMarkers line with
  | some text =>
      obtain ⟨marker, hmarker, hline⟩ := eq_append_of_after? hmarked
      exact ⟨marker, List.mem_cons_of_mem _ hmarker, text, hline⟩
  | none =>
      simp only [hmarked] at hmode
      obtain ⟨text, hindex, _⟩ := Option.bind_eq_some_iff.mp hmode
      obtain ⟨marker, hmarker, hline⟩ := eq_append_of_after? hindex
      obtain rfl := List.mem_singleton.mp hmarker
      exact ⟨"index ", List.mem_cons_self, text, hline⟩

/-- A line of white space names no path and no mode. What marks a header line begins with a
character that is not white space. -/
theorem not_marked_of_isBlank {line : List UInt8} (hblank : isBlank line = true) :
    (∀ ends, target? ends line = none) ∧ mode? line = none := by
  have hmarkers : ∀ marker ∈ (fileMarkers ++ moveMarkers) ++ ("index " :: modeMarkers),
      isBlank (ascii marker) = false := by
    decide
  have hnot : ∀ marker ∈ (fileMarkers ++ moveMarkers) ++ ("index " :: modeMarkers),
      ¬ ∃ text, line = ascii marker ++ text := by
    rintro marker hmarker ⟨text, hline⟩
    rw [hline] at hblank
    have hpart : isBlank (ascii marker) = true := by
      simp only [isBlank, List.all_append, Bool.and_eq_true] at hblank
      exact hblank.1
    exact absurd (hpart.symm.trans (hmarkers marker hmarker)) Bool.noConfusion
  constructor
  · intro ends
    cases htarget : target? ends line with
    | none => rfl
    | some path =>
        obtain ⟨marker, hmarker, htext⟩ := marker_of_target? htarget
        exact absurd htext (hnot marker (List.mem_append_left _ hmarker))
  · cases hmode : mode? line with
    | none => rfl
    | some mode =>
        obtain ⟨marker, hmarker, htext⟩ := marker_of_mode? hmode
        exact absurd htext (hnot marker (List.mem_append_right _ hmarker))

end VerifierCI.GitApply
