import VerifierCI.Execution.Sandbox

/-! # What the text of a hunk decides

The validator has no notion of a hunk. A removed or added line that continues a
file header, a mode in a context line, a break only Python knows, or the marker
of a binary patch anywhere, and the text of the edited file decides.
-/

namespace VerifierCI

open Python

/-! ## Unified diffs -/

/-- What a hunk does with a line. -/
inductive LineMarker where
  | context
  | added
  | removed
deriving DecidableEq, Repr

def LineMarker.char : LineMarker → Char
  | .context => ' '
  | .added => '+'
  | .removed => '-'

def LineMarker.byte (marker : LineMarker) : UInt8 :=
  UInt8.ofNat marker.char.toNat

/-- A line of a diff: one of a hunk's body, or anything else. -/
inductive DiffLine where
  | header (text : List UInt8)
  | body (marker : LineMarker) (content : List UInt8)
deriving DecidableEq, Repr

def DiffLine.bytes : DiffLine → List UInt8
  | .header text => text
  | .body marker content => marker.byte :: content

/-- Lines joined by newlines. A text that ends in one has an empty last line. -/
def joinLines : List (List UInt8) → List UInt8
  | [] => []
  | [line] => line
  | line :: rest => line ++ 10 :: joinLines rest

/-- A unified diff, as far as its lines go: it is headed by more than white space. -/
structure UnifiedDiff where
  lines : List DiffLine
  unbroken : ∀ line ∈ lines, (10 : UInt8) ∉ line.bytes
  headed : ∃ text, .header text ∈ lines ∧ isBlank text = false

def UnifiedDiff.bytes (diff : UnifiedDiff) : List UInt8 :=
  joinLines (diff.lines.map DiffLine.bytes)

/-- The lines outside the hunks' bodies. -/
def UnifiedDiff.headers (diff : UnifiedDiff) : List (List UInt8) :=
  diff.lines.filterMap fun line =>
    match line with
    | .header text => some text
    | .body _ _ => none

/-- The same line, or a body line with the same marker. -/
inductive DiffLine.Rewritten : DiffLine → DiffLine → Prop
  | header (text : List UInt8) : Rewritten (.header text) (.header text)
  | body (marker : LineMarker) (content content' : List UInt8) :
      Rewritten (.body marker content) (.body marker content')

/-- The same diff with other text in its hunks. -/
def UnifiedDiff.Rewritten (diff diff' : UnifiedDiff) : Prop :=
  List.Forall₂ DiffLine.Rewritten diff.lines diff'.lines

/-! ## What the validator reads in a line -/

def binaryMarker : List Char := "GIT binary patch".toList

structure LineAccepted (allowedPaths : List String) (line : List UInt8) : Prop where
  not_binary : contains binaryMarker (decode line) = false
  lines : ∀ part ∈ splitlines (decode line), checkLine allowedPaths part = .ok ()

theorem checkLine_nil (allowedPaths : List String) : checkLine allowedPaths [] = .ok () := rfl

/-- Joined lines pass exactly if each of them does. By induction on the lines: the text is
decoded piece by piece, and a newline keeps the pieces apart. -/
theorem lineAccepted_joinLines {allowedPaths : List String} (lines : List (List UInt8)) :
    LineAccepted allowedPaths (joinLines lines) ↔
      ∀ line ∈ lines, LineAccepted allowedPaths line := by
  induction lines with
  | nil =>
      refine ⟨fun _ _ hline => absurd hline List.not_mem_nil, fun _ => ⟨rfl, ?_⟩⟩
      intro part hpart
      exact absurd hpart List.not_mem_nil
  | cons line rest ih =>
      cases rest with
      | nil => simp [joinLines]
      | cons next rest =>
          rw [List.forall_mem_cons, ← ih]
          have hdecode : decode (joinLines (line :: next :: rest)) =
              decode line ++ '\n' :: decode (joinLines (next :: rest)) :=
            decode_append_ascii (b := 10) (by decide) _ _
          constructor
          · intro h
            have hbinary := h.not_binary
            have hlines := h.lines
            rw [hdecode, contains_append_newline (by decide), Bool.or_eq_false_iff] at hbinary
            rw [hdecode, forall_splitlines_append_newline (checkLine_nil allowedPaths)] at hlines
            exact ⟨⟨hbinary.1, hlines.1⟩, hbinary.2, hlines.2⟩
          · rintro ⟨hline, hrest⟩
            refine ⟨?_, ?_⟩
            · rw [hdecode, contains_append_newline (by decide), hline.not_binary, hrest.not_binary]
              rfl
            · rw [hdecode, forall_splitlines_append_newline (checkLine_nil allowedPaths)]
              exact ⟨hline.lines, hrest.lines⟩

theorem validatePatch_ok_iff {diff : List UInt8} {allowedPaths : List String}
    (hblank : isBlank diff = false) :
    validatePatch diff allowedPaths = .ok () ↔ LineAccepted allowedPaths diff := by
  rw [validatePatch, if_neg (by simp [hblank])]
  constructor
  · intro h
    split at h
    · cases h
    next hbinary => exact ⟨eq_false_of_ne_true hbinary, forM_eq_ok.mp h⟩
  · intro h
    have hbinary : ¬ contains "GIT binary patch".toList (decode diff) = true :=
      ne_true_of_eq_false h.not_binary
    rw [if_neg hbinary]
    exact forM_eq_ok.mpr h.lines

/-! ## Body lines -/

/-- What follows the marker in a line that looks like a file header. -/
def LineMarker.imitations : LineMarker → List String
  | .context => []
  | .added => ["++ a/", "++ b/"]
  | .removed => ["-- a/", "-- b/"]

/-- The text of a body line imitates nothing the validator objects to: no binary
patch, in a context line no symlink mode, after a marker no file header with a
path outside, and whatever follows a break only Python knows passes by itself. -/
structure Harmless (allowedPaths : List String) (marker : LineMarker) (content : List Char) :
    Prop where
  not_binary : contains binaryMarker content = false
  not_symlink : marker = .context → isSymlinkMode (firstLine content) = false
  target : startsWithAny marker.imitations (firstLine content) = true →
    checkTarget allowedPaths (strip ((firstLine content).drop 5)) = .ok ()
  later : ∀ line ∈ laterLines content, checkLine allowedPaths line = .ok ()

theorem strip_cons_of_not_space {c : Char} (hc : isSpace c = false) (text : List Char) :
    ∃ rest, strip (c :: text) = c :: rest := by
  have hdrop : ∀ front : List Char,
      ∃ rest, ((front ++ [c]).dropWhile isSpace).reverse = c :: rest := by
    intro front
    induction front with
    | nil => exact ⟨[], by simp [hc]⟩
    | cons d front ih =>
        cases hd : isSpace d with
        | true => simpa [hd] using ih
        | false => exact ⟨front.reverse ++ [d], by simp [hd]⟩
  obtain ⟨rest, hrest⟩ := hdrop text.reverse
  refine ⟨rest, ?_⟩
  rw [strip, List.dropWhile_cons_of_neg (by simp [hc]), List.reverse_cons, hrest]

/-- Neither a plus nor a minus begins a mode line. -/
theorem isSymlinkMode_marker {marker : LineMarker} (hmarker : marker ≠ .context)
    (text : List Char) : isSymlinkMode (marker.char :: text) = false := by
  have hspace : isSpace marker.char = false := by
    cases marker with
    | context => exact absurd rfl hmarker
    | added => decide
    | removed => decide
  obtain ⟨rest, hrest⟩ := strip_cons_of_not_space hspace text
  have hprefixes : startsWithAny modePrefixes (marker.char :: rest) = false := by
    cases marker with
    | context => exact absurd rfl hmarker
    | added => rfl
    | removed => rfl
  rw [isSymlinkMode, hrest, hprefixes, Bool.false_and]

theorem isSymlinkMode_space (text : List Char) :
    isSymlinkMode (' ' :: text) = isSymlinkMode text := by
  have hstrip : strip (' ' :: text) = strip text := by
    rw [strip, strip, List.dropWhile_cons_of_pos (by decide)]
  rw [isSymlinkMode, isSymlinkMode, hstrip]

/-- The paths the validator takes from a body line. -/
theorem targetFiles_marker (marker : LineMarker) (text : List Char) :
    targetFiles (marker.char :: text) =
      if startsWithAny marker.imitations text then [strip (text.drop 5)] else [] := by
  cases marker with
  | context => rfl
  | added =>
      have hmarkers : startsWithAny ["--- a/", "--- b/", "+++ a/", "+++ b/"] ('+' :: text) =
          startsWithAny ["++ a/", "++ b/"] text := rfl
      rw [targetFiles, LineMarker.char, hmarkers]
      rfl
  | removed =>
      have hmarkers : startsWithAny ["--- a/", "--- b/", "+++ a/", "+++ b/"] ('-' :: text) =
          startsWithAny ["-- a/", "-- b/"] text := by
        simp [startsWithAny, List.isPrefixOf_cons_cons]
      rw [targetFiles, LineMarker.char, hmarkers]
      rfl

theorem decode_body (marker : LineMarker) (content : List UInt8) :
    decode (DiffLine.body marker content).bytes = marker.char :: decode content := by
  cases marker with
  | context => exact decode_append_ascii (b := 32) (by decide) [] content
  | added => exact decode_append_ascii (b := 43) (by decide) [] content
  | removed => exact decode_append_ascii (b := 45) (by decide) [] content

/-- The validator reads the marker with the text up to the first break. -/
theorem splitlines_body (marker : LineMarker) (text : List Char) :
    splitlines (marker.char :: text) = (marker.char :: firstLine text) :: laterLines text := by
  have hbreak : ¬ isLineBreak marker.char = true := by cases marker <;> decide
  rw [splitlines, splitlinesFrom_other hbreak, List.nil_append,
    splitlinesFrom_eq (List.cons_ne_nil _ _)]
  rfl

theorem contains_body (marker : LineMarker) (text : List Char) :
    contains binaryMarker (marker.char :: text) = contains binaryMarker text := by
  cases marker <;> rfl

theorem checkLine_body {allowedPaths : List String} {marker : LineMarker} {text : List Char} :
    checkLine allowedPaths (marker.char :: text) = .ok () ↔
      (marker = .context → isSymlinkMode text = false) ∧
        (startsWithAny marker.imitations text = true →
          checkTarget allowedPaths (strip (text.drop 5)) = .ok ()) := by
  have htargets : (targetFiles (marker.char :: text)).forM (checkTarget allowedPaths) = .ok () ↔
      (startsWithAny marker.imitations text = true →
        checkTarget allowedPaths (strip (text.drop 5)) = .ok ()) := by
    rw [targetFiles_marker, forM_eq_ok]
    split_ifs with himitates
    · simp [himitates]
    · simp [himitates]
  have hmode : isSymlinkMode (marker.char :: text) = false ↔
      (marker = .context → isSymlinkMode text = false) := by
    by_cases hmarker : marker = .context
    · subst hmarker
      rw [LineMarker.char, isSymlinkMode_space]
      exact ⟨fun h _ => h, fun h => h rfl⟩
    · exact ⟨fun _ heq => absurd heq hmarker, fun _ => isSymlinkMode_marker hmarker text⟩
  rw [← hmode, ← htargets, checkLine]
  cases isSymlinkMode (marker.char :: text) with
  | true => simp [raiseWith]
  | false => simp

/-- A body line passes exactly if its text is harmless. -/
theorem lineAccepted_body {allowedPaths : List String} {marker : LineMarker}
    {content : List UInt8} :
    LineAccepted allowedPaths (DiffLine.body marker content).bytes ↔
      Harmless allowedPaths marker (decode content) := by
  have hlines : (∀ part ∈ splitlines (marker.char :: decode content),
      checkLine allowedPaths part = .ok ()) ↔
        ((marker = .context → isSymlinkMode (firstLine (decode content)) = false) ∧
          (startsWithAny marker.imitations (firstLine (decode content)) = true →
            checkTarget allowedPaths (strip ((firstLine (decode content)).drop 5)) = .ok ())) ∧
          ∀ line ∈ laterLines (decode content), checkLine allowedPaths line = .ok () := by
    rw [splitlines_body, List.forall_mem_cons, checkLine_body]
  constructor
  · rintro ⟨hbinary, hparts⟩
    rw [decode_body, contains_body] at hbinary
    rw [decode_body, hlines] at hparts
    exact ⟨hbinary, hparts.1.1, hparts.1.2, hparts.2⟩
  · rintro ⟨hbinary, hmode, htarget, hlater⟩
    refine ⟨?_, ?_⟩
    · rw [decode_body, contains_body, hbinary]
    · rw [decode_body, hlines]
      exact ⟨⟨hmode, htarget⟩, hlater⟩

/-! ## Verdicts on diffs -/

def UnifiedDiff.Harmless (allowedPaths : List String) (diff : UnifiedDiff) : Prop :=
  ∀ marker content, .body marker content ∈ diff.lines →
    VerifierCI.Harmless allowedPaths marker (decode content)

theorem mem_headers {diff : UnifiedDiff} {text : List UInt8} :
    text ∈ diff.headers ↔ .header text ∈ diff.lines := by
  simp only [UnifiedDiff.headers, List.mem_filterMap]
  constructor
  · rintro ⟨line, hline, heq⟩
    cases line with
    | header other =>
        obtain rfl := Option.some.inj heq
        exact hline
    | body => cases heq
  · intro hline
    exact ⟨.header text, hline, rfl⟩

theorem isBlank_joinLines {lines : List (List UInt8)} {line : List UInt8} (hline : line ∈ lines)
    (hblank : isBlank line = false) : isBlank (joinLines lines) = false := by
  induction lines with
  | nil => cases hline
  | cons first rest ih =>
      cases rest with
      | nil =>
          obtain rfl := List.mem_singleton.mp hline
          exact hblank
      | cons next rest =>
          have hsplit : isBlank (joinLines (first :: next :: rest)) =
              (isBlank first && isBlank (10 :: joinLines (next :: rest))) := List.all_append
          have hnewline : isBlank (10 :: joinLines (next :: rest)) =
              isBlank (joinLines (next :: rest)) := by
            rw [isBlank, List.all_cons]
            rfl
          rw [hsplit, hnewline]
          rcases List.mem_cons.mp hline with rfl | hrest
          · rw [hblank, Bool.false_and]
          · rw [ih hrest, Bool.and_false]

theorem UnifiedDiff.not_blank (diff : UnifiedDiff) : isBlank diff.bytes = false := by
  obtain ⟨text, hmem, hblank⟩ := diff.headed
  exact isBlank_joinLines (List.mem_map_of_mem hmem) hblank

/-- A diff is accepted if its headers are and its hunks are harmless. -/
theorem UnifiedDiff.accepted_iff {diff : UnifiedDiff} {allowedPaths : List String} :
    validatePatch diff.bytes allowedPaths = .ok () ↔
      validatePatch (joinLines diff.headers) allowedPaths = .ok () ∧
        diff.Harmless allowedPaths := by
  obtain ⟨text, hmem, hblank⟩ := diff.headed
  rw [validatePatch_ok_iff diff.not_blank,
    validatePatch_ok_iff (isBlank_joinLines (mem_headers.mpr hmem) hblank), UnifiedDiff.bytes,
    lineAccepted_joinLines, lineAccepted_joinLines, List.forall_mem_map]
  constructor
  · intro h
    refine ⟨fun text htext => h _ (mem_headers.mp htext), ?_⟩
    intro marker content hbody
    exact lineAccepted_body.mp (h _ hbody)
  · rintro ⟨hheaders, hbodies⟩ line hline
    cases line with
    | header text => exact hheaders text (mem_headers.mpr hline)
    | body marker content => exact lineAccepted_body.mpr (hbodies marker content hline)

theorem UnifiedDiff.Rewritten.headers_eq {diff diff' : UnifiedDiff} (h : diff.Rewritten diff') :
    diff'.headers = diff.headers := by
  unfold UnifiedDiff.Rewritten at h
  rw [UnifiedDiff.headers, UnifiedDiff.headers]
  generalize diff.lines = lines at h
  generalize diff'.lines = lines' at h
  induction h with
  | nil => rfl
  | cons hline _ ih =>
      cases hline with
      | header text => rw [List.filterMap_cons, List.filterMap_cons, ih]
      | body marker content content' => rw [List.filterMap_cons, List.filterMap_cons, ih]

/-- Behind accepted headers, new text in the hunks keeps the verdict exactly if
both texts are harmless or neither is. -/
theorem verdict_kept_iff {diff diff' : UnifiedDiff} {allowedPaths : List String}
    (hheaders : validatePatch (joinLines diff.headers) allowedPaths = .ok ())
    (hrewritten : diff.Rewritten diff') :
    (validatePatch diff.bytes allowedPaths = .ok () ↔
      validatePatch diff'.bytes allowedPaths = .ok ()) ↔
        (diff.Harmless allowedPaths ↔ diff'.Harmless allowedPaths) := by
  have hheaders' : validatePatch (joinLines diff'.headers) allowedPaths = .ok () := by
    rw [hrewritten.headers_eq]
    exact hheaders
  rw [UnifiedDiff.accepted_iff, UnifiedDiff.accepted_iff, and_iff_right hheaders,
    and_iff_right hheaders']

/-! ## An edit with and without an imitation -/

/-- One line of a file below `src` replaced. -/
def edit (removed added : String) (hremoved : (10 : UInt8) ∉ ascii removed)
    (hadded : (10 : UInt8) ∉ ascii added) : UnifiedDiff where
  lines := [.header (ascii "--- a/src/app.sql"), .header (ascii "+++ b/src/app.sql"),
    .header (ascii "@@ -1 +1 @@"), .body .removed (ascii removed), .body .added (ascii added),
    .header []]
  unbroken := by
    simp only [List.forall_mem_cons]
    refine ⟨by decide, by decide, by decide, ?_, ?_, by decide, by simp⟩
    · exact fun h => hremoved ((List.mem_cons.mp h).resolve_left (by decide))
    · exact fun h => hadded ((List.mem_cons.mp h).resolve_left (by decide))
  headed := ⟨ascii "--- a/src/app.sql", by simp, by decide⟩

def plainLine : UnifiedDiff :=
  edit "select 1" "select 2" (by decide) (by decide)

/-- The removed line is an SQL comment. -/
def commentLine : UnifiedDiff :=
  edit "-- a/b ratio" "select 2" (by decide) (by decide)

theorem rewritten_edit : plainLine.Rewritten commentLine :=
  .cons (.header _) (.cons (.header _) (.cons (.header _)
    (.cons (.body _ _ _) (.cons (.body _ _ _) (.cons (.header _) .nil)))))

/-- One line of a file is replaced, once by another line of code and once by a comment
of SQL. -/
theorem verdict_kept_iff_edit :
    (validatePatch plainLine.bytes ["src/*"] = .ok () ↔
      validatePatch commentLine.bytes ["src/*"] = .ok ()) ↔
        (plainLine.Harmless ["src/*"] ↔ commentLine.Harmless ["src/*"]) :=
  verdict_kept_iff (by decide) rewritten_edit

/-- Removing the comment is taken for touching the file `b ratio`: behind the marker its text
begins like a file header. -/
theorem hunk_text_decides :
    validatePatch (joinLines plainLine.headers) ["src/*"] = .ok () ∧
      plainLine.Rewritten commentLine ∧ validatePatch plainLine.bytes ["src/*"] = .ok () ∧
        validatePatch commentLine.bytes ["src/*"] =
          raiseWith .protectionError "Patch touches path outside allowed_edit_paths: b ratio" :=
  ⟨by decide, rewritten_edit, by decide, by decide⟩

end VerifierCI
