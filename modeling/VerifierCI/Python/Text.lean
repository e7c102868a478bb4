import Mathlib.Data.List.Basic

/-! # Strings as lists of characters

The string methods the code calls, on the characters of the string. A line
break is any of the boundaries `str.splitlines` knows, not only a newline.
-/

namespace Python

universe uElem

/-! ## Splitting on one separator -/

section Split

variable {α : Type uElem} [DecidableEq α]

/-- `text.split(sep)`: the parts between separators, one more than there are separators. -/
def split (sep : α) : List α → List (List α)
  | [] => [[]]
  | c :: rest =>
      if c = sep then [] :: split sep rest
      else
        match split sep rest with
        | [] => [[c]]
        | part :: parts => (c :: part) :: parts

theorem split_ne_nil (sep : α) (text : List α) : split sep text ≠ [] := by
  cases text with
  | nil => simp [split]
  | cons c rest =>
      simp only [split]
      split
      · simp
      · split <;> simp

theorem split_cons_self (sep : α) (rest : List α) :
    split sep (sep :: rest) = [] :: split sep rest :=
  if_pos rfl

theorem split_cons_of_ne {sep c : α} (hne : c ≠ sep) {rest part : List α} {parts : List (List α)}
    (hrest : split sep rest = part :: parts) : split sep (c :: rest) = (c :: part) :: parts := by
  simp only [split, if_neg hne, hrest]

/-- A part is a stretch of the text between two separators, or its ends. By induction on the
text, where the first part is the one that still grows. -/
theorem exists_of_mem_split {sep : α} {text part : List α} (hpart : part ∈ split sep text) :
    ∃ before after, text = before ++ part ++ after ∧
      (before = [] ∨ ∃ init, before = init ++ [sep]) ∧
      (after = [] ∨ ∃ tail, after = sep :: tail) := by
  -- the first part has nothing before it, which the induction has to remember
  have hstrong : (∀ head parts, split sep text = head :: parts →
      ∃ after, text = head ++ after ∧ (after = [] ∨ ∃ tail, after = sep :: tail)) ∧
      ∀ head parts, split sep text = head :: parts → ∀ part ∈ parts, ∃ init after,
        text = init ++ [sep] ++ part ++ after ∧ (after = [] ∨ ∃ tail, after = sep :: tail) := by
    clear hpart
    induction text with
    | nil => simp [split]
    | cons c rest ih =>
        obtain ⟨first, others, hrest⟩ := List.exists_cons_of_ne_nil (split_ne_nil sep rest)
        obtain ⟨after, hafter, hends⟩ := ih.1 first others hrest
        by_cases hc : c = sep
        · subst hc
          rw [split_cons_self, hrest]
          constructor
          · rintro head parts heq
            obtain ⟨rfl, rfl⟩ := List.cons.inj heq
            exact ⟨c :: rest, rfl, Or.inr ⟨rest, rfl⟩⟩
          · rintro head parts heq part hpart
            obtain ⟨rfl, rfl⟩ := List.cons.inj heq
            rcases List.mem_cons.mp hpart with rfl | hpart
            · exact ⟨[], after, by simp [hafter], hends⟩
            · obtain ⟨init, tail, htext, hends⟩ := ih.2 first others hrest part hpart
              exact ⟨c :: init, tail, by simp [htext], hends⟩
        · rw [split_cons_of_ne hc hrest]
          constructor
          · rintro head parts heq
            obtain ⟨rfl, rfl⟩ := List.cons.inj heq
            exact ⟨after, by simp [hafter], hends⟩
          · rintro head parts heq part hpart
            obtain ⟨rfl, rfl⟩ := List.cons.inj heq
            obtain ⟨init, tail, htext, hends⟩ := ih.2 first others hrest part hpart
            exact ⟨c :: init, tail, by simp [htext], hends⟩
  obtain ⟨first, others, htext⟩ := List.exists_cons_of_ne_nil (split_ne_nil sep text)
  rw [htext] at hpart
  rcases List.mem_cons.mp hpart with rfl | hpart
  · obtain ⟨after, hafter, hends⟩ := hstrong.1 part others htext
    exact ⟨[], after, by simpa using hafter, Or.inl rfl, hends⟩
  · obtain ⟨init, after, hafter, hends⟩ := hstrong.2 first others htext part hpart
    exact ⟨init ++ [sep], after, hafter, Or.inr ⟨init, rfl⟩, hends⟩

/-- Turning another character into the separator keeps the parts without that character. Only
parts with that character in them are cut. -/
theorem mem_split_replace {sep other : α} {text part : List α} (hpart : part ∈ split sep text)
    (hother : other ∉ part) :
    part ∈ split sep (text.map fun c => if c = other then sep else c) := by
  -- the first part may have been cut, so it is tracked apart from the rest
  have hstrong : ∀ head parts, split sep text = head :: parts → ∃ head' parts',
      split sep (text.map fun c => if c = other then sep else c) = head' :: parts' ∧
        (other ∉ head → head' = head) ∧ ∀ part ∈ parts, other ∉ part → part ∈ parts' := by
    clear hpart hother
    induction text with
    | nil =>
        rintro head parts heq
        obtain ⟨rfl, rfl⟩ := List.cons.inj heq
        exact ⟨[], [], rfl, fun _ => rfl, fun _ hpart _ => hpart⟩
    | cons c rest ih =>
        intro head parts heq
        obtain ⟨first, others, hrest⟩ := List.exists_cons_of_ne_nil (split_ne_nil sep rest)
        obtain ⟨first', others', hrest', hfirst, hothers⟩ := ih first others hrest
        have hkept : ∀ part ∈ first :: others, other ∉ part → part ∈ first' :: others' := by
          intro part hpart hnot
          rcases List.mem_cons.mp hpart with rfl | hpart
          · exact List.mem_cons.mpr (Or.inl (hfirst hnot).symm)
          · exact List.mem_cons_of_mem _ (hothers part hpart hnot)
        rw [List.map_cons]
        by_cases hsep : (if c = other then sep else c) = sep
        · rw [hsep, split_cons_self, hrest']
          by_cases hc : c = sep
          · subst hc
            rw [split_cons_self, hrest] at heq
            obtain ⟨rfl, rfl⟩ := List.cons.inj heq
            exact ⟨[], first' :: others', rfl, fun _ => rfl, hkept⟩
          · rw [split_cons_of_ne hc hrest] at heq
            obtain ⟨rfl, rfl⟩ := List.cons.inj heq
            refine ⟨[], first' :: others', rfl, ?_, ?_⟩
            · intro hnot
              have hother : c = other := by
                by_contra hne
                rw [if_neg hne] at hsep
                exact hc hsep
              exact absurd (hother ▸ List.mem_cons_self) hnot
            · intro part hpart hnot
              exact hkept part (List.mem_cons_of_mem _ hpart) hnot
        · have hc : c ≠ other := by
            rintro rfl
            exact hsep (if_pos rfl)
          rw [if_neg hc] at hsep ⊢
          rw [split_cons_of_ne hsep hrest] at heq
          obtain ⟨rfl, rfl⟩ := List.cons.inj heq
          refine ⟨c :: first', others', split_cons_of_ne hsep hrest', ?_, hothers⟩
          intro hnot
          rw [hfirst fun hmem => hnot (List.mem_cons_of_mem c hmem)]
  obtain ⟨head, parts, htext⟩ := List.exists_cons_of_ne_nil (split_ne_nil sep text)
  obtain ⟨head', parts', htext', hhead, hparts⟩ := hstrong head parts htext
  rw [htext] at hpart
  rw [htext']
  rcases List.mem_cons.mp hpart with rfl | hpart
  · exact List.mem_cons.mpr (Or.inl (hhead hother).symm)
  · exact List.mem_cons_of_mem _ (hparts part hpart hother)

end Split

/-- `needle in text`. -/
def contains (needle : List Char) : List Char → Bool
  | [] => needle.isEmpty
  | c :: rest => needle.isPrefixOf (c :: rest) || contains needle rest

/-- `text.lower()`, as far as a comparison with ASCII text can see it. The
Kelvin sign is the one other character that becomes an ASCII letter alone. -/
def lower (text : List Char) : List Char :=
  text.map fun c => if c.toNat = 0x212a then 'k' else c.toLower

/-! ## White space -/

/-- `c.isspace()`. -/
def isSpace (c : Char) : Bool :=
  (9 ≤ c.toNat && c.toNat ≤ 13) || (28 ≤ c.toNat && c.toNat ≤ 32) || c.toNat == 0x85 ||
    c.toNat == 0xa0 || c.toNat == 0x1680 || (0x2000 ≤ c.toNat && c.toNat ≤ 0x200a) ||
    c.toNat == 0x2028 || c.toNat == 0x2029 || c.toNat == 0x202f || c.toNat == 0x205f ||
    c.toNat == 0x3000

/-- `text.strip()`. -/
def strip (text : List Char) : List Char :=
  ((text.dropWhile isSpace).reverse.dropWhile isSpace).reverse

/-! ## Lines -/

/-- The characters that end a line. -/
def isLineBreak (c : Char) : Bool :=
  (10 ≤ c.toNat && c.toNat ≤ 13) || (28 ≤ c.toNat && c.toNat ≤ 30) || c.toNat == 0x85 ||
    c.toNat == 0x2028 || c.toNat == 0x2029

/-- The lines of a text that continues an unfinished line. -/
def splitlinesFrom (line : List Char) : List Char → List (List Char)
  | [] => if line = [] then [] else [line]
  | '\r' :: '\n' :: rest => line :: splitlinesFrom [] rest
  | c :: rest =>
      if isLineBreak c then line :: splitlinesFrom [] rest else splitlinesFrom (line ++ [c]) rest

/-- `text.splitlines()`. -/
def splitlines (text : List Char) : List (List Char) :=
  splitlinesFrom [] text

def firstLine (text : List Char) : List Char :=
  text.takeWhile fun c => !isLineBreak c

theorem splitlinesFrom_crlf (line rest : List Char) :
    splitlinesFrom line ('\r' :: '\n' :: rest) = line :: splitlinesFrom [] rest := by
  simp only [splitlinesFrom]

theorem splitlinesFrom_break {c : Char} (hbreak : isLineBreak c = true) (line rest : List Char)
    (hcrlf : ∀ tail, c = '\r' → rest = '\n' :: tail → False) :
    splitlinesFrom line (c :: rest) = line :: splitlinesFrom [] rest := by
  rw [splitlinesFrom, if_pos hbreak]
  exact hcrlf

theorem splitlinesFrom_other {c : Char} (hother : ¬ isLineBreak c = true) (line rest : List Char) :
    splitlinesFrom line (c :: rest) = splitlinesFrom (line ++ [c]) rest := by
  rw [splitlinesFrom, if_neg hother]
  rintro tail rfl _
  exact hother (by decide)

theorem firstLine_eq_self {text : List Char} (hunbroken : ∀ c ∈ text, isLineBreak c = false) :
    firstLine text = text := by
  induction text with
  | nil => rfl
  | cons c rest ih =>
      have hc := hunbroken c List.mem_cons_self
      have hrest := ih fun d hd => hunbroken d (List.mem_cons_of_mem c hd)
      rw [firstLine] at hrest ⊢
      simp [hc, hrest]

/-- After a newline the lines are those of the rest alone. By the recursion of `splitlines`,
which takes a carriage return and the newline behind it together. -/
theorem splitlines_subset_newline (line before rest : List Char) :
    splitlines rest ⊆ splitlinesFrom line (before ++ '\n' :: rest) := by
  induction line, before using splitlinesFrom.induct with
  | case1 =>
      rw [List.nil_append, splitlinesFrom_break (by decide) [] rest (by simp)]
      exact List.subset_cons_self _ _
  | case2 line _ =>
      rw [List.nil_append, splitlinesFrom_break (by decide) line rest (by simp)]
      exact List.subset_cons_self _ _
  | case3 line before ih =>
      rw [List.cons_append, List.cons_append, splitlinesFrom_crlf]
      exact List.subset_cons_of_subset _ ih
  | case4 line c before hcrlf hbreak ih =>
      cases before with
      | nil =>
          -- a carriage return joins the newline that follows
          by_cases hc : c = '\r'
          · subst hc
            rw [List.singleton_append, splitlinesFrom_crlf]
            exact List.subset_cons_self _ _
          · rw [List.singleton_append, splitlinesFrom_break hbreak line _ fun _ h _ => hc h]
            exact List.subset_cons_of_subset _ ih
      | cons d before =>
          rw [List.cons_append, splitlinesFrom_break hbreak line]
          · exact List.subset_cons_of_subset _ ih
          · intro tail hc htail
            obtain ⟨rfl, _⟩ := List.cons.inj htail
            exact hcrlf before hc rfl
  | case5 line c before _ hother ih =>
      rw [List.cons_append, splitlinesFrom_other hother]
      exact ih

/-- The beginning of a text up to its first line break is one of its lines. -/
theorem firstLine_mem_splitlinesFrom (line text : List Char) (hne : line ++ firstLine text ≠ []) :
    line ++ firstLine text ∈ splitlinesFrom line text := by
  induction line, text using splitlinesFrom.induct with
  | case1 => simp [firstLine] at hne
  | case2 line hline => simp [splitlinesFrom, firstLine, hline]
  | case3 line rest ih =>
      rw [splitlinesFrom_crlf]
      simp [firstLine, isLineBreak]
  | case4 line c rest hcrlf hbreak ih =>
      rw [splitlinesFrom_break hbreak line rest hcrlf]
      simp [firstLine, hbreak]
  | case5 line c rest _ hother ih =>
      have hfirst : firstLine (c :: rest) = c :: firstLine rest := by simp [firstLine, hother]
      rw [splitlinesFrom_other hother]
      rw [hfirst] at hne ⊢
      simpa using ih (by simp)

/-- What follows a newline does not change the beginning of a text. -/
theorem firstLine_append_newline (text rest : List Char) :
    firstLine (text ++ '\n' :: rest) = firstLine text := by
  induction text with
  | nil => rfl
  | cons c text ih =>
      rw [firstLine] at ih ⊢
      cases hc : isLineBreak c with
      | true => simp [firstLine, hc]
      | false => simpa [firstLine, hc] using ih

/-- The beginning of a stretch between newlines is a line of the whole text. -/
theorem firstLine_mem_splitlines {before text after : List Char}
    (hbefore : before = [] ∨ ∃ init, before = init ++ ['\n'])
    (hafter : after = [] ∨ ∃ tail, after = '\n' :: tail) (hne : firstLine text ≠ []) :
    firstLine text ∈ splitlines (before ++ text ++ after) := by
  have hself : firstLine text ∈ splitlines (text ++ after) := by
    have hfirst : firstLine (text ++ after) = firstLine text := by
      rcases hafter with rfl | ⟨tail, rfl⟩
      · rw [List.append_nil]
      · exact firstLine_append_newline text tail
    rw [← hfirst] at hne ⊢
    exact firstLine_mem_splitlinesFrom [] (text ++ after) hne
  rcases hbefore with rfl | ⟨init, rfl⟩
  · exact hself
  · have hrest := splitlines_subset_newline [] init (text ++ after)
    rw [List.append_assoc, List.append_assoc]
    exact hrest hself

/-! ## Texts cut at a newline -/

/-- What has no newline in it does not reach over one. -/
theorem isPrefixOf_append_newline {needle : List Char} (hneedle : '\n' ∉ needle)
    (front back : List Char) :
    needle.isPrefixOf (front ++ '\n' :: back) = needle.isPrefixOf front := by
  induction needle generalizing front with
  | nil => rw [List.isPrefixOf_nil_left, List.isPrefixOf_nil_left]
  | cons c needle ih =>
      obtain ⟨hc, hneedle⟩ := not_or.mp (List.mem_cons.not.mp hneedle)
      cases front with
      | nil =>
          rw [List.nil_append, List.isPrefixOf_cons_cons, beq_false_of_ne (Ne.symm hc)]
          rfl
      | cons d front => rw [List.cons_append, List.isPrefixOf_cons_cons, List.isPrefixOf_cons_cons,
          ih hneedle]

/-- What has no newline in it is found on one side of a newline. -/
theorem contains_append_newline {needle : List Char} (hneedle : '\n' ∉ needle)
    (front back : List Char) :
    contains needle (front ++ '\n' :: back) = (contains needle front || contains needle back) := by
  induction front with
  | nil =>
      have hprefix := isPrefixOf_append_newline hneedle [] back
      rw [List.nil_append] at hprefix
      rw [List.nil_append, show contains needle ('\n' :: back) =
        (needle.isPrefixOf ('\n' :: back) || contains needle back) from rfl, hprefix]
      cases needle <;> rfl
  | cons c front ih =>
      have hprefix := isPrefixOf_append_newline hneedle (c :: front) back
      rw [List.cons_append] at hprefix ⊢
      rw [contains, contains, hprefix, ih, Bool.or_assoc]

/-- The lines around a newline, apart from an empty one it may end. Behind an empty text the
newline ends an empty line, so the property is asked of that one too. -/
theorem forall_splitlines_append_newline {P : List Char → Prop} (hnil : P [])
    (front back : List Char) :
    (∀ line ∈ splitlines (front ++ '\n' :: back), P line) ↔
      (∀ line ∈ splitlines front, P line) ∧ ∀ line ∈ splitlines back, P line := by
  have hfrom : ∀ line, (∀ other ∈ splitlinesFrom line (front ++ '\n' :: back), P other) ↔
      (∀ other ∈ splitlinesFrom line front, P other) ∧ ∀ other ∈ splitlines back, P other := by
    intro line
    induction line, front using splitlinesFrom.induct with
    | case1 =>
        rw [List.nil_append, splitlinesFrom_break (by decide) [] back (by simp)]
        simp [splitlinesFrom, hnil, splitlines]
    | case2 line hline =>
        rw [List.nil_append, splitlinesFrom_break (by decide) line back (by simp)]
        simp [splitlinesFrom, hline, splitlines]
    | case3 line front ih =>
        rw [List.cons_append, List.cons_append, splitlinesFrom_crlf, splitlinesFrom_crlf,
          List.forall_mem_cons, List.forall_mem_cons, ih, and_assoc]
    | case4 line c front hcrlf hbreak ih =>
        rw [splitlinesFrom_break hbreak line front hcrlf, List.forall_mem_cons]
        cases front with
        | nil =>
            -- a carriage return joins the newline that follows
            by_cases hc : c = '\r'
            · subst hc
              rw [List.singleton_append, splitlinesFrom_crlf, List.forall_mem_cons]
              simp [splitlinesFrom, splitlines]
            · rw [List.singleton_append, splitlinesFrom_break hbreak line _ fun _ h _ => hc h,
                List.forall_mem_cons, ← List.nil_append ('\n' :: back), ih, and_assoc]
        | cons d front =>
            rw [List.cons_append, splitlinesFrom_break hbreak line, List.forall_mem_cons, ih,
              and_assoc]
            intro tail hc htail
            obtain ⟨rfl, _⟩ := List.cons.inj htail
            exact hcrlf front hc rfl
    | case5 line c front _ hother ih =>
        rw [List.cons_append, splitlinesFrom_other hother, splitlinesFrom_other hother]
        exact ih
  exact hfrom []

def laterLines : List Char → List (List Char)
  | [] => []
  | '\r' :: '\n' :: rest => splitlines rest
  | c :: rest => if isLineBreak c then splitlines rest else laterLines rest

/-- An unfinished line is finished by the first line of what follows. -/
theorem splitlinesFrom_eq {line : List Char} (hline : line ≠ []) (text : List Char) :
    splitlinesFrom line text = (line ++ firstLine text) :: laterLines text := by
  induction line, text using splitlinesFrom.induct with
  | case1 => exact absurd rfl hline
  | case2 line _ => simp [splitlinesFrom, hline, firstLine, laterLines]
  | case3 line rest _ =>
      rw [splitlinesFrom_crlf]
      simp [firstLine, laterLines, isLineBreak, splitlines]
  | case4 line c rest hcrlf hbreak _ =>
      rw [splitlinesFrom_break hbreak line rest hcrlf, laterLines, if_pos hbreak]
      · simp [firstLine, hbreak, splitlines]
      · exact hcrlf
  | case5 line c rest hcrlf hother ih =>
      rw [splitlinesFrom_other hother, ih (by simp), laterLines, if_neg hother]
      · simp [firstLine, hother]
      · exact hcrlf

end Python
