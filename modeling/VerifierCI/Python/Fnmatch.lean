import Mathlib.Tactic.Common

/-! # Shell-style file name patterns

`fnmatch.fnmatch` on a system whose file names are case sensitive: `*` matches
any stretch of text, `?` any character and `[…]` a character of a set. The
translation of a set follows `fnmatch.translate`, with its treatment of empty
ranges.
-/

namespace Python

namespace Fnmatch

/-- An item of a character set. A single character is a range of its own. -/
structure CharRange where
  low : Char
  high : Char

/-- One element of a translated pattern. -/
inductive Element where
  | star
  | anyChar
  | literal (c : Char)
  /-- A set, negated or not. -/
  | charSet (negated : Bool) (ranges : List CharRange)

/-- A character of a set's text, or the hyphen that makes a range. -/
inductive SetToken where
  | char (c : Char)
  | hyphen
deriving DecidableEq

def SetToken.toChar : SetToken → Char
  | .char c => c
  | .hyphen => '-'

/-- Cut the text of a set at the hyphens that make ranges: none before `offset`
and none within two characters of the last one. A final hyphen stands for itself. -/
def chunks : Nat → Nat → List Char → List (List Char)
  | 0, _, stuff => [stuff]
  | fuel + 1, offset, stuff =>
      let tail := stuff.drop offset
      let chunk := stuff.take offset ++ tail.takeWhile (· ≠ '-')
      match tail.dropWhile (· ≠ '-') with
      | [] => [stuff]
      | [_] => [chunk ++ ['-']]
      | _ :: after => chunk :: chunks fuel 2 after

/-- Drop the ranges whose ends are in the wrong order, from the right. -/
def dropEmptyRanges : List (List Char) → List (List Char)
  | [] => []
  | chunk :: rest =>
      match chunk.getLast?, dropEmptyRanges rest with
      | some last, (first :: next) :: others =>
          if first < last then (chunk.dropLast ++ next) :: others
          else chunk :: (first :: next) :: others
      | _, others => chunk :: others

/-- The text of a set with its range hyphens told apart. -/
def setTokens (stuff : List Char) : List SetToken :=
  if '-' ∈ stuff then
    let offset := if stuff.head? = some '!' then 2 else 1
    ((dropEmptyRanges (chunks stuff.length offset stuff)).map
      fun chunk => chunk.map SetToken.char).intersperse [.hyphen] |>.flatten
  else stuff.map SetToken.char

def setRanges : List SetToken → List CharRange
  | [] => []
  | low :: .hyphen :: high :: rest => ⟨low.toChar, high.toChar⟩ :: setRanges rest
  | token :: rest => ⟨token.toChar, token.toChar⟩ :: setRanges rest

/-- The element a set's text stands for. -/
def translateSet (stuff : List Char) : Element :=
  match setTokens stuff with
  | [] => .charSet false []
  | [.char '!'] => .anyChar
  | .char '!' :: tokens => .charSet true (setRanges tokens)
  | tokens => .charSet false (setRanges tokens)

/-- The text of a set and what follows its closing bracket. A bracket right
after the opening one belongs to the set. -/
def readSet (pattern : List Char) : Option (List Char × List Char) :=
  let (lead, body) :=
    match pattern with
    | '!' :: ']' :: rest => (['!', ']'], rest)
    | '!' :: rest => (['!'], rest)
    | ']' :: rest => ([']'], rest)
    | rest => ([], rest)
  match body.dropWhile (· ≠ ']') with
  | [] => none
  | _ :: after => some (lead ++ body.takeWhile (· ≠ ']'), after)

/-- `fnmatch.translate`, with a bound on the pattern's length. -/
def translate : Nat → List Char → List Element
  | 0, _ => []
  | _ + 1, [] => []
  | fuel + 1, '*' :: rest => .star :: translate fuel rest
  | fuel + 1, '?' :: rest => .anyChar :: translate fuel rest
  | fuel + 1, '[' :: rest =>
      match readSet rest with
      | none => .literal '[' :: translate fuel rest
      | some (stuff, after) => translateSet stuff :: translate fuel after
  | fuel + 1, c :: rest => .literal c :: translate fuel rest

def CharRange.contains (range : CharRange) (c : Char) : Bool :=
  range.low ≤ c && c ≤ range.high

/-- Does an element other than a star match a character? -/
def Element.matchesChar : Element → Char → Bool
  | .star, _ => false
  | .anyChar, _ => true
  | .literal d, c => c == d
  | .charSet negated ranges, c => (ranges.any fun range => range.contains c) != negated

/-- Some end of the text, the text itself included, satisfies `accepts`. -/
def someEnd (accepts : List Char → Bool) : List Char → Bool
  | [] => accepts []
  | c :: rest => accepts (c :: rest) || someEnd accepts rest

/-- Do the elements match the whole text? -/
def accepts : List Element → List Char → Bool
  | [], text => text.isEmpty
  | .star :: rest, text => someEnd (accepts rest) text
  | element :: rest, text =>
      match text with
      | [] => false
      | c :: tail => element.matchesChar c && accepts rest tail

end Fnmatch

/-- `fnmatch.fnmatch(name, pattern)`. -/
def fnmatch (name pattern : List Char) : Bool :=
  Fnmatch.accepts (Fnmatch.translate pattern.length pattern) name

example : fnmatch "src/main.py".toList "src/[!a-k]*.p?".toList = true := by decide

end Python
