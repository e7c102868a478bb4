import VerifierCI.Python.JsonLoads

/-! # Paths and text files

`pathlib` paths of a POSIX system: a root and parts, without empty parts and
dots. Nothing is looked up, so `..` stays.
-/

namespace Python

/-- Universal newlines: what a file opened as text shows for a line end. -/
def universalNewlines : List Char → List Char
  | '\r' :: '\n' :: rest => '\n' :: universalNewlines rest
  | '\r' :: rest => '\n' :: universalNewlines rest
  | c :: rest => c :: universalNewlines rest
  | [] => []

/-- `text.encode("utf-8")`. -/
def encodeUtf8 (text : String) : List UInt8 :=
  text.toList.flatMap String.utf8EncodeChar

/-- `path.read_text(encoding="utf-8")` of a file with these bytes, or `none`
for a `UnicodeDecodeError`. -/
def readText? (data : List UInt8) : Option (List Char) :=
  (decodeUtf8? data).map universalNewlines

/-- `path.stem` of a name: all of it up to the last dot, unless the dot is its
first or last character. -/
def stem (name : List Char) : List Char :=
  let suffix := name.reverse.takeWhile (· ≠ '.')
  let before := (name.reverse.dropWhile (· ≠ '.')).tail.reverse
  if before = [] ∨ suffix = [] then name else before

/-- `path.suffix` of a name: its last dot and what follows, under the same exceptions. -/
def suffix (name : List Char) : List Char :=
  let suffix := name.reverse.takeWhile (· ≠ '.')
  let before := (name.reverse.dropWhile (· ≠ '.')).tail.reverse
  if before = [] ∨ suffix = [] then [] else '.' :: suffix.reverse

structure PyPath where
  /-- Empty, `/` or `//`. -/
  root : String
  parts : List String
deriving DecidableEq, Repr

namespace PyPath

/-- `Path(text)`. -/
def parse (text : String) : PyPath where
  root :=
    match (text.toList.takeWhile (· = '/')).length with
    | 0 => ""
    | 2 => "//"
    | _ => "/"
  parts := ((split '/' text.toList).filter fun part => part ≠ [] ∧ part ≠ ['.']).map String.ofList

/-- `base / text`; an absolute path takes the place of the base. -/
def join (base : PyPath) (text : String) : PyPath :=
  let path := parse text
  if path.root = "" then { base with parts := base.parts ++ path.parts } else path

/-- `str(path)`. -/
def text (path : PyPath) : String :=
  if path.root = "" ∧ path.parts = [] then "."
  else path.root ++ "/".intercalate path.parts

/-- `path.name`. -/
def name (path : PyPath) : String :=
  path.parts.getLast?.getD ""

/-- `path.stem`. -/
def stem (path : PyPath) : String :=
  String.ofList (Python.stem path.name.toList)

/-- `path.parent`. -/
def parent (path : PyPath) : PyPath :=
  { path with parts := path.parts.dropLast }

/-- `path.is_relative_to(other)`. -/
def isRelativeTo (path other : PyPath) : Bool :=
  path.root = other.root && other.parts.isPrefixOf path.parts

/-- `path.relative_to(other).as_posix()` of a path below the other. -/
def relativePosix (path other : PyPath) : String :=
  text ⟨"", path.parts.drop other.parts.length⟩

end PyPath

/-- What a program sees of the file system. Where an answer is optional, `none` is an
`OSError`, as for a path behind a directory that may not be searched. -/
structure FileSystem where
  isFile? : PyPath → Option Bool
  isDir? : PyPath → Option Bool
  isSymlink? : PyPath → Option Bool
  /-- `path.stat().st_size` of a file. -/
  size : PyPath → Nat
  /-- `path.read_bytes()`. -/
  readBytes? : PyPath → Option (List UInt8)
  /-- `path.resolve()`, or the text of its `ValueError` or `RuntimeError`. -/
  resolve : PyPath → Except String PyPath
  /-- `path.rglob("*")`. -/
  rglob? : PyPath → Option (List PyPath)

/-- `path.is_file() and not path.is_symlink()`. A link is asked for what it leads to first. -/
def FileSystem.isRegular? (fs : FileSystem) (path : PyPath) : Option Bool :=
  match fs.isFile? path with
  | none => none
  | some false => some false
  | some true => (fs.isSymlink? path).map fun symlink => !symlink

end Python
