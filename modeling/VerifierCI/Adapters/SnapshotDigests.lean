import VerifierCI.Adapters.ImportedBundles
import VerifierCI.Python.Lists
import VerifierCI.Python.Sorted

/-! # What a snapshot digest stands for

The digest of a snapshot is taken of its files in the order of their paths, each path
followed by a zero byte and by the content of the file. Nothing says where a content
ends, so a content can go on like another file.
-/

namespace VerifierCI

open Python

/-! ## Trees -/

def IsFileName (name : String) : Prop :=
  name ≠ "" ∧ name ≠ "." ∧ name ≠ ".." ∧ '/' ∉ name.toList ∧ Char.ofNat 0 ∉ name.toList

instance (name : String) : Decidable (IsFileName name) :=
  inferInstanceAs (Decidable (_ ∧ _))

def IsFilePath (path : List String) : Prop :=
  path ≠ [] ∧ ∀ name ∈ path, IsFileName name

instance (path : List String) : Decidable (IsFilePath path) :=
  inferInstanceAs (Decidable (_ ∧ _))

/-- A finite map from relative paths to contents, listed in the order of the paths. No
file has another one below it. -/
@[ext]
structure SnapshotTree where
  files : List (List String × List UInt8)
  named : ∀ file ∈ files, IsFilePath file.1
  sorted : files.Pairwise fun file later => file.1 ≤ later.1
  apart : files.Pairwise fun file later => ¬ file.1 <+: later.1

/-- A relative path, as the digest spells it. -/
def posixText (path : List String) : String :=
  PyPath.text ⟨"", path⟩

def fileEntry (file : List String × List UInt8) : List UInt8 :=
  encodeUtf8 (posixText file.1 ++ "\x00") ++ file.2

def SnapshotTree.stream (tree : SnapshotTree) : List UInt8 :=
  (tree.files.map fileEntry).flatten

/-! ## Directories -/

section Directory

theorem append_le_append (first : List String) {path other : List String} (h : path ≤ other) :
    first ++ path ≤ first ++ other := by
  induction first with
  | nil => exact h
  | cons name rest ih => exact List.cons_le_cons name ih

variable {env : ImportEnv} {directory : PyPath} {tree : SnapshotTree}

def childPath (directory : PyPath) (file : List String × List UInt8) : PyPath :=
  { directory with parts := directory.parts ++ file.1 }

/-- The regular files below the directory, and what they contain, are those of the tree. What
is listed there can be looked up. -/
structure SnapshotTree.In (tree : SnapshotTree) (env : ImportEnv) (directory : PyPath) : Prop where
  children : ∃ listing, env.fs.rglob? directory = some listing ∧
    (∀ child ∈ listing, env.fs.isRegular? child ≠ none) ∧
    (listing.filter fun child => env.fs.isRegular? child = some true).Perm
      (tree.files.map (childPath directory))
  content : ∀ file ∈ tree.files, env.fs.readBytes? (childPath directory file) = some file.2

/-- A regular file of the tree is fed to the hasher with the path it has below the directory and
its content. -/
theorem snapshotEntry_of_in (h : tree.In env directory) {file : List String × List UInt8}
    (hfile : file ∈ tree.files)
    (hregular : env.fs.isRegular? (childPath directory file) = some true) :
    snapshotEntry env directory (childPath directory file) = .ok (fileEntry file) := by
  have hrelative : (childPath directory file).relativePosix directory = posixText file.1 := by
    rw [PyPath.relativePosix, childPath, List.drop_left, posixText]
  rw [snapshotEntry, hregular, ImportEnv.readBytes, h.content file hfile, hrelative]
  rfl

/-- The files are read in the order of the tree. Below one directory paths are ordered like the
names in the tree, and a sorted list is determined by what it holds. -/
theorem sorted_children {listing : List PyPath}
    (h : (listing.filter fun child => env.fs.isRegular? child = some true).Perm
      (tree.files.map (childPath directory))) :
    ((listing.insertionSort fun a b => a.parts ≤ b.parts).filter fun child =>
      env.fs.isRegular? child = some true) = tree.files.map (childPath directory) := by
  have hperm := (((List.perm_insertionSort (fun a b : PyPath => a.parts ≤ b.parts)
    listing).filter fun child => env.fs.isRegular? child = some true)).trans h
  have hsorted : (listing.insertionSort fun a b => a.parts ≤ b.parts).Pairwise
      fun a b => a.parts ≤ b.parts :=
    @pairwise_sorted PyPath (List String) _ PyPath.parts _ _ (fun _ _ => Iff.rfl) _
  have hfiles : (tree.files.map (childPath directory)).Pairwise fun a b => a.parts ≤ b.parts := by
    rw [List.pairwise_map]
    apply tree.sorted.imp
    intro file later hle
    exact append_le_append directory.parts hle
  apply hperm.eq_of_pairwise _ (hsorted.filter _) hfiles
  intro a b ha hb hle hge
  have hroot : ∀ path ∈ tree.files.map (childPath directory), path.root = directory.root := by
    intro path hpath
    obtain ⟨file, _, rfl⟩ := List.mem_map.mp hpath
    rfl
  have hparts := le_antisymm hle hge
  have hroots := (hroot a (hperm.mem_iff.mp ha)).trans (hroot b hb).symm
  cases a
  cases b
  rw [PyPath.mk.injEq]
  exact ⟨hroots, hparts⟩

/-- What is read as nothing leaves no trace in what is read of a list. So the loop over a whole
listing can be followed on the regular files alone. -/
theorem mapM_flatten_of_filter {α β : Type} {read : α → Except Exc (List β)} {p : α → Bool}
    {items : List α} {entries : List (List β)}
    (hskip : ∀ item ∈ items, p item = false → read item = .ok [])
    (h : (items.filter p).mapM read = .ok entries) :
    ∃ all, items.mapM read = .ok all ∧ all.flatten = entries.flatten := by
  induction items generalizing entries with
  | nil => exact ⟨entries, h, rfl⟩
  | cons item rest ih =>
      have hrest : ∀ other ∈ rest, p other = false → read other = .ok [] := fun other hother =>
        hskip other (List.mem_cons_of_mem item hother)
      rw [List.mapM_cons]
      cases hitem : p item with
      | false =>
          rw [List.filter_cons_of_neg (by simp [hitem])] at h
          obtain ⟨all, hall, hflatten⟩ := ih hrest h
          rw [hskip item List.mem_cons_self hitem]
          exact ⟨[] :: all, bind_eq_ok.mpr ⟨[], rfl, bind_eq_ok.mpr ⟨all, hall, rfl⟩⟩, hflatten⟩
      | true =>
          rw [List.filter_cons_of_pos hitem, List.mapM_cons] at h
          obtain ⟨entry, hentry, h⟩ := bind_eq_ok.mp h
          obtain ⟨others, hothers, h⟩ := bind_eq_ok.mp h
          obtain rfl := Except.ok.inj h
          obtain ⟨all, hall, hflatten⟩ := ih hrest hothers
          refine ⟨entry :: all, bind_eq_ok.mpr ⟨entry, hentry, bind_eq_ok.mpr ⟨all, hall, rfl⟩⟩, ?_⟩
          rw [List.flatten_cons, List.flatten_cons, hflatten]

/-- The snapshot digest is the digest of the stream. What is listed but is no regular file adds
nothing to the stream. -/
theorem snapshotDigest_of_in (h : tree.In env directory) :
    snapshotDigest env directory = .ok (env.sha256 tree.stream).text := by
  obtain ⟨listing, hlisting, hanswered, hperm⟩ := h.children
  have hentries : (tree.files.map (childPath directory)).mapM (snapshotEntry env directory) =
      .ok (tree.files.map fileEntry) := by
    rw [mapM_eq_ok, List.forall₂_map_left_iff, List.forall₂_map_right_iff, List.forall₂_same]
    intro file hfile
    have hkept := hperm.mem_iff.mpr (List.mem_map_of_mem hfile)
    exact snapshotEntry_of_in h hfile (of_decide_eq_true (List.mem_filter.mp hkept).2)
  rw [← sorted_children hperm] at hentries
  obtain ⟨all, hall, hflatten⟩ := mapM_flatten_of_filter (by
    intro child hchild hdropped
    have hmem : child ∈ listing := (List.perm_insertionSort _ _).mem_iff.mp hchild
    have hfalse : env.fs.isRegular? child = some false := by
      have hnot := of_decide_eq_false hdropped
      have hsome := hanswered child hmem
      cases hregular : env.fs.isRegular? child with
      | none => exact absurd hregular hsome
      | some regular =>
          cases regular with
          | false => rfl
          | true => exact absurd hregular hnot
    rw [snapshotEntry, hfalse]
    rfl) hentries
  rw [snapshotDigest, hlisting]
  refine bind_eq_ok.mpr ⟨listing, rfl, bind_eq_ok.mpr ⟨all, hall, ?_⟩⟩
  rw [hflatten]
  rfl

end Directory

/-! ## Entries -/

/-- No character but the zero character has a zero byte in its encoding, so the byte can
separate texts. -/
theorem zero_not_mem_utf8 {c : Char} (hc : c ≠ Char.ofNat 0) :
    (0 : UInt8) ∉ String.utf8EncodeChar c := by
  have hbyte : ∀ n : Nat, 0 < n → n < 256 → (0 : UInt8) ≠ UInt8.ofNat n := by
    intro n hpos hlt h
    have hnat := congrArg UInt8.toNat h
    rw [UInt8.toNat_ofNat', Nat.mod_eq_of_lt hlt] at hnat
    have hzero : UInt8.toNat 0 = 0 := rfl
    omega
  have hpos : c.val.toNat ≠ 0 := by
    intro hzero
    apply hc
    have hof : Char.ofNat c.val.toNat = c := Char.ofNat_toNat c
    rw [← hof, hzero]
  simp only [String.utf8EncodeChar]
  generalize c.val.toNat = v at hpos
  split_ifs
  all_goals simp only [List.mem_cons, List.not_mem_nil, or_false, not_or]
  · exact hbyte v (by omega) (by omega)
  · exact ⟨hbyte _ (by omega) (by omega), hbyte _ (by omega) (by omega)⟩
  · exact ⟨hbyte _ (by omega) (by omega), hbyte _ (by omega) (by omega),
      hbyte _ (by omega) (by omega)⟩
  · exact ⟨hbyte _ (by omega) (by omega), hbyte _ (by omega) (by omega),
      hbyte _ (by omega) (by omega), hbyte _ (by omega) (by omega)⟩

theorem encodeUtf8_append (text other : String) :
    encodeUtf8 (text ++ other) = encodeUtf8 text ++ encodeUtf8 other := by
  rw [encodeUtf8, String.toList_append, List.flatMap_append]
  rfl

theorem encodeUtf8_injective : Function.Injective encodeUtf8 := by
  intro text other h
  apply String.toList_inj.mp
  rw [← decode_encode text.toList, ← decode_encode other.toList]
  exact congrArg decode h

theorem fileEntry_eq (path : List String) (content : List UInt8) :
    fileEntry (path, content) = encodeUtf8 (posixText path) ++ 0 :: content := by
  have hzero : encodeUtf8 "\x00" = [0] := by decide
  rw [fileEntry, encodeUtf8_append, hzero, List.append_assoc]
  rfl

theorem fileEntry_append (path : List String) (content rest : List UInt8) :
    fileEntry (path, content ++ rest) = fileEntry (path, content) ++ rest := by
  rw [fileEntry, fileEntry, List.append_assoc]

theorem posixText_toList {path : List String} (hpath : path ≠ []) :
    (posixText path).toList = ['/'].intercalate (path.map String.toList) := by
  rw [posixText, PyPath.text, if_neg fun h => hpath h.2, String.toList_append,
    String.toList_intercalate]
  rfl

/-- Paths of file names can be read back from their texts: no name contains a slash and none is
empty. -/
theorem posixText_injOn {path other : List String} (hpath : IsFilePath path)
    (hother : IsFilePath other) (h : posixText path = posixText other) : path = other := by
  have hsplit : ∀ names : List String, IsFilePath names →
      (posixText names).toList.splitOn '/' = names.map String.toList := by
    intro names hnames
    rw [posixText_toList hnames.1]
    apply List.splitOn_intercalate
    · intro part hpart
      obtain ⟨name, hname, rfl⟩ := List.mem_map.mp hpart
      exact (hnames.2 name hname).2.2.2.1
    · simpa using hnames.1
  have hnames : path.map String.toList = other.map String.toList := by
    rw [← hsplit path hpath, h, hsplit other hother]
  exact (List.map_inj_right fun _ _ => String.toList_inj.mp).mp hnames

/-- A file name has no zero character, so the first zero byte of an entry ends its path. -/
theorem zero_not_mem_path {path : List String} (hpath : IsFilePath path) :
    (0 : UInt8) ∉ encodeUtf8 (posixText path) := by
  rw [encodeUtf8, posixText_toList hpath.1, List.mem_flatMap]
  rintro ⟨c, hc, hzero⟩
  have hnull : c ≠ Char.ofNat 0 := by
    rcases mem_intercalate hc with rfl | ⟨part, hpart, hmem⟩
    · decide
    · obtain ⟨name, hname, rfl⟩ := List.mem_map.mp hpart
      rintro rfl
      exact (hpath.2 name hname).2.2.2.2 hmem
  exact zero_not_mem_utf8 hnull hzero

/-- The first entry of a stream ends its path where the first zero byte is. -/
theorem entry_injective {path other : List String} {content rest content' rest' : List UInt8}
    (hpath : IsFilePath path) (hother : IsFilePath other)
    (h : fileEntry (path, content) ++ rest = fileEntry (other, content') ++ rest') :
    path = other ∧ content ++ rest = content' ++ rest' := by
  rw [fileEntry_eq, fileEntry_eq, List.append_assoc, List.append_assoc, List.cons_append,
    List.cons_append] at h
  obtain ⟨htext, hrest⟩ := append_cons_inj (zero_not_mem_path hpath) (zero_not_mem_path hother) h
  exact ⟨posixText_injOn hpath hother (encodeUtf8_injective htext), hrest⟩

/-! ## Trees told apart -/

namespace SnapshotTree

def single (path : List String) (content : List UInt8) (hpath : IsFilePath path) :
    SnapshotTree where
  files := [(path, content)]
  named := by simpa using hpath
  sorted := List.pairwise_singleton ..
  apart := List.pairwise_singleton ..

def pair (path later : List String) (content rest : List UInt8) (hpath : IsFilePath path)
    (hlater : IsFilePath later) (hle : path ≤ later) (hapart : ¬ path <+: later) :
    SnapshotTree where
  files := [(path, content), (later, rest)]
  named := by simpa using And.intro hpath hlater
  sorted := by simpa using hle
  apart := by simpa using hapart

theorem stream_eq_nil_iff {tree : SnapshotTree} : tree.stream = [] ↔ tree.files = [] := by
  rw [stream]
  cases tree.files with
  | nil => simp
  | cons file rest =>
      obtain ⟨path, content⟩ := file
      simp [fileEntry_eq]

/-- The tree is empty, or one file whose content does not end with what another file,
one that could stand behind it, adds to the stream. -/
def Unambiguous (tree : SnapshotTree) : Prop :=
  tree.files = [] ∨ ∃ path content, tree.files = [(path, content)] ∧
    ¬ ∃ later pre post, IsFilePath later ∧ path ≤ later ∧ ¬ path <+: later ∧
      content = pre ++ fileEntry (later, post)

/-- The first entry of the stream gives a path and a beginning of the content. Whatever follows
would have to be a second entry, which the content of an unambiguous tree excludes. -/
theorem eq_of_unambiguous {tree other : SnapshotTree} (htree : tree.Unambiguous)
    (h : other.stream = tree.stream) : other = tree := by
  apply SnapshotTree.ext
  rcases htree with hempty | ⟨path, content, hsingle, hcontent⟩
  · rw [hempty, ← stream_eq_nil_iff, h, stream_eq_nil_iff]
    exact hempty
  · have hnamed := other.named
    have hsorted := other.sorted
    have hapart := other.apart
    have hpath : IsFilePath path := tree.named (path, content) (by simp [hsingle])
    rw [stream, stream, hsingle, List.map_singleton, List.flatten_singleton] at h
    rw [hsingle]
    -- The stream begins with the path, so the other tree has a file there, too.
    cases hfiles : other.files with
    | nil =>
        rw [hfiles] at h
        simp [fileEntry_eq] at h
    | cons file rest =>
        obtain ⟨path', content'⟩ := file
        rw [hfiles] at h hnamed hsorted hapart
        have hpath' : IsFilePath path' := hnamed _ List.mem_cons_self
        rw [List.map_cons, List.flatten_cons, ← List.append_nil (fileEntry (path, content))] at h
        obtain ⟨rfl, hrest⟩ := entry_injective hpath' hpath h
        rw [List.append_nil] at hrest
        cases rest with
        | nil =>
            rw [List.map_nil, List.flatten_nil, List.append_nil] at hrest
            rw [hrest]
        | cons file rest =>
            obtain ⟨later, post⟩ := file
            -- a second file: the stream behind the first content is its entry
            refine absurd ⟨later, content', post ++ (rest.map fileEntry).flatten, ?_⟩ hcontent
            refine ⟨hnamed (later, post) (by simp),
              (List.pairwise_cons.mp hsorted).1 _ List.mem_cons_self,
              (List.pairwise_cons.mp hapart).1 _ List.mem_cons_self, ?_⟩
            rw [← hrest, List.map_cons, List.flatten_cons, fileEntry_append]

/-- A second file can be taken for the end of the first. -/
theorem exists_single {tree : SnapshotTree} {file : List String × List UInt8}
    {rest : List (List String × List UInt8)} (hfiles : tree.files = file :: rest) :
    ∃ content hpath, (single file.1 content hpath).stream = tree.stream := by
  have hpath : IsFilePath file.1 := tree.named file (by simp [hfiles])
  refine ⟨file.2 ++ (rest.map fileEntry).flatten, hpath, ?_⟩
  rw [stream, stream, hfiles, single]
  simp [fileEntry]

/-- A tree is known by its stream exactly if it has no two files, and no content that can
be cut into two. -/
theorem identified_iff (tree : SnapshotTree) :
    (∀ other : SnapshotTree, other.stream = tree.stream → other = tree) ↔ tree.Unambiguous := by
  constructor
  · intro h
    cases hfiles : tree.files with
    | nil => exact Or.inl hfiles
    | cons file rest =>
        obtain ⟨path, content⟩ := file
        obtain ⟨lump, hpath, hstream⟩ := exists_single hfiles
        have hrest : rest = [] := by
          have hsame := congrArg files (h _ hstream)
          rw [hfiles] at hsame
          exact (List.cons.inj hsame).2.symm
        rw [hrest] at hfiles
        refine Or.inr ⟨path, content, hfiles, ?_⟩
        rintro ⟨later, pre, post, hlater, hle, hapart, rfl⟩
        have hsame := h (pair path later pre post hpath hlater hle hapart) (by
          rw [stream, stream, hfiles, pair]
          simp [fileEntry_eq])
        have hlength := congrArg (fun other => other.files.length) hsame
        simp only [hfiles, pair, List.length_cons, List.length_nil] at hlength
        omega
  · intro htree other hstream
    exact eq_of_unambiguous htree hstream

end SnapshotTree

/-- The digest of a directory is that of the stream of its tree. The tree is known by its
stream exactly if it has no two files, and no content that can be cut into two. -/
theorem snapshot_identified_iff {env : ImportEnv} {directory : PyPath} {tree : SnapshotTree}
    (htree : tree.In env directory) :
    snapshotDigest env directory = .ok (env.sha256 tree.stream).text ∧
      ((∀ other : SnapshotTree, other.stream = tree.stream → other = tree) ↔
        tree.Unambiguous) :=
  ⟨snapshotDigest_of_in htree, SnapshotTree.identified_iff tree⟩

def smallTree : SnapshotTree :=
  .single ["main.py"] (ascii "pass\n") (by decide)

theorem smallTree_in : smallTree.In (smallEnv 60) ⟨"", ["source"]⟩ where
  children := by
    have hchildren : ([⟨"", ["source", "main.py"]⟩] : List PyPath).filter (fun child =>
        (smallEnv 60).fs.isRegular? child = some true) =
          smallTree.files.map (childPath ⟨"", ["source"]⟩) := by
      decide +kernel
    refine ⟨[⟨"", ["source", "main.py"]⟩], rfl, by decide +kernel, ?_⟩
    rw [hchildren]
  content := by decide +kernel

/-- The snapshot of the small task is one file, and nothing in its content could be taken for
another. -/
theorem snapshot_identified_iff_small :
    snapshotDigest (smallEnv 60) ⟨"", ["source"]⟩ = .ok (importSha256 smallTree.stream).text ∧
      ((∀ other : SnapshotTree, other.stream = smallTree.stream → other = smallTree) ↔
        smallTree.Unambiguous) :=
  snapshot_identified_iff smallTree_in

/-! ## Two trees with one stream -/

def emptyPair : SnapshotTree :=
  .pair ["a"] ["b"] [] [] (by decide) (by decide) (by decide) (by decide)

/-- One file, which contains the name of another and a zero byte. -/
def lumpTree : SnapshotTree :=
  .single ["a"] [98, 0] (by decide)

/-- Two empty files and one file with the name of the second in its content are fed to the
hasher as the same bytes, whatever the hash. -/
theorem snapshots_collide : emptyPair ≠ lumpTree ∧ emptyPair.stream = lumpTree.stream ∧
    ∀ (env env' : ImportEnv) (directory directory' : PyPath), env.sha256 = env'.sha256 →
      emptyPair.In env directory → lumpTree.In env' directory' →
        snapshotDigest env directory = snapshotDigest env' directory' := by
  have hstream : emptyPair.stream = lumpTree.stream := by decide
  refine ⟨?_, hstream, ?_⟩
  · intro h
    exact absurd (congrArg SnapshotTree.files h) (by decide)
  · intro env env' directory directory' hsha hpair hlump
    rw [snapshotDigest_of_in hpair, snapshotDigest_of_in hlump, hsha, hstream]

end VerifierCI
