import VerifierCI.Adapters.ImportedBundles

/-! # Imports stay in their directory

What an import returns depends on the task directory alone: on the manifest, and
on the files and directories that resolve to a place inside. A path that leads
out is refused before anything behind it is looked at.
-/

namespace VerifierCI

open Python

/-! ## File systems that agree -/

def ResolvesInside (fs : FileSystem) (root path : PyPath) : Prop :=
  ∃ resolved resolvedRoot, fs.resolve path = .ok resolved ∧ fs.resolve root = .ok resolvedRoot ∧
    resolved.isRelativeTo resolvedRoot = true

structure SameAt (fs fs' : FileSystem) (path : PyPath) : Prop where
  isFile? : fs'.isFile? path = fs.isFile? path
  isDir? : fs'.isDir? path = fs.isDir? path
  size : fs'.size path = fs.size path
  readBytes? : fs'.readBytes? path = fs.readBytes? path
  rglob? : fs'.rglob? path = fs.rglob? path

/-- The same links, the same manifest, and the same inside the directory of the manifest. What
is listed there is a file in both or in neither, or refuses the question in both: a link that
leads out is asked for what it leads to before it is skipped. -/
structure SameTask (fs fs' : FileSystem) (source : PyPath) : Prop where
  isSymlink? : fs'.isSymlink? = fs.isSymlink?
  resolve : fs'.resolve = fs.resolve
  manifest : SameAt fs fs' source
  inside : ∀ path, ResolvesInside fs source.parent path → SameAt fs fs' path
  listed : ∀ directory, ResolvesInside fs source.parent directory →
    ∀ listing ∈ fs.rglob? directory, ∀ child ∈ listing, fs'.isFile? child = fs.isFile? child

/-- `rglob` follows no symlink on its way: a child that is none itself resolves below what the
directory resolves to. -/
def GlobsBelow (fs : FileSystem) : Prop :=
  ∀ directory listing child resolved, fs.rglob? directory = some listing → child ∈ listing →
    fs.isSymlink? child = some false → fs.resolve directory = .ok resolved →
      ∃ resolvedChild, fs.resolve child = .ok resolvedChild ∧
        resolvedChild.isRelativeTo resolved = true

theorem isRelativeTo_trans {path middle root : PyPath} (h : path.isRelativeTo middle = true)
    (hmiddle : middle.isRelativeTo root = true) : path.isRelativeTo root = true := by
  simp only [PyPath.isRelativeTo, Bool.and_eq_true, decide_eq_true_eq,
    List.isPrefixOf_iff_prefix] at h hmiddle ⊢
  exact ⟨h.1.trans hmiddle.1, hmiddle.2.trans h.2⟩

/-- What a glob of a directory inside lists is inside itself, unless it is a symlink. -/
theorem GlobsBelow.inside {fs : FileSystem} (h : GlobsBelow fs) {root directory child : PyPath}
    {listing : List PyPath} (hdirectory : ResolvesInside fs root directory)
    (hlisting : fs.rglob? directory = some listing) (hchild : child ∈ listing)
    (hsymlink : fs.isSymlink? child = some false) : ResolvesInside fs root child := by
  obtain ⟨resolved, resolvedRoot, hresolved, hroot, hbelow⟩ := hdirectory
  obtain ⟨resolvedChild, hresolvedChild, hrelative⟩ :=
    h directory listing child resolved hlisting hchild hsymlink hresolved
  exact ⟨resolvedChild, resolvedRoot, hresolvedChild, hroot, isRelativeTo_trans hrelative hbelow⟩

/-! ## The readers -/

/-- The same import on another file system. -/
def ImportEnv.on (env : ImportEnv) (fs : FileSystem) : ImportEnv :=
  { env with fs := fs }

/-- Two computations go the same way if they begin alike and go on alike behind every value
they can come to. -/
theorem bind_congr_ok {α β : Type} {first first' : Except Exc α} {next next' : α → Except Exc β}
    (hfirst : first' = first) (hnext : ∀ value, first = .ok value → next' value = next value) :
    (first' >>= next') = (first >>= next) := by
  subst hfirst
  cases first' with
  | error exc => rfl
  | ok value => exact hnext value rfl

theorem mapM_congr_of_mem {α β : Type} {read read' : α → Except Exc β} {items : List α}
    (h : ∀ item ∈ items, read' item = read item) : items.mapM read' = items.mapM read := by
  induction items with
  | nil => rfl
  | cons item rest ih =>
      rw [List.mapM_cons, List.mapM_cons, h item List.mem_cons_self,
        ih fun other hother => h other (List.mem_cons_of_mem item hother)]

section Readers

variable {env : ImportEnv} {fs : FileSystem} {path root : PyPath}

/-- The snapshot loop feeds the hasher from a child only after it has found that the child is no
link. -/
theorem not_symlink_of_regular (h : env.fs.isRegular? path = some true) :
    env.fs.isSymlink? path = some false := by
  unfold FileSystem.isRegular? at h
  split at h
  · cases h
  · cases h
  · obtain ⟨symlink, hsymlink, hnot⟩ := Option.map_eq_some_iff.mp h
    cases symlink with
    | false => exact hsymlink
    | true => cases hnot

theorem readBytes_same (h : SameAt env.fs fs path) :
    (env.on fs).readBytes path = env.readBytes path := by
  rw [ImportEnv.readBytes, ImportEnv.readBytes, ImportEnv.on, h.readBytes?]

theorem safeLoadYaml_same (hsymlink : fs.isSymlink? = env.fs.isSymlink?)
    (h : SameAt env.fs fs path) : safeLoadYaml (env.on fs) path = safeLoadYaml env path := by
  unfold safeLoadYaml
  rw [readBytes_same h]
  simp only [ImportEnv.on, hsymlink, h.isFile?, h.size]

theorem resolveRelativePath_same (hsymlink : fs.isSymlink? = env.fs.isSymlink?)
    (hresolve : fs.resolve = env.fs.resolve) :
    resolveRelativePath (env.on fs) = resolveRelativePath env := by
  funext root relative
  unfold resolveRelativePath
  simp only [ImportEnv.on, hsymlink, hresolve]

/-- A path that is accepted resolves to a place inside. -/
theorem resolveRelativePath_inside {relative : String}
    (h : resolveRelativePath env root relative = .ok path) :
    ResolvesInside env.fs root path := by
  simp only [resolveRelativePath] at h
  split at h
  next => cases h
  next =>
    obtain ⟨symlink, _, h⟩ := bind_eq_ok.mp h
    split at h
    next => cases h
    next =>
      split at h
      next => cases h
      next => cases h
      next resolved resolvedRoot hresolved hroot =>
        split at h
        next hrelative =>
          cases h
          exact ⟨resolved, resolvedRoot, hresolved, hroot, hrelative⟩
        next => cases h

end Readers

/-! ## The stages -/

section Stages

variable {env : ImportEnv} {fs : FileSystem} {source root path : PyPath}
  {manifest : LocalImportManifest} {data : List (Yaml × Yaml)}

theorem readLocalManifest_same (h : SameTask env.fs fs source) :
    readLocalManifest (env.on fs) = readLocalManifest env := by
  funext path data
  unfold readLocalManifest
  rw [resolveRelativePath_same h.isSymlink? h.resolve]
  rfl

/-- The snapshot of a manifest that was read stays inside. It is resolved below the directory of
the task before it is taken over. -/
theorem readLocalManifest_snapshot (h : readLocalManifest env path data = .ok manifest) :
    ResolvesInside env.fs path.parent (path.parent.join manifest.snapshotFile) := by
  simp only [readLocalManifest] at h
  split at h
  next => cases h
  next =>
    obtain ⟨_, _, h⟩ := bind_eq_ok.mp h
    obtain ⟨_, _, h⟩ := bind_eq_ok.mp h
    obtain ⟨_, _, h⟩ := bind_eq_ok.mp h
    obtain ⟨_, _, h⟩ := bind_eq_ok.mp h
    obtain ⟨_, _, h⟩ := bind_eq_ok.mp h
    obtain ⟨_, _, h⟩ := bind_eq_ok.mp h
    obtain ⟨_, _, h⟩ := bind_eq_ok.mp h
    obtain ⟨_, _, h⟩ := bind_eq_ok.mp h
    obtain ⟨_, _, h⟩ := bind_eq_ok.mp h
    obtain ⟨_, _, h⟩ := bind_eq_ok.mp h
    obtain ⟨snapshotFile, _, h⟩ := bind_eq_ok.mp h
    -- of all fields this one names the snapshot; it was resolved below the task
    obtain ⟨snapshotPath, hsnapshot, h⟩ := bind_eq_ok.mp h
    obtain ⟨_, _, h⟩ := bind_eq_ok.mp h
    obtain ⟨_, _, h⟩ := bind_eq_ok.mp h
    obtain ⟨_, _, h⟩ := bind_eq_ok.mp h
    obtain ⟨_, _, h⟩ := bind_eq_ok.mp h
    obtain ⟨_, _, h⟩ := bind_eq_ok.mp h
    obtain ⟨_, _, h⟩ := bind_eq_ok.mp h
    obtain ⟨_, _, h⟩ := bind_eq_ok.mp h
    cases h
    obtain rfl := resolveRelativePath_ok hsnapshot
    exact resolveRelativePath_inside hsnapshot

theorem importEnvironment_same (h : SameTask env.fs fs source) :
    importEnvironment (env.on fs) source.parent manifest data =
      importEnvironment env source.parent manifest data := by
  unfold importEnvironment
  rw [resolveRelativePath_same h.isSymlink? h.resolve]
  dsimp only
  -- the environment of the manifest, or none
  split
  all_goals
    split
    · apply bind_congr_ok rfl
      intro path hpath
      apply bind_congr_ok
        (safeLoadYaml_same h.isSymlink? (h.inside path (resolveRelativePath_inside hpath)))
      intro raw _
      rfl
    · rfl

/-- A child is read alike: a link is skipped, or refuses to be looked up, in both. -/
theorem snapshotEntry_same (h : SameTask env.fs fs source) (hglob : GlobsBelow env.fs)
    {directory child : PyPath} {listing : List PyPath}
    (hdirectory : ResolvesInside env.fs source.parent directory)
    (hlisting : env.fs.rglob? directory = some listing) (hchild : child ∈ listing) :
    snapshotEntry (env.on fs) directory child = snapshotEntry env directory child := by
  have hfile : fs.isFile? child = env.fs.isFile? child :=
    h.listed directory hdirectory listing hlisting child hchild
  have hregular : (env.on fs).fs.isRegular? child = env.fs.isRegular? child := by
    rw [ImportEnv.on, FileSystem.isRegular?, FileSystem.isRegular?, hfile, h.isSymlink?]
  unfold snapshotEntry
  apply bind_congr_ok (by rw [hregular])
  intro regular hanswer
  cases regular with
  | false => rfl
  | true =>
      have hsymlink : env.fs.isSymlink? child = some false :=
        not_symlink_of_regular (answered_eq_ok hanswer)
      exact bind_congr_ok
        (readBytes_same (h.inside child (hglob.inside hdirectory hlisting hchild hsymlink)))
        fun _ _ => rfl

/-- Of every child the hasher is fed in both systems or in neither, and a child that is read
resolves inside the directory. -/
theorem snapshotDigest_same (h : SameTask env.fs fs source) (hglob : GlobsBelow env.fs)
    {directory : PyPath} (hdirectory : ResolvesInside env.fs source.parent directory) :
    snapshotDigest (env.on fs) directory = snapshotDigest env directory := by
  unfold snapshotDigest
  apply bind_congr_ok (by rw [ImportEnv.on, (h.inside directory hdirectory).rglob?])
  intro listing hanswer
  refine bind_congr_ok ?_ fun entries _ => rfl
  apply mapM_congr_of_mem
  intro child hchild
  rw [List.mem_insertionSort] at hchild
  exact snapshotEntry_same h hglob hdirectory (answered_eq_ok hanswer) hchild

theorem importSnapshot_same (h : SameTask env.fs fs source) (hglob : GlobsBelow env.fs)
    (hsnapshot : ResolvesInside env.fs source.parent (source.parent.join manifest.snapshotFile)) :
    importSnapshot (env.on fs) source.parent manifest =
      importSnapshot env source.parent manifest := by
  unfold importSnapshot
  dsimp only
  rw [snapshotDigest_same h hglob hsnapshot]
  simp only [ImportEnv.on, (h.inside _ hsnapshot).isDir?]

theorem importVerifier_same {contractHash : String} (h : SameAt env.fs fs path) :
    importVerifier (env.on fs) path manifest contractHash data =
      importVerifier env path manifest contractHash data := by
  unfold importVerifier
  rw [readBytes_same h]
  rfl

/-- Each turn of the loop reads one control file, which resolves inside or is refused in both
systems. -/
theorem importControls_same (h : SameTask env.fs fs source) {task : Task} {snapshotDigest : String}
    {reading : Nat} {files : List String} :
    importControls (env.on fs) source.parent task snapshotDigest reading files =
      importControls env source.parent task snapshotDigest reading files := by
  induction files generalizing reading with
  | nil => rfl
  | cons file rest ih =>
      unfold importControls
      rw [resolveRelativePath_same h.isSymlink? h.resolve]
      apply bind_congr_ok rfl
      intro path hpath
      have hat : SameAt env.fs fs path := h.inside path (resolveRelativePath_inside hpath)
      have hfile : (env.on fs).fs.isFile? path = env.fs.isFile? path := hat.isFile?
      rw [hfile]
      apply bind_congr_ok rfl
      intro isFile _
      split
      · apply bind_congr_ok (readBytes_same hat)
        intro content _
        exact bind_congr_ok ih fun _ _ => rfl
      · exact ih

/-- An import reads nothing that is outside of the task directory: on another file system with
the same links and the same content inside, every stage of it gives the same result, be it a
value or an error. -/
theorem importTask_confined {source : String} (h : SameTask env.fs fs (PyPath.parse source))
    (hglob : GlobsBelow env.fs) : importTask (env.on fs) source = importTask env source := by
  unfold importTask
  dsimp only
  have hfile : (env.on fs).fs.isFile? (PyPath.parse source) =
      env.fs.isFile? (PyPath.parse source) := h.manifest.isFile?
  have hsize : (env.on fs).fs.size (PyPath.parse source) = env.fs.size (PyPath.parse source) :=
    h.manifest.size
  have hresolve :
      (env.on fs).resolve (PyPath.parse source) = env.resolve (PyPath.parse source) := by
    rw [ImportEnv.resolve, ImportEnv.resolve, ImportEnv.on, h.resolve]
  -- Stage by stage: each reads the file system at the manifest, or inside the task.
  rw [hfile, hsize]
  apply bind_congr_ok rfl
  intro isFile _
  split
  · rfl
  · split
    · rfl
    · apply bind_congr_ok (readBytes_same h.manifest)
      intro raw _
      apply bind_congr_ok hresolve
      intro resolved _
      apply bind_congr_ok (safeLoadYaml_same h.isSymlink? h.manifest)
      intro data _
      apply bind_congr_ok (by rw [readLocalManifest_same h])
      intro manifest hmanifest
      split
      · rfl
      · rw [resolveRelativePath_same h.isSymlink? h.resolve]
        apply bind_congr_ok rfl
        intro contractPath hcontractPath
        apply bind_congr_ok (safeLoadYaml_same h.isSymlink?
          (h.inside contractPath (resolveRelativePath_inside hcontractPath)))
        intro contractData _
        apply bind_congr_ok rfl
        intro contract _
        apply bind_congr_ok (importEnvironment_same h)
        intro environment _
        apply bind_congr_ok
          (importSnapshot_same h hglob (readLocalManifest_snapshot hmanifest))
        intro snapshot _
        apply bind_congr_ok rfl
        intro verifierPath hverifierPath
        have hverifier := h.inside verifierPath (resolveRelativePath_inside hverifierPath)
        apply bind_congr_ok (safeLoadYaml_same h.isSymlink? hverifier)
        intro verifierData _
        apply bind_congr_ok (importVerifier_same hverifier)
        intro verifier _
        apply bind_congr_ok rfl
        intro _ _
        apply bind_congr_ok (importControls_same h)
        intro controls _
        rfl

end Stages

/-! ## A file beside the task -/

/-- The small task in a directory of its own, and a file beside it. -/
def besideFiles (content : List UInt8) : List (List String × List UInt8) :=
  (["notes.txt"], content) :: (smallFiles 60).map fun file => ("task" :: file.1, file.2)

def besideFileSystem (content : List UInt8) : FileSystem where
  isFile? path := some ((besideFiles content).lookup path.parts).isSome
  isDir? path := some (decide (path.parts = ["task", "source"]))
  isSymlink? _ := some false
  size path := (((besideFiles content).lookup path.parts).getD []).length
  readBytes? path := (besideFiles content).lookup path.parts
  resolve path := .ok ⟨"/", path.parts⟩
  rglob? path := some [⟨path.root, path.parts ++ ["main.py"]⟩]

theorem lookup_beside {parts : List String} (h : parts ≠ ["notes.txt"])
    (content content' : List UInt8) :
    (besideFiles content').lookup parts = (besideFiles content).lookup parts := by
  have hne : (parts == ["notes.txt"]) = false := beq_false_of_ne h
  simp only [besideFiles, List.lookup_cons, hne]

/-- The two systems differ in one file, and that file lies beside the directory of the task. No
path that resolves below the task is that file, and no listing of the task shows it. -/
theorem sameTask_beside (content content' : List UInt8) :
    SameTask (besideFileSystem content) (besideFileSystem content')
      (PyPath.parse "task/task.yaml") := by
  have hsame : ∀ path : PyPath, path.parts ≠ ["notes.txt"] →
      SameAt (besideFileSystem content) (besideFileSystem content') path := by
    intro path hpath
    have hlookup := lookup_beside hpath content content'
    constructor
    · exact congrArg (fun found => some (Option.isSome found)) hlookup
    · rfl
    · exact congrArg (fun found => (found.getD []).length) hlookup
    · exact hlookup
    · rfl
  refine ⟨rfl, rfl, hsame _ (by decide), ?_, ?_⟩
  -- what resolves below the task is not the file beside it
  · rintro path ⟨resolved, resolvedRoot, hresolved, hroot, hrelative⟩
    obtain rfl := Except.ok.inj hresolved
    obtain rfl := Except.ok.inj hroot
    apply hsame
    intro hparts
    rw [PyPath.isRelativeTo, hparts] at hrelative
    exact absurd hrelative (by decide)
  · intro directory _ listing hlisting child hchild
    obtain rfl := Option.some.inj hlisting
    obtain rfl := List.mem_singleton.mp hchild
    apply (hsame _ ?_).isFile?
    intro hparts
    have hlast := congrArg List.getLast? hparts
    simp at hlast

theorem globsBelow_beside (content : List UInt8) : GlobsBelow (besideFileSystem content) := by
  intro directory listing child resolved hlisting hchild _ hresolved
  obtain rfl := Option.some.inj hlisting
  obtain rfl := Except.ok.inj hresolved
  obtain rfl := List.mem_singleton.mp hchild
  refine ⟨_, rfl, ?_⟩
  simp [PyPath.isRelativeTo, List.isPrefixOf_iff_prefix]

/-- The import goes through, whatever the notes beside the task say. -/
theorem importTask_confined_beside :
    (importTask ((smallEnv 60).on (besideFileSystem [])) "task/task.yaml").toOption.map
        ImportBundle.judged = some (60, ["pytest", "tests/"], ["retry-ctrl-fix"]) ∧
      importTask (((smallEnv 60).on (besideFileSystem [])).on (besideFileSystem (ascii "changed")))
          "task/task.yaml" =
        importTask ((smallEnv 60).on (besideFileSystem [])) "task/task.yaml" :=
  ⟨by decide +kernel, importTask_confined (sameTask_beside [] _) (globsBelow_beside [])⟩

end VerifierCI
