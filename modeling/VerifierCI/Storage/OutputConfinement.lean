import VerifierCI.Storage.OutputQuotas

/-! # Confinement of collected outputs

What an execution leaves behind is whatever it chose to: links, directories in place of
files, files whose size is not what was read. Collecting such a directory stores bytes of
regular files inside of it and nothing else, never more of them than the limits allow, and
it fails unless every allowed path where something exists is such a file.
-/

namespace VerifierCI

open Python

/-! ## Files inside a directory -/

/-- A regular file with the given bytes, whose path resolves inside the output directory and
meets no link below it. -/
structure OutputSystem.Holds (fs : OutputSystem) (outputDir path : PyPath)
    (content : List UInt8) : Prop where
  inside : ∃ resolvedOutputDir resolved, fs.resolve outputDir = .ok resolvedOutputDir ∧
    fs.resolve path = .ok resolved ∧ resolved.isRelativeTo resolvedOutputDir = true
  unlinked : fs.isSymlink? path = some false
  links : ∀ parts more, parts ≠ [] → path = pathUnder outputDir (parts ++ more) →
    fs.isSymlink? (pathUnder outputDir parts) = some false
  regular : fs.isFile? path = some true
  bytes : fs.readBytes? path = some content

/-- The allowed paths where something exists. -/
def OutputSystem.found (fs : OutputSystem) (outputDir : PyPath) (allowed : List String) :
    List PyPath :=
  (allowed.map outputDir.join).filter fun path => fs.pathExists? path = some true

/-- Files that a collection may store, in the order of the allowed paths. -/
structure OutputSystem.Gathers (fs : OutputSystem) (outputDir : PyPath) (allowed : List String)
    (limits : OutputLimits) (files : List (PyPath × List UInt8)) : Prop where
  paths : files.map Prod.fst <+: fs.found outputDir allowed
  held : ∀ file ∈ files, fs.Holds outputDir file.1 file.2
  count : files ≠ [] → (files.length : Int) ≤ limits.files
  aggregate : files ≠ [] → ((files.map fun file => file.2.length).sum : Int) ≤ limits.aggregate
  stream : ∀ file ∈ files, file.2 ≠ [] → (file.2.length : Int) ≤ limits.stream

/-- An artifact describes a file by its bytes and its path. -/
structure Artifact.Describes (sha256 : List UInt8 → Digest) (accessPolicy : AccessPolicy)
    (artifact : Artifact) (file : PyPath × List UInt8) : Prop where
  digest : artifact.digest = sha256 file.2
  sizeBytes : artifact.sizeBytes = file.2.length
  kind : artifact.kind = (inferMedia file.1).2
  mediaType : artifact.mediaType = (inferMedia file.1).1
  accessPolicy : artifact.accessPolicy = accessPolicy

def shelve (sha256 : List UInt8 → Digest) (shelf : Shelf) (files : List (PyPath × List UInt8)) :
    Shelf :=
  files.foldl (fun shelf file => Function.update shelf (sha256 file.2) (some file.2)) shelf

namespace OutputSystem

variable {fs : OutputSystem} {outputDir resolvedOutputDir path : PyPath} {relPath : String}
  {allowed : List String} {limits : OutputLimits} {file : PyPath × List UInt8}
  {files : List (PyPath × List UInt8)}

theorem pathUnder_ne {parts : List String} (hparts : parts ≠ []) :
    pathUnder outputDir parts ≠ outputDir := by
  intro heq
  have hlength := congrArg (fun path : PyPath => path.parts.length) heq
  simp only [pathUnder, List.length_append, Nat.add_eq_left] at hlength
  exact hparts (List.length_eq_zero_iff.mp hlength)

/-- A step of a walk that meets no link. -/
theorem symlinkAbove_cons {part : String} {above : List String} {root : String}
    (hne : (⟨root, (part :: above).reverse⟩ : PyPath) ≠ outputDir)
    (habove : fs.symlinkAbove outputDir root (part :: above) = .ok false) :
    fs.isSymlink? ⟨root, (part :: above).reverse⟩ = some false ∧
      fs.symlinkAbove outputDir root above = .ok false := by
  rw [symlinkAbove, if_neg hne] at habove
  obtain ⟨symlink, hsymlink, hrest⟩ := bind_eq_ok.mp habove
  cases symlink with
  | true => cases hrest
  | false => exact ⟨answered_eq_ok hsymlink, hrest⟩

/-- The walk up looks at everything between a path and the directory above it. -/
theorem isSymlink_of_symlinkAbove {parts : List String} (hparts : parts ≠ [])
    (more : List String)
    (habove : fs.symlinkAbove outputDir outputDir.root
      (pathUnder outputDir (parts ++ more)).parts.reverse = .ok false) :
    fs.isSymlink? (pathUnder outputDir parts) = some false := by
  -- on what is left to walk, from the last part on
  induction more using List.reverseRecOn with
  | nil =>
      have hreverse : (pathUnder outputDir (parts ++ [])).parts.reverse ≠ [] := by
        simp [pathUnder, hparts]
      obtain ⟨part, above, hcons⟩ := List.exists_cons_of_ne_nil hreverse
      have hcur : (⟨outputDir.root, (part :: above).reverse⟩ : PyPath) =
          pathUnder outputDir parts := by
        rw [← hcons, List.reverse_reverse, List.append_nil]
        rfl
      rw [hcons] at habove
      have hstep := symlinkAbove_cons (by rw [hcur]; exact pathUnder_ne hparts) habove
      rw [hcur] at hstep
      exact hstep.1
  | append_singleton more part ih =>
      have hreverse : (pathUnder outputDir (parts ++ (more ++ [part]))).parts.reverse =
          part :: (pathUnder outputDir (parts ++ more)).parts.reverse := by
        simp [pathUnder]
      have hcur : (⟨outputDir.root,
          (part :: (pathUnder outputDir (parts ++ more)).parts.reverse).reverse⟩ : PyPath) =
            pathUnder outputDir (parts ++ (more ++ [part])) := by
        rw [← hreverse, List.reverse_reverse]
        rfl
      rw [hreverse] at habove
      have hstep := symlinkAbove_cons
        (by rw [hcur]; exact pathUnder_ne (by simp [hparts])) habove
      exact ih hstep.2

/-- A path that passes the checks is missing, or a regular file without links on the way. -/
theorem locate_cases {located : Option PyPath}
    (hdir : fs.resolve outputDir = .ok resolvedOutputDir)
    (h : fs.locate outputDir resolvedOutputDir relPath = .ok located) :
    (fs.pathExists? (outputDir.join relPath) = some false ∧ located = none) ∨
    (fs.pathExists? (outputDir.join relPath) = some true ∧
      located = some (outputDir.join relPath) ∧
      ∀ content, fs.readBytes? (outputDir.join relPath) = some content →
        fs.Holds outputDir (outputDir.join relPath) content) := by
  obtain ⟨symlink, hsymlink, h⟩ := bind_eq_ok.mp h
  have hlink := answered_eq_ok hsymlink
  cases symlink with
  | true => cases h
  | false =>
      cases hresolve : fs.resolve (outputDir.join relPath) with
      | error exc =>
          simp only [hresolve] at h
          cases h
      | ok resolved =>
          by_cases hinside : resolved.isRelativeTo resolvedOutputDir = false
          · simp only [hresolve, hinside, if_true] at h
            cases h
          simp only [hresolve, if_neg hinside] at h
          obtain ⟨above, habove, h⟩ := bind_eq_ok.mp h
          cases above with
          | true => cases h
          | false =>
              obtain ⟨present, hpresent, h⟩ := bind_eq_ok.mp h
              have hexists := answered_eq_ok hpresent
              cases present with
              | false => exact Or.inl ⟨hexists, (Except.ok.inj h).symm⟩
              | true =>
                  obtain ⟨file, hanswer, h⟩ := bind_eq_ok.mp h
                  have hfile := answered_eq_ok hanswer
                  cases file with
                  | false => cases h
                  | true =>
                      rw [Bool.not_eq_false] at hinside
                      refine Or.inr ⟨hexists, (Except.ok.inj h).symm, ?_⟩
                      intro content hread
                      refine ⟨⟨resolvedOutputDir, resolved, hdir, hresolve, hinside⟩, hlink, ?_,
                        hfile, hread⟩
                      intro parts more hparts hpath
                      rw [hpath] at habove
                      exact isSymlink_of_symlinkAbove hparts more habove

theorem found_cons_of_exists (hexists : fs.pathExists? (outputDir.join relPath) = some true)
    (rest : List String) :
    fs.found outputDir (relPath :: rest) = outputDir.join relPath :: fs.found outputDir rest := by
  simp [found, hexists]

theorem found_cons_of_missing (hmissing : fs.pathExists? (outputDir.join relPath) = some false)
    (rest : List String) : fs.found outputDir (relPath :: rest) = fs.found outputDir rest := by
  simp [found, hmissing]

theorem Gathers.nil (fs : OutputSystem) (outputDir : PyPath) (allowed : List String)
    (limits : OutputLimits) :
    fs.Gathers outputDir allowed limits [] where
  paths := List.nil_prefix
  held := by simp
  count := by simp
  aggregate := by simp
  stream := by simp

/-- One more file in front, where it leaves enough of the limits. -/
theorem Gathers.cons {rest : List String} {content : List UInt8}
    (hexists : fs.pathExists? (outputDir.join relPath) = some true)
    (hholds : fs.Holds outputDir (outputDir.join relPath) content)
    (hcount : 1 ≤ limits.files) (haggregate : (content.length : Int) ≤ limits.aggregate)
    (hstream : content ≠ [] → (content.length : Int) ≤ limits.stream)
    (h : fs.Gathers outputDir rest (limits.less content.length 1) files) :
    fs.Gathers outputDir (relPath :: rest) limits
      ((outputDir.join relPath, content) :: files) where
  paths := by
    rw [found_cons_of_exists hexists, List.map_cons, List.prefix_cons_inj]
    exact h.paths
  held := by
    intro file hfile
    rcases List.mem_cons.mp hfile with rfl | hfile
    · exact hholds
    · exact h.held file hfile
  count := by
    intro _
    by_cases hfiles : files = []
    · simpa [hfiles] using hcount
    · have hrest := h.count hfiles
      simp only [OutputLimits.less] at hrest
      rw [List.length_cons]
      omega
  aggregate := by
    intro _
    by_cases hfiles : files = []
    · simpa [hfiles] using haggregate
    · have hrest := h.aggregate hfiles
      simp only [OutputLimits.less] at hrest
      rw [List.map_cons, List.sum_cons]
      dsimp only
      omega
  stream := by
    intro file hfile hnonempty
    rcases List.mem_cons.mp hfile with rfl | hfile
    · exact hstream hnonempty
    · exact h.stream file hfile hnonempty

/-- The same beside the running totals of the loop: the running total of bytes stays within the
aggregate, also for an empty file. -/
theorem Gathers.cons_of_left {rest : List String} {content : List UInt8}
    {totalBytes filesCount : Int}
    (hexists : fs.pathExists? (outputDir.join relPath) = some true)
    (hholds : fs.Holds outputDir (outputDir.join relPath) content)
    (hcount : ¬ limits.files < filesCount + 1)
    (hover : ¬ limits.aggregate < totalBytes + fs.size (outputDir.join relPath))
    (hleft : content ≠ [] → (content.length : Int) ≤ limits.stream ∧
      totalBytes + content.length ≤ limits.aggregate)
    (h : fs.Gathers outputDir rest
      (limits.less (totalBytes + content.length) (filesCount + 1)) files) :
    fs.Gathers outputDir (relPath :: rest) (limits.less totalBytes filesCount)
      ((outputDir.join relPath, content) :: files) := by
  have htotal : totalBytes + content.length ≤ limits.aggregate := by
    by_cases hnonempty : content = []
    · rw [hnonempty, List.length_nil]
      omega
    · exact (hleft hnonempty).2
  rw [← OutputLimits.less_less] at h
  apply Gathers.cons hexists hholds _ _ _ h
  · simp only [OutputLimits.less]
    omega
  · simp only [OutputLimits.less]
    omega
  · exact fun hnonempty => (hleft hnonempty).1

theorem Gathers.skip {rest : List String}
    (hmissing : fs.pathExists? (outputDir.join relPath) = some false)
    (h : fs.Gathers outputDir rest limits files) :
    fs.Gathers outputDir (relPath :: rest) limits files :=
  ⟨by rw [found_cons_of_missing hmissing]; exact h.paths, h.held, h.count, h.aggregate, h.stream⟩

end OutputSystem

/-! ## One file -/

section Collect

variable {sha256 : List UInt8 → Digest} {names : TempNames} {fs : OutputSystem}
  {outputDir resolvedOutputDir : PyPath} {limits : OutputLimits} {accessPolicy : AccessPolicy}
  {conn : Bool} {now : Datetime} {disk : StoreDisk} {totalBytes filesCount : Int} {path : PyPath}

/-- A file is stored within what is left, or nothing is. Its size on disk is not asked for
again. -/
theorem collectFile_confined :
    (∃ content, fs.readBytes? path = some content ∧
      (content ≠ [] → (content.length : Int) ≤ limits.stream ∧
        totalBytes + content.length ≤ limits.aggregate) ∧
      (collectFile sha256 names fs limits accessPolicy conn now disk totalBytes
        path).2.store.files =
        Function.update disk.store.files (sha256 content) (some content) ∧
      (collectFile sha256 names fs limits accessPolicy conn now disk totalBytes path).2.temps =
        disk.temps ∧
      ∀ artifact,
        (collectFile sha256 names fs limits accessPolicy conn now disk totalBytes path).1 =
          .ok artifact → artifact.Describes sha256 accessPolicy (path, content)) ∨
    ∃ exc, collectFile sha256 names fs limits accessPolicy conn now disk totalBytes path =
      (.error exc, disk) := by
  rw [collectFile]
  cases hread : fs.readBytes? path with
  | none => exact Or.inr ⟨.osError, rfl⟩
  | some content =>
      dsimp only
      rcases @StoreDisk.putStream_cases sha256 names disk conn
          (bytesIoReads (content.length + 1) content)
          { maxBytes := min limits.stream (limits.aggregate - totalBytes)
            kind := (inferMedia path).2
            accessPolicy := accessPolicy
            mediaType := (inferMedia path).1 } now with
        ⟨hfits, hput⟩ | ⟨_, message, hput⟩
      · rw [streamed_bytesIoReads (Nat.lt_succ_self content.length)] at hfits hput
        refine Or.inl ⟨content, rfl, ?_, ?_, ?_, ?_⟩
        · intro hnonempty
          have hleft := hfits.resolve_left hnonempty
          rw [le_min_iff] at hleft
          omega
        · rw [hput, StoreDisk.registerOn_files]
          rfl
        · rw [hput, StoreDisk.registerOn_temps]
        · intro artifact hok
          rw [hput] at hok
          rw [StoreDisk.registerOn_ok hok]
          constructor <;> rfl
      · exact Or.inr ⟨_, hput⟩

/-! ## All of them -/

/-- The loop adds, to what is there, files it may store within what is left of the limits. -/
theorem collectFiles_confined {clock : Nat → Datetime}
    (hdir : fs.resolve outputDir = .ok resolvedOutputDir) (rest : List String)
    (collected : List Artifact) : ∃ files,
      fs.Gathers outputDir rest (limits.less totalBytes filesCount) files ∧
      (collectFiles sha256 names fs outputDir resolvedOutputDir limits accessPolicy conn clock disk
        collected totalBytes filesCount rest).2.store.files =
          shelve sha256 disk.store.files files ∧
      (collectFiles sha256 names fs outputDir resolvedOutputDir limits accessPolicy conn clock disk
        collected totalBytes filesCount rest).2.temps = disk.temps ∧
      ∀ artifacts, (collectFiles sha256 names fs outputDir resolvedOutputDir limits accessPolicy
          conn clock disk collected totalBytes filesCount rest).1 = .ok artifacts →
        files.map Prod.fst = fs.found outputDir rest ∧
          ∃ added, artifacts = collected ++ added ∧
            List.Forall₂ (fun artifact file => artifact.Describes sha256 accessPolicy file)
              added files := by
  induction rest generalizing disk collected totalBytes filesCount with
  | nil =>
      refine ⟨[], .nil .., rfl, rfl, ?_⟩
      intro artifacts hok
      exact ⟨rfl, [], (Except.ok.inj hok).symm.trans (List.append_nil _).symm, .nil⟩
  | cons relPath rest ih =>
      -- what is raised before anything is stored
      have hraised : ∀ exc, ∃ files,
          fs.Gathers outputDir (relPath :: rest)
            (limits.less totalBytes filesCount) files ∧
          disk.store.files = shelve sha256 disk.store.files files ∧ disk.temps = disk.temps ∧
          ∀ artifacts, (.error exc : Except Exc (List Artifact)) = .ok artifacts →
            files.map Prod.fst = fs.found outputDir (relPath :: rest) ∧
              ∃ added, artifacts = collected ++ added ∧
                List.Forall₂ (fun artifact file => artifact.Describes sha256 accessPolicy file)
                  added files := by
        intro exc
        refine ⟨[], .nil .., rfl, rfl, ?_⟩
        intro artifacts hok
        cases hok
      rw [collectFiles]
      cases hlocate : fs.locate outputDir resolvedOutputDir relPath with
      | error exc => exact hraised exc
      | ok located =>
          rcases OutputSystem.locate_cases hdir hlocate with
            ⟨hmissing, rfl⟩ | ⟨hexists, rfl, hholds⟩
          · obtain ⟨files, hgathers, hstore, htemps, hdone⟩ :=
              @ih disk totalBytes filesCount collected
            refine ⟨files, hgathers.skip hmissing, hstore, htemps, ?_⟩
            intro artifacts hok
            rw [OutputSystem.found_cons_of_missing hmissing]
            exact hdone artifacts hok
          · dsimp only
            by_cases hcount : limits.files < filesCount + 1
            · rw [if_pos hcount]
              exact hraised _
            rw [if_neg hcount]
            by_cases hover : limits.aggregate < totalBytes + fs.size (outputDir.join relPath)
            · rw [if_pos hover]
              exact hraised _
            rw [if_neg hover]
            rcases @collectFile_confined sha256 names fs limits accessPolicy conn
                (clock collected.length) disk totalBytes (outputDir.join relPath) with
              ⟨content, hread, hleft, hstore, htemps, hartifact⟩ | ⟨exc, hput⟩
            swap
            · rw [hput]
              exact hraised exc
            generalize hput : collectFile sha256 names fs limits accessPolicy conn
              (clock collected.length) disk totalBytes (outputDir.join relPath) = put at *
            obtain ⟨result, disk'⟩ := put
            have hcons : ∀ files, fs.Gathers outputDir rest
                (limits.less (totalBytes + content.length) (filesCount + 1)) files →
                fs.Gathers outputDir (relPath :: rest) (limits.less totalBytes filesCount)
                  ((outputDir.join relPath, content) :: files) := fun _ hgathers =>
              OutputSystem.Gathers.cons_of_left hexists (hholds content hread) hcount hover hleft
                hgathers
            cases result with
            | error exc =>
                -- stored, then refused its row
                refine ⟨[(outputDir.join relPath, content)], hcons [] (.nil ..), hstore, htemps, ?_⟩
                intro artifacts hok
                cases hok
            | ok artifact =>
                have hdescribes := hartifact artifact rfl
                obtain ⟨files, hgathers, hstores, hkeeps, hdone⟩ :=
                  @ih disk' (totalBytes + content.length) (filesCount + 1) (collected ++ [artifact])
                dsimp only
                rw [hdescribes.sizeBytes]
                refine ⟨(outputDir.join relPath, content) :: files, hcons files hgathers, ?_,
                  hkeeps.trans htemps, ?_⟩
                · rw [hstores, hstore]
                  rfl
                · intro artifacts hok
                  obtain ⟨hall, added, hadded, hdescribed⟩ := hdone artifacts hok
                  rw [OutputSystem.found_cons_of_exists hexists, List.map_cons, hall]
                  refine ⟨rfl, artifact :: added, ?_, .cons hdescribes hdescribed⟩
                  rw [hadded, List.append_assoc, List.singleton_append]

/-- Whatever an execution left behind and however the collection ends, what it puts into the
store are regular files inside the output directory, within the limits, in the order of the
allowed paths. If it returns, these are all the allowed paths where something exists, and its
artifacts describe them. -/
theorem collectOutputs_confined (sha256 : List UInt8 → Digest) (names : TempNames)
    (fs : OutputSystem) (disk : StoreDisk) (outputDir : PyPath) (allowed : List String)
    (options : CollectOptions) (conn : Bool) (clock : Nat → Datetime) :
    ∃ files,
      fs.Gathers outputDir allowed options.limits files ∧
      (collectOutputs sha256 names fs disk outputDir allowed options conn clock).2.store.files =
        shelve sha256 disk.store.files files ∧
      (collectOutputs sha256 names fs disk outputDir allowed options conn clock).2.temps =
        disk.temps ∧
      ∀ artifacts,
        (collectOutputs sha256 names fs disk outputDir allowed options conn clock).1 =
          .ok artifacts →
        files.map Prod.fst = fs.found outputDir allowed ∧
          List.Forall₂ (fun artifact file => artifact.Describes sha256 options.accessPolicy file)
            artifacts files := by
  rw [collectOutputs]
  cases hdir : fs.resolve outputDir with
  | error exc =>
      refine ⟨[], .nil .., rfl, rfl, ?_⟩
      intro artifacts hok
      cases hok
  | ok resolvedOutputDir =>
      obtain ⟨files, hgathers, hstore, htemps, hdone⟩ :=
        @collectFiles_confined sha256 names fs outputDir resolvedOutputDir options.limits
          options.accessPolicy conn disk 0 0 clock hdir allowed []
      have hless : options.limits.less 0 0 = options.limits := by
        simp only [OutputLimits.less, Int.sub_zero]
      rw [hless] at hgathers
      refine ⟨files, hgathers, hstore, htemps, ?_⟩
      intro artifacts hok
      obtain ⟨hall, added, hadded, hdescribed⟩ := hdone artifacts hok
      rw [hadded, List.nil_append]
      exact ⟨hall, hdescribed⟩

end Collect

end VerifierCI
