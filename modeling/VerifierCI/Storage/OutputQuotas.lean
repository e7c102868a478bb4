import VerifierCI.Python.Paths
import VerifierCI.Storage.ContentAddressed

/-! # Quotas on collected outputs

What an execution leaves in its output directory is collected under three limits: on one
file, on all of them together, and on how many there are. The loop compares running totals,
and passes the store the smaller of what a file and what the collection may still take.
-/

namespace VerifierCI

open Python Custody

/-- The file system an execution wrote to. -/
structure OutputSystem extends FileSystem where
  /-- `path.exists()`. -/
  pathExists? : PyPath → Option Bool
  /-- A size is a signed 64-bit count. -/
  size_le : ∀ path, (size path : Int) ≤ maxInteger

/-- The limits of a `SandboxPolicy` on what is collected. -/
structure SandboxPolicy where
  artifactBytes : Int
  streamBytes : Int
  artifactFiles : Int
deriving DecidableEq, Repr

/-- The keyword arguments of `collect_outputs`. -/
structure CollectOptions where
  maxBytes : Option Int := none
  policy : Option SandboxPolicy := none
  maxAggregateBytes : Option Int := none
  maxFiles : Option Int := none
  accessPolicy : AccessPolicy := .restricted

structure OutputLimits where
  stream : Int
  aggregate : Int
  files : Int
deriving DecidableEq, Repr

def CollectOptions.limits (options : CollectOptions) : OutputLimits :=
  match options.policy with
  | some policy =>
      { stream := policy.streamBytes
        aggregate := policy.artifactBytes
        files := policy.artifactFiles }
  | none =>
      let stream := options.maxBytes.getD (16 * 1024 * 1024)
      { stream := stream
        aggregate := options.maxAggregateBytes.getD (max (16 * 1024 * 1024) stream)
        files := options.maxFiles.getD 64 }

/-- The media type and the kind a path suggests. -/
def inferMedia (path : PyPath) : String × String :=
  let suffix := String.ofList (lower (suffix path.name.toList))
  let name := lower path.name.toList
  if suffix = ".json" then
    ("application/json", if contains "report".toList name then "report" else "evidence")
  else if suffix = ".txt" ∨ suffix = ".log" then
    ("text/plain",
      if contains "stdout".toList name then "stdout"
      else if contains "stderr".toList name then "stderr" else "evidence")
  else if suffix = ".diff" ∨ suffix = ".patch" then ("text/x-diff", "diff")
  else ("application/octet-stream", "evidence")

namespace OutputSystem

variable (fs : OutputSystem)

/-- The walk from a path up to the output directory, over the parts of the path from the
last one on. -/
def symlinkAbove (outputDir : PyPath) (root : String) : List String → Except Exc Bool
  | [] => .ok false
  | part :: above =>
      let cur : PyPath := ⟨root, (part :: above).reverse⟩
      if cur = outputDir then .ok false
      else do
        let symlink ← answered (fs.isSymlink? cur)
        if symlink then .ok true else symlinkAbove outputDir root above

def locate (outputDir resolvedOutputDir : PyPath) (relPath : String) :
    Except Exc (Option PyPath) := do
  let path := outputDir.join relPath
  let symlink ← answered (fs.isSymlink? path)
  if symlink then
    raiseWith .protectionError ("Symlink rejected in output collection: " ++ relPath)
  else
    match fs.resolve path with
    | .error _ => raiseWith .protectionError ("Invalid output path: " ++ relPath)
    | .ok resolved =>
        if resolved.isRelativeTo resolvedOutputDir = false then
          raiseWith .protectionError ("Path traversal rejected in output collection: " ++ relPath)
        else do
          let above ← fs.symlinkAbove outputDir path.root path.parts.reverse
          if above then
            raiseWith .protectionError
              ("Intermediate symlink rejected in output collection: " ++ relPath)
          else do
            let present ← answered (fs.pathExists? path)
            if present = false then .ok none
            else do
              let file ← answered (fs.isFile? path)
              if file = false then
                raiseWith .protectionError ("Output path is not a regular file: " ++ relPath)
              else .ok (some path)

end OutputSystem

section Collect

variable (sha256 : List UInt8 → Digest) (names : TempNames) (fs : OutputSystem)

/-- Store one output file, under what the limits leave for it. -/
def collectFile (limits : OutputLimits) (accessPolicy : AccessPolicy) (conn : Bool)
    (now : Datetime) (disk : StoreDisk) (totalBytes : Int) (path : PyPath) :
    Except Exc Artifact × StoreDisk :=
  match fs.readBytes? path with
  | none => (.error .osError, disk)
  | some content =>
      disk.putStream sha256 names conn (bytesIoReads (content.length + 1) content)
        { maxBytes := min limits.stream (limits.aggregate - totalBytes)
          kind := (inferMedia path).2
          accessPolicy := accessPolicy
          mediaType := (inferMedia path).1 } now

/-- The loop over the allowed paths, with what has been collected, its bytes and the number
of its files. -/
def collectFiles (outputDir resolvedOutputDir : PyPath) (limits : OutputLimits)
    (accessPolicy : AccessPolicy) (conn : Bool) (clock : Nat → Datetime) (disk : StoreDisk)
    (collected : List Artifact) (totalBytes filesCount : Int) :
    List String → Except Exc (List Artifact) × StoreDisk
  | [] => (.ok collected, disk)
  | relPath :: rest =>
      match fs.locate outputDir resolvedOutputDir relPath with
      | .error exc => (.error exc, disk)
      | .ok none =>
          collectFiles outputDir resolvedOutputDir limits accessPolicy conn clock disk collected
            totalBytes filesCount rest
      | .ok (some path) =>
          let filesCount := filesCount + 1
          if limits.files < filesCount then
            (.error (.verifierCI .validationError
              ("Collected file count exceeded limit of " ++ toString limits.files ++ " files.")
              .artifactLimit), disk)
          else if limits.aggregate < totalBytes + fs.size path then
            (.error (.verifierCI .validationError
              ("Aggregate artifact size exceeded limit of " ++ toString limits.aggregate ++
                " bytes (current " ++ toString totalBytes ++ " bytes, next file " ++
                  toString (fs.size path) ++ " bytes).") .artifactLimit), disk)
          else
            match collectFile sha256 names fs limits accessPolicy conn (clock collected.length)
                disk totalBytes path with
            | (.error exc, disk) => (.error exc, disk)
            | (.ok artifact, disk) =>
                collectFiles outputDir resolvedOutputDir limits accessPolicy conn clock disk
                  (collected ++ [artifact]) (totalBytes + artifact.sizeBytes) filesCount rest

/-- `collect_outputs(output_dir, allowed, store_root, …)`. -/
def collectOutputs (disk : StoreDisk) (outputDir : PyPath) (allowed : List String)
    (options : CollectOptions) (conn : Bool) (clock : Nat → Datetime) :
    Except Exc (List Artifact) × StoreDisk :=
  match fs.resolve outputDir with
  | .error _ => (.error .valueError, disk)
  | .ok resolvedOutputDir =>
      collectFiles sha256 names fs outputDir resolvedOutputDir options.limits
        options.accessPolicy conn clock disk [] 0 0 allowed

end Collect

/-! ## What fits -/

namespace OutputLimits

/-- Files that keep all three limits. -/
structure Admit (limits : OutputLimits) (contents : List (List UInt8)) : Prop where
  files : (contents.length : Int) ≤ limits.files
  aggregate : ((contents.map List.length).sum : Int) ≤ limits.aggregate
  stream : ∀ content ∈ contents, (content.length : Int) ≤ limits.stream

def less (limits : OutputLimits) (totalBytes filesCount : Int) : OutputLimits where
  stream := limits.stream
  aggregate := limits.aggregate - totalBytes
  files := limits.files - filesCount

variable {limits : OutputLimits} {content : List UInt8} {contents : List (List UInt8)}

/-- A file is admitted if it fits the stream limit and the rest fits what it leaves of the
others. -/
theorem admit_cons : limits.Admit (content :: contents) ↔
    (content.length : Int) ≤ limits.stream ∧ (limits.less content.length 1).Admit contents := by
  constructor
  · intro h
    have hfiles := h.files
    have haggregate := h.aggregate
    rw [List.length_cons] at hfiles
    rw [List.map_cons, List.sum_cons] at haggregate
    refine ⟨h.stream content List.mem_cons_self, ?_, ?_, fun other hother => ?_⟩
    · simp only [less]
      omega
    · simp only [less]
      omega
    · exact h.stream other (List.mem_cons_of_mem content hother)
  · rintro ⟨hstream, h⟩
    have hfiles := h.files
    have haggregate := h.aggregate
    simp only [less] at hfiles haggregate
    constructor
    · rw [List.length_cons]
      omega
    · rw [List.map_cons, List.sum_cons]
      omega
    · intro other hother
      rcases List.mem_cons.mp hother with rfl | hother
      · exact hstream
      · exact h.stream other hother

theorem less_less (totalBytes filesCount more : Int) :
    (limits.less totalBytes filesCount).less more 1 =
      limits.less (totalBytes + more) (filesCount + 1) := by
  simp only [less, Int.sub_sub]

/-- Fewer files keep what more of them keep. -/
theorem Admit.nil (h : limits.Admit contents) : limits.Admit [] where
  files := le_trans (Int.natCast_nonneg _) h.files
  aggregate := le_trans (Int.natCast_nonneg _) h.aggregate
  stream _ hother := nomatch hother

end OutputLimits

/-! ## Directories of regular files -/

def pathUnder (outputDir : PyPath) (parts : List String) : PyPath :=
  { outputDir with parts := outputDir.parts ++ parts }

/-- A relative name of something under the directory it is joined to. -/
structure IsOutputName (relPath : String) : Prop where
  relative : (PyPath.parse relPath).root = ""
  inner : (PyPath.parse relPath).parts ≠ []

/-- The output directory has no links, and the allowed names stay inside of it and name
regular files with the given bytes, or nothing. -/
structure RegularOutputs (fs : OutputSystem) (outputDir : PyPath) (allowed : List String)
    (files : List String → Option (List UInt8)) : Prop where
  names : ∀ relPath ∈ allowed, IsOutputName relPath
  links : ∀ parts, parts ≠ [] → fs.isSymlink? (pathUnder outputDir parts) = some false
  inside : ∃ resolvedOutputDir, fs.resolve outputDir = .ok resolvedOutputDir ∧
    ∀ relPath ∈ allowed, ∃ resolved, fs.resolve (outputDir.join relPath) = .ok resolved ∧
      resolved.isRelativeTo resolvedOutputDir = true
  missing : ∀ relPath ∈ allowed, files (PyPath.parse relPath).parts = none →
    fs.pathExists? (outputDir.join relPath) = some false
  regular : ∀ relPath ∈ allowed, ∀ content, files (PyPath.parse relPath).parts = some content →
    fs.pathExists? (outputDir.join relPath) = some true ∧
      fs.isFile? (outputDir.join relPath) = some true ∧
        fs.size (outputDir.join relPath) = content.length ∧
        fs.readBytes? (outputDir.join relPath) = some content

def existing (files : List String → Option (List UInt8)) (allowed : List String) :
    List (List UInt8) :=
  allowed.filterMap fun relPath => files (PyPath.parse relPath).parts

theorem join_eq {outputDir : PyPath} {relPath : String} (hname : IsOutputName relPath) :
    outputDir.join relPath = pathUnder outputDir (PyPath.parse relPath).parts := by
  rw [PyPath.join, if_pos hname.relative, pathUnder]

/-- The walk up meets the directory before anything above it. -/
theorem symlinkAbove_eq_false {fs : OutputSystem} {outputDir : PyPath}
    (hlinks : ∀ parts, parts ≠ [] → fs.isSymlink? (pathUnder outputDir parts) = some false)
    (parts : List String) : fs.symlinkAbove outputDir outputDir.root
      (pathUnder outputDir parts).parts.reverse = .ok false := by
  induction parts using List.reverseRecOn with
  | nil =>
      rw [pathUnder, List.append_nil]
      cases hparts : outputDir.parts.reverse with
      | nil => rfl
      | cons part above =>
          rw [OutputSystem.symlinkAbove, ← hparts, List.reverse_reverse, if_pos rfl]
  | append_singleton parts part ih =>
      have hreverse : (pathUnder outputDir (parts ++ [part])).parts.reverse =
          part :: (pathUnder outputDir parts).parts.reverse := by
        simp [pathUnder]
      have hcur : (⟨outputDir.root, (part :: (pathUnder outputDir parts).parts.reverse).reverse⟩ :
          PyPath) = pathUnder outputDir (parts ++ [part]) := by
        rw [← hreverse, List.reverse_reverse]
        rfl
      rw [hreverse, OutputSystem.symlinkAbove, hcur, hlinks _ (by simp)]
      split
      · rfl
      · exact ih

section Exact

variable {sha256 : List UInt8 → Digest} {names : TempNames} {fs : OutputSystem}
  {outputDir resolvedOutputDir : PyPath} {allowed : List String}
  {files : List String → Option (List UInt8)}

/-- An allowed name passes the checks, and is found if it exists. Its path resolves below the
output directory, as the directory is regular. -/
theorem locate_eq {relPath : String} (h : RegularOutputs fs outputDir allowed files)
    (hresolve : fs.resolve outputDir = .ok resolvedOutputDir) (hmem : relPath ∈ allowed) :
    fs.locate outputDir resolvedOutputDir relPath =
      .ok ((files (PyPath.parse relPath).parts).map fun _ => outputDir.join relPath) := by
  have hname := h.names relPath hmem
  have hlink : fs.isSymlink? (outputDir.join relPath) = some false := by
    rw [join_eq hname]
    exact h.links _ hname.inner
  have habove : fs.symlinkAbove outputDir (outputDir.join relPath).root
      (outputDir.join relPath).parts.reverse = .ok false := by
    rw [join_eq hname]
    exact symlinkAbove_eq_false h.links _
  obtain ⟨resolvedDir, hdir, hinside⟩ := h.inside
  obtain rfl : resolvedDir = resolvedOutputDir := Except.ok.inj (hdir.symm.trans hresolve)
  obtain ⟨resolved, hpath, hrelative⟩ := hinside relPath hmem
  rw [OutputSystem.locate]
  refine bind_eq_ok.mpr ⟨false, by rw [hlink]; rfl, ?_⟩
  simp only [hpath, hrelative, Bool.false_eq_true, Bool.true_eq_false, if_false]
  refine bind_eq_ok.mpr ⟨false, habove, ?_⟩
  cases hfile : files (PyPath.parse relPath).parts with
  | none =>
      rw [h.missing relPath hmem hfile]
      rfl
  | some content =>
      obtain ⟨hexists, hregular, _⟩ := h.regular relPath hmem content hfile
      rw [hexists, hregular]
      rfl

variable {limits : OutputLimits} {accessPolicy : AccessPolicy} {conn : Bool} {now : Datetime}
  {disk : StoreDisk} {totalBytes filesCount : Int}

/-- A file within what a file may take and what is left is stored, any other is refused. -/
theorem collectFile_cases {path : PyPath} {content : List UInt8}
    (hread : fs.readBytes? path = some content) (hsize : fs.size path = content.length)
    (hstream : 0 ≤ limits.stream) (htotal : totalBytes ≤ limits.aggregate) :
    (((content.length : Int) ≤ limits.stream ∧ totalBytes + content.length ≤ limits.aggregate) ∧
      ∃ artifact disk', collectFile sha256 names fs limits accessPolicy conn now disk totalBytes
          path = (.ok artifact, disk') ∧
        artifact.digest = sha256 content ∧ artifact.sizeBytes = content.length) ∨
    (¬ ((content.length : Int) ≤ limits.stream ∧
        totalBytes + content.length ≤ limits.aggregate) ∧
      ∃ message disk', collectFile sha256 names fs limits accessPolicy conn now disk totalBytes
        path = (.error (.verifierCI .validationError message .artifactLimit), disk')) := by
  have hleft : (content.length : Int) ≤ min limits.stream (limits.aggregate - totalBytes) ↔
      (content.length : Int) ≤ limits.stream ∧
        totalBytes + content.length ≤ limits.aggregate := by
    rw [le_min_iff]
    omega
  rw [← hleft, collectFile, hread]
  dsimp only
  rcases @StoreDisk.putStream_cases sha256 names disk conn
      (bytesIoReads (content.length + 1) content)
      { maxBytes := min limits.stream (limits.aggregate - totalBytes)
        kind := (inferMedia path).2
        accessPolicy := accessPolicy
        mediaType := (inferMedia path).1 } now with ⟨hfits, hput⟩ | ⟨⟨_, hover⟩, message, hput⟩
  · rw [streamed_bytesIoReads (Nat.lt_succ_self content.length)] at hfits hput
    refine Or.inl ⟨?_, ?_⟩
    · rcases hfits with hnil | hfits
      · rw [hnil, List.length_nil, le_min_iff]
        simp only [Int.natCast_zero]
        omega
      · exact hfits
    · rw [hput]
      have hregister := @StoreDisk.registerOn_ok_iff
        ⟨disk.store.writeFile (sha256 content) content, disk.temps⟩ conn
        (storedArtifact (disk.store.writeFile (sha256 content) content) (sha256 content)
          content.length
          { maxBytes := min limits.stream (limits.aggregate - totalBytes)
            kind := (inferMedia path).2
            accessPolicy := accessPolicy
            mediaType := (inferMedia path).1 } now) (Int.natCast_nonneg _)
      have hcolumn : (content.length : Int) ≤ maxInteger := by
        rw [← hsize]
        exact fs.size_le path
      obtain ⟨artifact, hartifact⟩ := hregister.mpr fun _ => hcolumn
      refine ⟨artifact, _, Prod.ext hartifact rfl, ?_⟩
      rw [StoreDisk.registerOn_ok hartifact]
      exact ⟨rfl, rfl⟩
  · rw [streamed_bytesIoReads (Nat.lt_succ_self content.length)] at hover
    exact Or.inr ⟨not_le.mpr hover, message, _, hput⟩

def summary (artifact : Artifact) : Digest × Int :=
  (artifact.digest, artifact.sizeBytes)

/-- The loop collects what fits in what is left of the limits. By induction on the allowed
names; a file that is missing counts for nothing. -/
theorem collectFiles_cases {clock : Nat → Datetime}
    (h : RegularOutputs fs outputDir allowed files)
    (hresolve : fs.resolve outputDir = .ok resolvedOutputDir) (hstream : 0 ≤ limits.stream)
    (rest : List String) (hrest : ∀ relPath ∈ rest, relPath ∈ allowed)
    (collected : List Artifact) (hleft : (limits.less totalBytes filesCount).Admit []) :
    ((limits.less totalBytes filesCount).Admit (existing files rest) ∧
      ∃ artifacts, (collectFiles sha256 names fs outputDir resolvedOutputDir limits accessPolicy
          conn clock disk collected totalBytes filesCount rest).1 =
            .ok (collected ++ artifacts) ∧
        artifacts.map summary = (existing files rest).map fun content =>
          (sha256 content, (content.length : Int))) ∨
    (¬ (limits.less totalBytes filesCount).Admit (existing files rest) ∧
      ∃ message, (collectFiles sha256 names fs outputDir resolvedOutputDir limits accessPolicy
          conn clock disk collected totalBytes filesCount rest).1 =
        .error (.verifierCI .validationError message .artifactLimit)) := by
  induction rest generalizing disk collected totalBytes filesCount with
  | nil => exact Or.inl ⟨hleft, [], by rw [collectFiles, List.append_nil], rfl⟩
  | cons relPath rest ih =>
      have hmem := hrest relPath List.mem_cons_self
      have hrest : ∀ relPath ∈ rest, relPath ∈ allowed := fun other hother =>
        hrest other (List.mem_cons_of_mem relPath hother)
      rw [collectFiles, locate_eq h hresolve hmem, existing, List.filterMap_cons]
      cases hfile : files (PyPath.parse relPath).parts with
      | none => exact ih hrest collected hleft
      | some content =>
          obtain ⟨_, _, hsize, hread⟩ := h.regular relPath hmem content hfile
          have hfiles := hleft.files
          have haggregate := hleft.aggregate
          simp only [OutputLimits.less, List.length_nil, List.map_nil, List.sum_nil,
            Int.natCast_zero] at hfiles haggregate
          simp only [Option.map_some, hsize]
          rw [OutputLimits.admit_cons, OutputLimits.less_less]
          -- The limits are compared in the order of the source, and a file that passes lowers them.
          by_cases hcount : limits.files < filesCount + 1
          · rw [if_pos hcount]
            refine Or.inr ⟨fun hwithin => ?_, _, rfl⟩
            have hone := hwithin.2.nil.files
            simp only [OutputLimits.less, List.length_nil] at hone
            omega
          · rw [if_neg hcount]
            by_cases hover : limits.aggregate < totalBytes + content.length
            · rw [if_pos hover]
              refine Or.inr ⟨fun hwithin => ?_, _, rfl⟩
              have htotal := hwithin.2.nil.aggregate
              simp only [OutputLimits.less, List.map_nil, List.sum_nil] at htotal
              omega
            · rw [if_neg hover]
              rcases @collectFile_cases sha256 names fs limits accessPolicy conn
                  (clock collected.length) disk totalBytes _ content hread hsize hstream
                  (by omega) with
                ⟨⟨hsmall, _⟩, artifact, disk', hput, hdigest, hbytes⟩ |
                ⟨hlarge, message, disk', hput⟩
              · rw [hput]
                simp only [hbytes]
                have hnext : (limits.less (totalBytes + content.length) (filesCount + 1)).Admit
                    [] := by
                  constructor
                  · simp only [OutputLimits.less, List.length_nil]
                    omega
                  · simp only [OutputLimits.less, List.map_nil, List.sum_nil]
                    omega
                  · exact fun other hother => nomatch hother
                rcases @ih disk' _ _ hrest (collected ++ [artifact]) hnext with
                  ⟨hwithin, artifacts, hresult, hsummary⟩ | ⟨hrefuse, message, hresult⟩
                · refine Or.inl ⟨⟨hsmall, hwithin⟩, artifact :: artifacts, ?_, ?_⟩
                  · rw [hresult, List.append_assoc, List.singleton_append]
                  · rw [List.map_cons, List.map_cons, summary, hdigest, hbytes, hsummary]
                    rfl
                · exact Or.inr ⟨fun hwithin => hrefuse hwithin.2, message, hresult⟩
              · rw [hput]
                refine Or.inr ⟨fun hwithin => hlarge ⟨hwithin.1, not_lt.mp hover⟩, message, rfl⟩

/-- Collecting succeeds exactly within the limits, with every file that exists in order; beyond
a limit it fails with the error of that limit. -/
theorem collectOutputs_exact {options : CollectOptions} {clock : Nat → Datetime}
    (h : RegularOutputs fs outputDir allowed files) (hstream : 0 ≤ options.limits.stream)
    (haggregate : 0 ≤ options.limits.aggregate) (hfiles : 0 ≤ options.limits.files) :
    ((∃ artifacts, (collectOutputs sha256 names fs disk outputDir allowed options conn clock).1 =
        .ok artifacts) ↔ options.limits.Admit (existing files allowed)) ∧
      (∀ artifacts, (collectOutputs sha256 names fs disk outputDir allowed options conn clock).1 =
          .ok artifacts → artifacts.map summary = (existing files allowed).map fun content =>
        (sha256 content, (content.length : Int))) ∧
      ∀ exc, (collectOutputs sha256 names fs disk outputDir allowed options conn clock).1 =
          .error exc → ∃ message, exc = .verifierCI .validationError message .artifactLimit := by
  obtain ⟨resolvedDir, hdir, _⟩ := h.inside
  rw [collectOutputs, hdir]
  dsimp only
  have hless : options.limits.less 0 0 = options.limits := by
    simp only [OutputLimits.less, Int.sub_zero]
  have hnone : (options.limits.less 0 0).Admit [] := by
    rw [hless]
    exact ⟨hfiles, haggregate, fun other hother => nomatch hother⟩
  have hcases := @collectFiles_cases sha256 names fs outputDir resolvedDir allowed files
    options.limits options.accessPolicy conn disk 0 0 clock h hdir hstream allowed
    (fun _ hmem => hmem) [] hnone
  rw [hless] at hcases
  rcases hcases with ⟨hwithin, artifacts, hresult, hsummary⟩ | ⟨hrefuse, message, hresult⟩
  · rw [hresult]
    refine ⟨iff_of_true ⟨_, rfl⟩ hwithin, ?_, fun exc hexc => nomatch hexc⟩
    intro found hfound
    rw [← Except.ok.inj hfound, List.nil_append]
    exact hsummary
  · rw [hresult]
    refine ⟨iff_of_false (by simp) hrefuse, by simp, ?_⟩
    intro exc hexc
    exact ⟨message, (Except.error.inj hexc).symm⟩

end Exact

/-! ## A small collection -/

def reportPath : PyPath := ⟨"/", ["out", "report.json"]⟩

def smallOutputs : OutputSystem where
  isFile? path := some (decide (path = reportPath))
  isDir? path := some (decide (path = ⟨"/", ["out"]⟩))
  isSymlink? _ := some false
  size path := if path = reportPath then 3 else 0
  readBytes? path := if path = reportPath then some abc else none
  resolve path := .ok path
  rglob? _ := some [reportPath]
  pathExists? path := some (decide (path = reportPath ∨ path = ⟨"/", ["out"]⟩))
  size_le path := by split <;> decide

def reportOnly (parts : List String) : Option (List UInt8) :=
  if parts = ["report.json"] then some abc else none

def smallAllowed : List String := ["report.json", "stdout.txt", "report.json"]

theorem smallAllowed_cases {relPath : String} (hmem : relPath ∈ smallAllowed) :
    relPath = "report.json" ∨ relPath = "stdout.txt" := by
  simp only [smallAllowed, List.mem_cons, List.not_mem_nil, or_false] at hmem
  rcases hmem with h | h | h
  · exact Or.inl h
  · exact Or.inr h
  · exact Or.inl h

theorem smallOutputs_regular :
    RegularOutputs smallOutputs ⟨"/", ["out"]⟩ smallAllowed reportOnly where
  names relPath hmem := by
    rcases smallAllowed_cases hmem with rfl | rfl <;> exact ⟨by decide, by decide⟩
  links _ _ := rfl
  inside := by
    refine ⟨_, rfl, fun relPath hmem => ⟨_, rfl, ?_⟩⟩
    rcases smallAllowed_cases hmem with rfl | rfl <;> decide
  missing relPath hmem hfile := by
    rcases smallAllowed_cases hmem with rfl | rfl
    · exact absurd hfile (by decide)
    · decide
  regular relPath hmem content hfile := by
    rcases smallAllowed_cases hmem with rfl | rfl
    · obtain rfl : abc = content := Option.some.inj (Eq.trans (by decide) hfile)
      decide
    · exact absurd (Eq.trans (Eq.symm (by decide)) hfile) (Option.some_ne_none content).symm

/-- The one report is collected as often as it is allowed, and the log is missing. -/
theorem collectOutputs_small : ∃ artifacts,
    (collectOutputs (fun _ => abcDigest) longNames smallOutputs (.empty "/store" emptyStore.db)
      ⟨"/", ["out"]⟩ smallAllowed { maxBytes := some 3 } true fun _ => epoch).1 = .ok artifacts ∧
        artifacts.map summary = [(abcDigest, 3), (abcDigest, 3)] := by
  obtain ⟨hsucceeds, hreturns, _⟩ := @collectOutputs_exact (fun _ => abcDigest) longNames
    smallOutputs ⟨"/", ["out"]⟩ smallAllowed reportOnly true (.empty "/store" emptyStore.db)
    { maxBytes := some 3 } (fun _ => epoch) smallOutputs_regular (by decide) (by decide)
    (by decide)
  obtain ⟨artifacts, hartifacts⟩ := hsucceeds.mpr ⟨by decide, by decide, by decide⟩
  exact ⟨artifacts, hartifacts, hreturns artifacts hartifacts⟩

end VerifierCI
