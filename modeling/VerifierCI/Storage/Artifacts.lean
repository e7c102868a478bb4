import Mathlib.Data.List.Sort
import VerifierCI.Storage.Schema

/-! # The content-addressed artifact store

Bytes live in one file per digest, their metadata in the `artifacts` table.
Every statement commits on its own: the connection is not in a transaction.
Temporary files leave no trace, and the store's own calls create no links, so
neither appears in the state.
-/

namespace VerifierCI

open Python Relational

def chunkSize : Nat := 64 * 1024

structure ArtifactStore where
  /-- The resolved root directory. -/
  root : String
  /-- The bytes under `root/sha256/xx/xxxx…`. -/
  files : Digest → Option (List UInt8)
  db : Db

namespace ArtifactStore

def row? (store : ArtifactStore) (digest : Digest) : Option ArtifactRow :=
  store.db.artifacts.find? digest.text

/-- `os.replace(temp_path, target_path)`. -/
def writeFile (store : ArtifactStore) (digest : Digest) (content : List UInt8) : ArtifactStore :=
  { store with files := Function.update store.files digest (some content) }

/-- `target_path.unlink()`, which does nothing when the file is missing. -/
def unlink (store : ArtifactStore) (digest : Digest) : ArtifactStore :=
  { store with files := Function.update store.files digest none }

def targetPath (store : ArtifactStore) (digest : Digest) : String :=
  store.root ++ "/sha256/" ++ String.ofList (digest.text.toList.take 2) ++ "/" ++
    String.ofList (digest.text.toList.drop 2)

end ArtifactStore

def ArtifactRow.setAvailable (available : Bool) (row : ArtifactRow) : ArtifactRow :=
  { row with available := available }

@[simp] theorem ArtifactRow.setAvailable_key (available : Bool) (row : ArtifactRow) :
    (row.setAvailable available).key = row.key := rfl

/-- `UPDATE artifacts SET available = ? WHERE digest = ?`. The trigger on core
columns does not fire on it. -/
def Db.setAvailable (db : Db) (digest : Digest) (available : Bool) : Db :=
  { db with
    artifacts := db.artifacts.update (fun row => row.key = digest.text)
      (ArtifactRow.setAvailable available) (ArtifactRow.setAvailable_key available) }

def Artifact.toRow (artifact : Artifact) : ArtifactRow where
  digest := artifact.digest
  kind := artifact.kind
  sizeBytes := artifact.sizeBytes
  storageUri := artifact.storageUri
  mediaType := artifact.mediaType
  accessPolicy := artifact.accessPolicy
  retentionUntil := artifact.retentionUntil
  available := true
  createdAt := artifact.createdAt

/-- Register artifact metadata. On a digest that already has a row only the
availability is written. -/
def registerArtifact (db : Db) (artifact : Artifact) : Except Exc Db := do
  bindInteger (some artifact.sizeBytes)
  if artifact.sizeBytes < 0 then .error .integrityError
  else
    match db.artifacts.insert? artifact.toRow with
    | some artifacts => .ok { db with artifacts := artifacts }
    | none => .ok (db.setAvailable artifact.digest true)

/-- The read loop of `put_stream` over the results of successive reads, with
the bytes and their count so far. An empty read ends the stream. -/
def readStream (maxBytes : Int) (content : List UInt8) (totalBytes : Int) :
    List (List UInt8) → Except Exc (List UInt8 × Int)
  | [] => .ok (content, totalBytes)
  | [] :: _ => .ok (content, totalBytes)
  | chunk :: rest =>
      let totalBytes := totalBytes + chunk.length
      if maxBytes < totalBytes then
        .error (.verifierCI .validationError
          ("Artifact size exceeded limit of " ++ toString maxBytes ++ " bytes (read " ++
            toString totalBytes ++ " bytes).") .artifactLimit)
      else readStream maxBytes (content ++ chunk) totalBytes rest

/-- What a caller says about the bytes it stores. -/
structure PutOptions where
  maxBytes : Int
  kind : String
  accessPolicy : AccessPolicy
  mediaType : String := "application/octet-stream"
  retentionUntil : Option Datetime := none
deriving DecidableEq, Repr

section Put

variable (sha256 : List UInt8 → Digest)

/-- Store a byte stream and register it. The file is in place before the
registration runs, and stays when the registration fails. -/
def putStream (store : ArtifactStore) (stream : List (List UInt8)) (options : PutOptions)
    (now : Datetime) : Except Exc Artifact × ArtifactStore :=
  match readStream options.maxBytes [] 0 stream with
  | .error exc => (.error exc, store)
  | .ok (content, totalBytes) =>
      let digest := sha256 content
      let store := store.writeFile digest content
      let artifact : Artifact :=
        { digest := digest
          kind := options.kind
          sizeBytes := totalBytes
          storageUri := store.targetPath digest
          mediaType := options.mediaType
          accessPolicy := options.accessPolicy
          retentionUntil := options.retentionUntil
          available := true
          createdAt := now }
      match registerArtifact store.db artifact with
      | .error exc => (.error exc, store)
      | .ok db => (.ok artifact, { store with db := db })

/-- The successive reads of `io.BytesIO(data)`. -/
def bytesIoReads : Nat → List UInt8 → List (List UInt8)
  | 0, _ => []
  | fuel + 1, data => data.take chunkSize :: bytesIoReads fuel (data.drop chunkSize)

def putBytes (store : ArtifactStore) (data : List UInt8) (options : PutOptions)
    (now : Datetime) : Except Exc Artifact × ArtifactStore :=
  if options.maxBytes < data.length then
    (.error (.verifierCI .validationError
      ("Artifact size exceeded limit of " ++ toString options.maxBytes ++ " bytes (got " ++
        toString data.length ++ " bytes).") .artifactLimit), store)
  else putStream sha256 store (bytesIoReads (data.length + 1) data) options now

end Put

/-! ## Garbage collection -/

/-- The rows the collector looks at, ordered by digest. -/
def collectableRows (db : Db) : List ArtifactRow :=
  (db.artifacts.select fun row => row.retentionUntil.isSome && row.accessPolicy ≠ .sealed &&
    row.available).insertionSort fun a b => a.key ≤ b.key

/-- A stored retention time as an aware UTC one. It raises on an instant
outside the range of datetimes. -/
def retentionUtc? (retentionUntil : Datetime) : Option Datetime :=
  match retentionUntil.utcoffset with
  | none => some retentionUntil.assumeUtc
  | some _ => retentionUntil.astimezoneUtc?

/-- One expired row: its bytes go, then its availability. -/
def purge (store : ArtifactStore) (digest : Digest) : ArtifactStore :=
  let store := store.unlink digest
  { store with db := store.db.setAvailable digest false }

def collectRows (nowUtc : Datetime) (dryRun : Bool) (store : ArtifactStore)
    (purged : List Digest) : List ArtifactRow → Except Exc (List Digest) × ArtifactStore
  | [] => (.ok purged, store)
  | row :: rest =>
      match row.retentionUntil with
      | none => collectRows nowUtc dryRun store purged rest
      | some retentionUntil =>
          match retentionUtc? retentionUntil with
          | none => (.error .overflowError, store)
          | some retUtc =>
              if retUtc.micros ≤ nowUtc.micros then
                let store := if dryRun then store else purge store row.digest
                collectRows nowUtc dryRun store (purged ++ [row.digest]) rest
              else collectRows nowUtc dryRun store purged rest

/-- Identify and optionally purge expired non-sealed artifacts. -/
def garbageCollect (store : ArtifactStore) (now : Datetime) (dryRun : Bool) :
    Except Exc (List Digest) × ArtifactStore :=
  match now.assumeUtc.astimezoneUtc? with
  | none => (.error .overflowError, store)
  | some nowUtc => collectRows nowUtc dryRun store [] (collectableRows store.db)

end VerifierCI
