import VerifierCI.Storage.ContentAddressed
import VerifierCI.Transition.Threads

/-! # Clients of one store

The calls of the store are not atomic. Between two of their file operations and
statements other processes take theirs, and a process may be killed. A client
is what one process remembers between two of its operations.
-/

namespace VerifierCI

open Python Relational Transition

/-- Where a put stands. The bytes hashed so far are those written so far. -/
inductive PutStage where
  /-- In the read loop, before the next read. -/
  | copying (name : String) (fed : List UInt8) (totalBytes : Int) (reads : List (List UInt8))
  /-- Synchronised and closed, before `os.replace`. -/
  | placing (name : String) (fed : List UInt8) (totalBytes : Int)
  | registering (name : String) (artifact : Artifact)
  /-- In the handler that removes the temporary file. -/
  | failing (name : String) (exc : Exc)

inductive Client where
  | idle
  | putting (call : PutCall) (stage : PutStage)
  | put (call : PutCall) (result : Except Exc Artifact)
  /-- Something stands at the path of the digest. -/
  | opening (digest : Digest)
  /-- The file is open. Whatever happens to its path, these are its bytes. -/
  | verifying (digest : Digest) (content : List UInt8)
  | opened (digest : String) (result : Except Exc (List UInt8))
  | collecting (nowUtc : Datetime) (dryRun : Bool) (purged : List Digest) (rows : List ArtifactRow)
  /-- The bytes are gone, the availability is not yet written. -/
  | marking (digest : Digest) (nowUtc : Datetime) (purged : List Digest) (rows : List ArtifactRow)
  | collected (result : Except Exc (List Digest))
  /-- Killed, with the temporary file it leaves behind. -/
  | killed (left : Option String)

/-- What a client does next: begin a call, go on with the one it is in, or die. -/
inductive ClientAction where
  /-- `name` is what `tempfile.mkstemp` chooses. -/
  | put (call : PutCall) (name : String)
  | openVerified (digest : String)
  | garbageCollect (now : Datetime) (dryRun : Bool)
  /-- `refusal` is the text of the error an `os.open` may raise. -/
  | proceed (refusal : String)
  | kill

section Steps

variable (sha256 : List UInt8 → Digest)

/-- `put_bytes` and `put_stream`, up to `mkstemp`. -/
def PutCall.begin (call : PutCall) (disk : StoreDisk) (name : String) : StoreDisk × Client :=
  match call.source with
  | .bytes data =>
      if call.options.maxBytes < data.length then
        (disk, .put call (.error (.verifierCI .validationError
          ("Artifact size exceeded limit of " ++ toString call.options.maxBytes ++
            " bytes (got " ++ toString data.length ++ " bytes).") .artifactLimit)))
      else
        (disk.createTemp name,
          .putting call (.copying name [] 0 (bytesIoReads (data.length + 1) data)))
  | .stream chunks _ => (disk.createTemp name, .putting call (.copying name [] 0 chunks))

/-- One read of the loop, and what is done with the chunk. -/
def PutCall.copy (call : PutCall) (disk : StoreDisk) (name : String) (fed : List UInt8)
    (totalBytes : Int) : List (List UInt8) → StoreDisk × Client
  | [] => (disk, .putting call (.placing name fed totalBytes))
  | [] :: _ => (disk, .putting call (.placing name fed totalBytes))
  | chunk :: rest =>
      let totalBytes := totalBytes + chunk.length
      if call.options.maxBytes < totalBytes then
        (disk, .putting call (.failing name (.verifierCI .validationError
          ("Artifact size exceeded limit of " ++ toString call.options.maxBytes ++
            " bytes (read " ++ toString totalBytes ++ " bytes).") .artifactLimit)))
      else
        (disk.appendTemp name chunk, .putting call (.copying name (fed ++ chunk) totalBytes rest))

def PutCall.proceed (call : PutCall) (disk : StoreDisk) : PutStage → StoreDisk × Client
  | .copying name fed totalBytes reads => call.copy disk name fed totalBytes reads
  | .placing name fed totalBytes =>
      match disk.temps.lookup name with
      | none => (disk, .putting call (.failing name .osError))
      | some _ =>
          let disk := disk.replaceTemp name (sha256 fed)
          (disk, .putting call (.registering name
            (storedArtifact disk.store (sha256 fed) totalBytes call.options call.now)))
  | .registering name artifact =>
      match disk.registerOn call.conn artifact with
      | (.error exc, disk) => (disk, .putting call (.failing name exc))
      | (.ok artifact, disk) => (disk, .put call (.ok artifact))
  | .failing name exc => (disk.unlinkTemp name, .put call (.error exc))

/-- Up to the check that something is there. -/
def Client.beginOpen (digest : String) (disk : StoreDisk) : Client :=
  match validateDigest digest with
  | .error exc => .opened digest (.error exc)
  | .ok digest =>
      match disk.store.stored digest with
      | .regular _ => .opening digest
      | found => .opened digest.text
          (openStored sha256 digest (disk.store.targetPath digest) found)

/-- `os.open`, which is refused if the file went away. -/
def Client.open (digest : Digest) (refusal : String) (disk : StoreDisk) : Client :=
  match disk.store.stored digest with
  | .regular content => .verifying digest content
  | _ => .opened digest.text (raiseWith .protectionError
      ("Failed to open artifact '" ++ digest.text ++ "': " ++ refusal))

/-- The checksum of the open file. -/
def Client.verify (digest : Digest) (content : List UInt8) (disk : StoreDisk) : Client :=
  .opened digest.text
    (openStored sha256 digest (disk.store.targetPath digest) (.regular content))

def Client.beginCollect (now : Datetime) (dryRun : Bool) (disk : StoreDisk) : Client :=
  match now.assumeUtc.astimezoneUtc? with
  | none => .collected (.error .overflowError)
  | some nowUtc => .collecting nowUtc dryRun [] (collectableRows disk.store.db)

/-- The next row, up to the unlinking of its bytes. -/
def Client.collect (nowUtc : Datetime) (dryRun : Bool) (purged : List Digest) (disk : StoreDisk) :
    List ArtifactRow → StoreDisk × Client
  | [] => (disk, .collected (.ok purged))
  | row :: rest =>
      match row.retentionUntil with
      | none => (disk, .collecting nowUtc dryRun purged rest)
      | some retentionUntil =>
          match retentionUtc? retentionUntil with
          | none => (disk, .collected (.error .overflowError))
          | some retUtc =>
              if retUtc.micros ≤ nowUtc.micros then
                if dryRun then (disk, .collecting nowUtc dryRun (purged ++ [row.digest]) rest)
                else ({ disk with store := disk.store.unlink row.digest },
                  .marking row.digest nowUtc purged rest)
              else (disk, .collecting nowUtc dryRun purged rest)

/-- `UPDATE artifacts SET available = 0 WHERE digest = ?`. -/
def StoreDisk.setUnavailable (disk : StoreDisk) (digest : Digest) : StoreDisk :=
  { disk with store := { disk.store with db := disk.store.db.setAvailable digest false } }

/-- The temporary file of a put that is under way. -/
def Client.name? : Client → Option String
  | .putting _ (.copying name _ _ _) => some name
  | .putting _ (.placing name _ _) => some name
  | .putting _ (.registering name _) => some name
  | .putting _ (.failing name _) => some name
  | _ => none

/-- The temporary file a killed put has left behind. -/
def Client.left? : Client → Option String
  | .killed left => left
  | _ => none

def Client.ready : Client → Bool
  | .idle => true
  | .put _ _ => true
  | .opened _ _ => true
  | .collected _ => true
  | _ => false

def Client.proceed (disk : StoreDisk) (refusal : String) : Client → StoreDisk × Client
  | .putting call stage => call.proceed sha256 disk stage
  | .opening digest => (disk, Client.open digest refusal disk)
  | .verifying digest content => (disk, Client.verify sha256 digest content disk)
  | .collecting nowUtc dryRun purged rows => Client.collect nowUtc dryRun purged disk rows
  | .marking digest nowUtc purged rows =>
      (disk.setUnavailable digest, .collecting nowUtc false (purged ++ [digest]) rows)
  | client => (disk, client)

def Client.act (action : ClientAction) (disk : StoreDisk) (client : Client) : StoreDisk × Client :=
  match action with
  | .put call name => if client.ready then call.begin disk name else (disk, client)
  | .openVerified digest =>
      if client.ready then (disk, Client.beginOpen sha256 digest disk) else (disk, client)
  | .garbageCollect now dryRun =>
      if client.ready then (disk, Client.beginCollect now dryRun disk) else (disk, client)
  | .proceed refusal => client.proceed sha256 disk refusal
  | .kill => (disk, .killed (client.name?.or client.left?))

end Steps

/-- Any number of processes on one store. -/
abbrev StoreClients (ι : Type) := Threads ι StoreDisk Client

/-- What a step does to the bytes under the digests. -/
inductive ShelfEvent where
  | put (content : List UInt8)
  /-- By a collection that takes it to be `nowUtc`. -/
  | drop (digest : Digest) (nowUtc : Datetime)

def Shelf.step (sha256 : List UInt8 → Digest) (shelf : Shelf) : ShelfEvent → Shelf
  | .put content => Function.update shelf (sha256 content) (some content)
  | .drop digest _ => Function.update shelf digest none

/-- The row's retention time is over. -/
def ArtifactRow.expired (nowUtc : Datetime) (row : ArtifactRow) : Bool :=
  (row.retentionUntil.bind retentionUtc?).any fun retUtc => retUtc.micros ≤ nowUtc.micros

/-- The operation by which a put or a collection takes effect: the replacement of the file,
or the unlinking of a row's bytes. -/
def Client.effect (action : ClientAction) (disk : StoreDisk) (client : Client) :
    Option ShelfEvent :=
  match action, client with
  | .proceed _, .putting _ (.placing name _ _) => (disk.temps.lookup name).map .put
  | .proceed _, .collecting nowUtc false _ (row :: _) =>
      if row.expired nowUtc then some (.drop row.digest nowUtc) else none
  | _, _ => none

section System

variable {ι : Type} [DecidableEq ι] (sha256 : List UInt8 → Digest)

def StoreClients.step (clients : StoreClients ι) (event : ι × ClientAction) : StoreClients ι :=
  Threads.step (Client.act sha256) clients event

def StoreClients.effect (clients : StoreClients ι) (event : ι × ClientAction) :
    Option ShelfEvent :=
  (clients.thread event.1).effect event.2 clients.shared

/-- `mkstemp` creates a file that was not there, under a name no put under way holds. -/
def StoreClients.Draws (clients : StoreClients ι) (event : ι × ClientAction) : Prop :=
  ∀ call name, event.2 = .put call name →
    clients.shared.temps.lookup name = none ∧ ∀ i, (clients.thread i).name? ≠ some name

def StoreClients.start (ι : Type) (disk : StoreDisk) : StoreClients ι where
  shared := disk
  thread _ := .idle

end System

end VerifierCI
