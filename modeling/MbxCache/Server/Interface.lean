import MbxCache.Concurrent.Pool
import MbxCache.Metadata.Store

/-! What handlers await: storage, metadata, the spool and local disk. -/

namespace MbxCache

open Concurrent

inductive Op
  /-- Creating, writing or flushing a spool file. -/
  | localIo
  /-- Permits of the upload spool. -/
  | acquire (permits : Nat)
  | get (digest : Digest)
  | put (digest : Digest) (bytes : Bytes)
  | visibleBlobs (ns : String) (digests : List Digest)
  | registerBlob (ns : String) (digest : Digest) (stored : PutOutcome)
  | forgetBlob (ns : String) (digest : Digest)
  | getResult (ns : String) (action : Digest)
  | getBatch (ns : String) (actions : List Digest)
  | commit (ns : String) (action : Digest) (result : ActionResult)
  | resolve (ns : String) (action : Digest) (result : ActionResult)
  | getManifest (ns : String) (key : Digest)
  | commitManifest (ns : String) (key : Digest) (expected : Option String)
      (record : ManifestRecord)

def Op.Value : Op → Type
  | .localIo => Unit
  | .acquire _ => Bool
  | .get _ => Option Blob
  | .put _ _ => PutOutcome
  | .visibleBlobs _ _ => List Digest
  | .registerBlob _ _ _ => Unit
  | .forgetBlob _ _ => Unit
  | .getResult _ _ => Option ActionResult
  | .getBatch _ _ => List ActionResult
  | .commit _ _ _ => CommitStep
  | .resolve _ _ _ => CommitOutcome
  | .getManifest _ _ => Option ManifestRecord
  | .commitManifest _ _ _ _ => ManifestCommitOutcome

/-- Taking permits never waits and never fails otherwise than by refusal. -/
def Op.fallible : Op → Bool
  | .acquire _ => false
  | _ => true

/-- Jobs of a request: storing a verified frame of an uploaded pack, and opening an
object of a pack that is being served. -/
inductive Job
  | store (ns : String) (digest : Digest) (bytes : Bytes)
  | read (ns : String) (digest : Digest)
  deriving DecidableEq

inductive Out
  | stored (result : Except ApiError PutOutcome)
  | opened (blob : Option Blob)

abbrev Api : Interface := ⟨Op, fun op => Except Failure op.Value, Job, Out⟩

structure ServerState (M : Type) where
  blobs : Objects
  metadata : M

inductive Fault
  | none
  | before (failure : Failure)
  | after (failure : Failure)
  deriving DecidableEq, Repr

structure Choice where
  fault : Fault
  /-- How a stored object is cut when it is read, and whether the read fails. -/
  cuts : List Nat
  broken : Bool
  /-- Whether the spool is full. -/
  refused : Bool
  now : Instant
  /-- Which ended job is taken next. -/
  pick : Nat
  deriving DecidableEq, Repr

/-- An operation and its fault. A failed operation either did nothing or did
everything. -/
def attempt {M α : Type} (fault : Fault) (state : ServerState M)
    (result : Except Failure (ServerState M × α)) : ServerState M × Except Failure α :=
  match fault, result with
  | .before failure, _ => (state, .error failure)
  | _, .error failure => (state, .error failure)
  | .after failure, .ok (after, _) => (after, .error failure)
  | .none, .ok (after, value) => (after, .ok value)

section
variable {M : Type} [Protocol] [MetadataStore M]

def ServerState.write {α : Type} (state : ServerState M) (result : Except Failure (M × α)) :
    Except Failure (ServerState M × α) :=
  result.map fun (metadata, value) => ({ state with metadata := metadata }, value)

def ServerState.look {α : Type} (state : ServerState M) (result : Except Failure α) :
    Except Failure (ServerState M × α) :=
  result.map fun value => (state, value)

def perform (choice : Choice) (state : ServerState M) :
    (op : Op) → Except Failure (ServerState M × op.Value)
  | .localIo => .ok (state, ())
  | .acquire _ => .ok (state, !choice.refused)
  | .get digest => .ok (state, state.blobs.get digest choice.cuts choice.broken)
  | .put digest bytes =>
      let (blobs, outcome) := state.blobs.put digest bytes
      .ok ({ state with blobs := blobs }, outcome)
  | .visibleBlobs ns digests => state.look (MetadataStore.visibleBlobs state.metadata ns digests)
  | .registerBlob ns digest stored =>
      state.write ((MetadataStore.registerBlob state.metadata choice.now ns digest stored).map
        fun metadata => (metadata, ()))
  | .forgetBlob ns digest =>
      state.write ((MetadataStore.forgetBlob state.metadata ns digest).map
        fun metadata => (metadata, ()))
  | .getResult ns action => state.look (MetadataStore.get state.metadata ns action)
  | .getBatch ns actions => state.look (MetadataStore.getBatch state.metadata ns actions)
  | .commit ns action result =>
      state.write (MetadataStore.commit state.metadata choice.now ns action result)
  | .resolve ns action result =>
      state.look (MetadataStore.resolve state.metadata ns action result)
  | .getManifest ns key => state.look (MetadataStore.getManifest state.metadata ns key)
  | .commitManifest ns key expected record =>
      state.write (MetadataStore.commitManifest state.metadata choice.now ns key expected record)

def exec (choice : Choice) (op : Op) (state : ServerState M) :
    ServerState M × Except Failure op.Value :=
  attempt (if op.fallible then choice.fault else .none) state (perform choice state op)

end

/-- Storing a verified frame: the object first, then its row (`PackFrame::store`). -/
def storeFrame (ns : String) (digest : Digest) (bytes : Bytes) : Program Api Out :=
  .call (.put digest bytes) fun put : Except Failure PutOutcome =>
    match put with
    | .error failure => .done (.stored (.error (.internal failure)))
    | .ok outcome =>
        .call (.registerBlob ns digest outcome) fun registered : Except Failure Unit =>
          match registered with
          | .error failure => .done (.stored (.error (.internal failure)))
          | .ok () => .done (.stored (.ok outcome))

def openEntry (ns : String) (digest : Digest) : Program Api Out :=
  .call (.get digest) fun found : Except Failure (Option Blob) =>
    match found with
    | .error _ => .done (.opened none)
    | .ok none => .call (.forgetBlob ns digest) fun _ => .done (.opened none)
    | .ok (some blob) =>
        if blob.size ≠ digest.size then .done (.opened none) else .done (.opened (some blob))

def Job.body : Job → Program Api Out
  | .store ns digest bytes => storeFrame ns digest bytes
  | .read ns digest => openEntry ns digest

/-- Stores are spawned and outlive a dropped request; reads belong to the response. -/
def Job.detached : Job → Bool
  | .store _ _ _ => true
  | .read _ _ => false

/-- The server over a metadata store of type `M`. -/
abbrev server (M : Type) [Protocol] [MetadataStore M] : Machine Api where
  State := ServerState M
  Choice := Choice
  exec := exec
  pick := Choice.pick
  body := Job.body
  detached := Job.detached

def Choice.Clean (choice : Choice) : Prop :=
  choice.fault = .none ∧ choice.broken = false ∧ choice.refused = false

instance (choice : Choice) : Decidable choice.Clean := by
  unfold Choice.Clean
  infer_instance

end MbxCache
