import MbxCache.Digest
import MbxCache.Storage

/-! The object store's two ways to publish a blob (`storage/gcs.rs`), step by step. -/

namespace MbxCache

/-- `SINGLE_REQUEST_BYTES` -/
def singleRequestBytes : UInt64 := 10 * 1024 * 1024

def fitsOneRequest (size : UInt64) : Bool := size ≤ singleRequestBytes

abbrev ObjectKey := List String

/-- The prefix of a store and `Digest::key` of the protocol crate. -/
structure GcsKeys where
  root : ObjectKey
  digestKey : Digest → ObjectKey

namespace GcsKeys

def blob (keys : GcsKeys) (name : ObjectKey) : ObjectKey := keys.root ++ "blobs" :: name

def key (keys : GcsKeys) (digest : Digest) : ObjectKey := keys.blob (keys.digestKey digest)

def upload (keys : GcsKeys) (name : ObjectKey) : ObjectKey := keys.root ++ "uploads" :: name

def uploadKey (keys : GcsKeys) (uuid : String) : ObjectKey := keys.upload [uuid]

def blobs (keys : GcsKeys) (objects : ObjectKey → Option Bytes) (name : ObjectKey) : Option Bytes :=
  objects (keys.blob name)

end GcsKeys

def createOnly {Key : Type} [DecidableEq Key] (objects : Key → Option Bytes) (key : Key)
    (bytes : Bytes) : (Key → Option Bytes) × PutOutcome :=
  match objects key with
  | some _ => (objects, .alreadyExists)
  | none => (Function.update objects key (some bytes), .created)

inductive Branch
  | single
  | staged
  deriving DecidableEq, Repr

/-- The branch `GcsStore::put` takes. -/
def branchOf (digest : Digest) : Branch :=
  if fitsOneRequest digest.size then .single else .staged

inductive GcsStage
  | begun (branch : Branch)
  | creating
  | opening (uuid : String)
  | copying (uuid : String)
  | closing (uuid : String)
  | publishing (uuid : String)
  | deleting (uuid : String) (result : Option PutOutcome)
  | answered (outcome : PutOutcome)
  | failed
  deriving DecidableEq, Repr

namespace GcsStage

def ended : Option PutOutcome → GcsStage
  | some outcome => .answered outcome
  | none => .failed

def result : GcsStage → Option PutOutcome
  | .deleting _ result => result
  | .answered outcome => some outcome
  | .begun _ | .creating | .opening _ | .copying _ | .closing _ | .publishing _ | .failed => none

def uuid : GcsStage → Option String
  | .opening uuid | .copying uuid | .closing uuid | .publishing uuid | .deleting uuid _ => some uuid
  | .begun _ | .creating | .answered _ | .failed => none

def uploaded : GcsStage → Option String
  | .publishing uuid | .deleting uuid _ => some uuid
  | .begun _ | .creating | .opening _ | .copying _ | .closing _ | .answered _ | .failed => none

end GcsStage

structure GcsPut where
  digest : Digest
  source : Bytes
  stage : GcsStage
  deriving DecidableEq, Repr

/-- What the surroundings decide at a step: if it fails, if a failing upload leaves its object
nevertheless, and the identifier a staged upload draws. -/
structure GcsIo where
  fails : Bool
  leaves : Bool
  uuid : String
  deriving DecidableEq, Repr

structure Decision where
  put : Nat
  name : ObjectKey
  bytes : Bytes
  outcome : PutOutcome
  deriving DecidableEq, Repr

/-- The objects, the puts so far, the identifiers they drew, the uploads whose delete failed
and the create-only writes in their order. -/
structure Bucket where
  objects : ObjectKey → Option Bytes
  puts : List GcsPut
  drawn : List String
  leaked : List String
  decided : List Decision

/-- A put begins on the branch its size decides, or one of another server on either branch. -/
inductive GcsMove
  | begin (digest : Digest) (source : Bytes)
  | beginOn (branch : Branch) (digest : Digest) (source : Bytes)
  | advance (index : Nat) (io : GcsIo)
  deriving DecidableEq, Repr

namespace Bucket

def start (objects : ObjectKey → Option Bytes) : Bucket := ⟨objects, [], [], [], []⟩

def blobs (bucket : Bucket) (keys : GcsKeys) : ObjectKey → Option Bytes :=
  keys.blobs bucket.objects

/-- An identifier that was not drawn before and has no object. -/
def Fresh (bucket : Bucket) (keys : GcsKeys) (uuid : String) : Prop :=
  uuid ∉ bucket.drawn ∧ bucket.objects (keys.uploadKey uuid) = none

instance (bucket : Bucket) (keys : GcsKeys) (uuid : String) :
    Decidable (bucket.Fresh keys uuid) := by
  unfold Fresh
  infer_instance

def setStage (bucket : Bucket) (index : Nat) (put : GcsPut) (stage : GcsStage) : Bucket :=
  { bucket with puts := bucket.puts.set index { put with stage } }

def publish (bucket : Bucket) (keys : GcsKeys) (index : Nat) (digest : Digest) (bytes : Bytes) :
    Bucket × PutOutcome :=
  let (objects, outcome) := createOnly bucket.objects (keys.key digest) bytes
  ({ bucket with
      objects := objects
      decided := bucket.decided ++ [⟨index, keys.digestKey digest, bytes, outcome⟩] }, outcome)

/-- One step of `GcsStore::put`. -/
def advance (bucket : Bucket) (keys : GcsKeys) (index : Nat) (put : GcsPut) (io : GcsIo) : Bucket :=
  match put.stage with
  | .begun .single => bucket.setStage index put (if io.fails then .failed else .creating)
  | .creating =>
      if io.fails then bucket.setStage index put .failed
      else
        let (bucket, outcome) := bucket.publish keys index put.digest put.source
        bucket.setStage index put (.answered outcome)
  | .begun .staged =>
      if bucket.Fresh keys io.uuid then
        { bucket with drawn := io.uuid :: bucket.drawn }.setStage index put (.opening io.uuid)
      else bucket
  | .opening uuid => bucket.setStage index put (if io.fails then .failed else .copying uuid)
  | .copying uuid => bucket.setStage index put (if io.fails then .failed else .closing uuid)
  | .closing uuid =>
      let objects :=
        if io.fails && !io.leaves then bucket.objects
        else Function.update bucket.objects (keys.uploadKey uuid) (some put.source)
      { bucket with objects }.setStage index put
        (if io.fails then .deleting uuid none else .publishing uuid)
  | .publishing uuid =>
      if io.fails then bucket.setStage index put (.deleting uuid none)
      else
        match bucket.objects (keys.uploadKey uuid) with
        | none => bucket.setStage index put (.deleting uuid none)
        | some bytes =>
            let (bucket, outcome) := bucket.publish keys index put.digest bytes
            bucket.setStage index put (.deleting uuid (some outcome))
  | .deleting uuid result =>
      if io.fails then
        { bucket with leaked := uuid :: bucket.leaked }.setStage index put (.ended result)
      else
        { bucket with
          objects := Function.update bucket.objects (keys.uploadKey uuid) none }.setStage index put
            (.ended result)
  | .answered _ => bucket
  | .failed => bucket

def beginOn (bucket : Bucket) (branch : Branch) (digest : Digest) (source : Bytes) : Bucket :=
  { bucket with puts := bucket.puts ++ [⟨digest, source, .begun branch⟩] }

def step (keys : GcsKeys) (bucket : Bucket) : GcsMove → Bucket
  | .begin digest source => bucket.beginOn (branchOf digest) digest source
  | .beginOn branch digest source => bucket.beginOn branch digest source
  | .advance index io =>
      match bucket.puts[index]? with
      | some put => bucket.advance keys index put io
      | none => bucket

def run (keys : GcsKeys) (bucket : Bucket) (moves : List GcsMove) : Bucket :=
  moves.foldl (step keys) bucket

def runAlone (keys : GcsKeys) (bucket : Bucket) (digest : Digest) (source : Bytes)
    (branch : Branch) (uuid : String) : Bucket :=
  let steps := match branch with
    | .single => 2
    | .staged => 6
  bucket.run keys (.beginOn branch digest source ::
    List.replicate steps (.advance bucket.puts.length ⟨false, false, uuid⟩))

end Bucket
end MbxCache
