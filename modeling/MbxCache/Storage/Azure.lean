import MbxCache.Storage.S3

/-! The Azure store (`storage/azure.rs`), request by request. -/

namespace MbxCache

open Concurrent SerialObject

/-- An object of a container. A copy that Azure has accepted fills its object later, from the
upload it is made of, and breaks it if that upload is gone. -/
inductive AzureObject
  | whole (bytes : Bytes)
  | pending (put : Nat) (uuid : String)
  | broken
  deriving DecidableEq, Repr

def AzureObject.content : AzureObject → Bytes
  | .whole bytes => bytes
  | .pending _ _ => []
  | .broken => []

/-- The prefix of a store and `Digest::key` of the protocol crate, which tells digests apart. -/
structure AzureStore where
  root : ObjectKey
  digestKey : ValidDigest → ObjectKey
  distinct : Function.Injective digestKey

namespace AzureStore

def key (store : AzureStore) (digest : ValidDigest) : ObjectKey :=
  store.root ++ "blobs" :: store.digestKey digest

def uploadKey (store : AzureStore) (uuid : String) : ObjectKey := store.root ++ ["uploads", uuid]

/-- How often `wait_until_readable` looks. -/
def maxPolls : Nat := 120

instance : Inhabited AzureStore :=
  ⟨⟨["v1"], fun digest => [S3Store.plainKey digest],
    fun _ _ same => S3Store.plainKey_injective (List.singleton_injective same)⟩⟩

end AzureStore

inductive AzureStage
  | begun
  | creating
  | opening (uuid : String)
  | copying (uuid : String)
  | closing (uuid : String)
  | publishing (uuid : String)
  | removing (uuid : String) (outcome : Option PutOutcome)
  | waiting (outcome : PutOutcome) (polls : Nat)
  | answered (outcome : PutOutcome)
  | failed
  deriving DecidableEq, Repr

structure AzurePut where
  digest : ValidDigest
  source : Bytes
  stage : AzureStage
  created : Option PutOutcome
  deriving DecidableEq, Repr

inductive AzureGetStage
  | sending
  | answered (found : Option Bytes)
  | failed
  deriving DecidableEq, Repr

structure AzureGet where
  digest : ValidDigest
  stage : AzureGetStage
  deriving DecidableEq, Repr

inductive AzureCall
  | put (put : AzurePut)
  | get (get : AzureGet)
  deriving DecidableEq, Repr

/-- What the surroundings decide at a step: if it fails, if a request takes effect although it
fails, if the client then sends it again, and the identifier an upload draws. -/
structure AzureIo where
  fails : Bool
  effective : Bool
  again : Bool
  uuid : String
  deriving DecidableEq, Repr

structure Container where
  objects : ObjectKey → Option AzureObject
  calls : List AzureCall
  drawn : List (String × Nat)

inductive AzureMove
  | put (digest : ValidDigest) (source : Bytes)
  | get (digest : ValidDigest)
  | advance (id : Nat) (io : AzureIo)
  | settle (digest : ValidDigest)
  | expire (uuid : String)
  deriving DecidableEq, Repr

namespace AzurePut

def content (put : AzurePut) : Bytes := if put.digest.1.size = 0 then [] else put.source

/-- What a put will be told once an object that it has created is filled. -/
def owed (put : AzurePut) : PutOutcome :=
  match put.stage with
  | .waiting outcome _ => outcome
  | _ => .alreadyExists

end AzurePut

namespace Container

variable (store : AzureStore)

def start (objects : ObjectKey → Option Bytes) : Container :=
  ⟨fun key => (objects key).map .whole, [], []⟩

def setObject (container : Container) (key : ObjectKey) (object : Option AzureObject) :
    Container :=
  { container with objects := Function.update container.objects key object }

def setCall (container : Container) (id : Nat) (call : AzureCall) : Container :=
  { container with calls := container.calls.set id call }

/-- An identifier that was not drawn before and has no object. -/
def Fresh (container : Container) (uuid : String) : Prop :=
  uuid ∉ container.drawn.map Prod.fst ∧ container.objects (store.uploadKey uuid) = none

instance (container : Container) (uuid : String) : Decidable (container.Fresh store uuid) := by
  unfold Fresh
  infer_instance

def create (container : Container) (id : Nat) (put : AzurePut) (io : AzureIo) : Container :=
  match container.objects (store.key put.digest) with
  | some _ =>
      if io.fails then
        container.setCall id (.put { put with stage := if io.again then .creating else .failed })
      else container.setCall id (.put { put with stage := .answered .alreadyExists })
  | none =>
      if io.fails then
        let stage := if io.again then AzureStage.creating else .failed
        if io.effective then
          (container.setObject (store.key put.digest) (some (.whole []))).setCall id
            (.put { put with stage := stage, created := some .alreadyExists })
        else container.setCall id (.put { put with stage })
      else
        (container.setObject (store.key put.digest) (some (.whole []))).setCall id
          (.put { put with stage := .answered .created, created := some .created })

def publish (container : Container) (id : Nat) (put : AzurePut) (uuid : String) (io : AzureIo) :
    Container :=
  let lost := if io.again then AzureStage.publishing uuid else .removing uuid none
  match container.objects (store.uploadKey uuid), container.objects (store.key put.digest) with
  | some _, none =>
      let copying := container.setObject (store.key put.digest) (some (.pending id uuid))
      if io.fails then
        (if io.effective then copying else container).setCall id (.put { put with stage := lost })
      else copying.setCall id (.put { put with stage := .waiting .created 0 })
  | some _, some _ =>
      container.setCall id (.put { put with
        stage := if io.fails then lost else .removing uuid (some .alreadyExists) })
  | none, _ =>
      container.setCall id (.put { put with
        stage := if io.fails then lost else .removing uuid none })

def readable (container : Container) (digest : ValidDigest) : Bool :=
  match container.objects (store.key digest) with
  | some object => digest.1.size.toNat ≤ object.content.length
  | none => false

/-- One step of `AzureStore::put`. -/
def advancePut (container : Container) (id : Nat) (put : AzurePut) (io : AzureIo) : Container :=
  let move (stage : AzureStage) := container.setCall id (.put { put with stage })
  match put.stage with
  | .begun =>
      if put.digest.1.size = 0 then move .creating
      else if container.Fresh store io.uuid then
        { container with drawn := (io.uuid, id) :: container.drawn }.setCall id
          (.put { put with stage := .opening io.uuid })
      else container
  | .creating => container.create store id put io
  | .opening uuid => move (if io.fails then .failed else .copying uuid)
  | .copying uuid => move (if io.fails then .failed else .closing uuid)
  | .closing uuid =>
      let uploaded :=
        if io.fails && !io.effective then container
        else container.setObject (store.uploadKey uuid) (some (.whole put.source))
      uploaded.setCall id
        (.put { put with stage := if io.fails then .removing uuid none else .publishing uuid })
  | .publishing uuid => container.publish store id put uuid io
  | .removing uuid outcome =>
      let removed :=
        if io.fails && !io.effective then container
        else container.setObject (store.uploadKey uuid) none
      removed.setCall id
        (.put { put with stage := match outcome with
          | some outcome => .waiting outcome 0
          | none => .failed })
  | .waiting outcome polls =>
      if !io.fails && container.readable store put.digest then move (.answered outcome)
      else move (if polls + 1 < AzureStore.maxPolls then .waiting outcome (polls + 1) else .failed)
  | .answered _ => container
  | .failed => container

/-- One step of `AzureStore::get`. -/
def advanceGet (container : Container) (id : Nat) (get : AzureGet) (io : AzureIo) : Container :=
  match get.stage with
  | .sending =>
      container.setCall id (.get { get with
        stage := if io.fails then .failed
          else .answered ((container.objects (store.key get.digest)).map AzureObject.content) })
  | .answered _ => container
  | .failed => container

/-- A copy ends. Whoever asked for it has created the object then. -/
def settle (container : Container) (digest : ValidDigest) : Container :=
  match container.objects (store.key digest) with
  | some (.pending id uuid) =>
      match container.objects (store.uploadKey uuid), container.calls[id]? with
      | some (.whole bytes), some (.put put) =>
          (container.setObject (store.key digest) (some (.whole bytes))).setCall id
            (.put { put with created := some put.owed })
      | _, _ => container.setObject (store.key digest) (some .broken)
  | _ => container

/-- A move of a call that does not exist changes nothing. -/
def step (container : Container) : AzureMove → Container
  | .put digest source =>
      { container with calls := container.calls ++ [.put ⟨digest, source, .begun, none⟩] }
  | .get digest => { container with calls := container.calls ++ [.get ⟨digest, .sending⟩] }
  | .advance id io =>
      match container.calls[id]? with
      | some (.put put) => container.advancePut store id put io
      | some (.get get) => container.advanceGet store id get io
      | none => container
  | .settle digest => container.settle store digest
  | .expire uuid => container.setObject (store.uploadKey uuid) none

def run (container : Container) (moves : List AzureMove) : Container :=
  moves.foldl (step store) container

end Container

end MbxCache
