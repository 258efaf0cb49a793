import MbxCache.ApiError
import MbxCache.Storage.Service

/-! The S3 store (`storage/s3.rs`), request by request. -/

namespace MbxCache

open Concurrent SerialObject

/-- An error of the client: the code the service names, whether it is of the kind
`NoSuchKey`, and the status of the response, if there was one. -/
structure S3Error where
  code : Option String
  noSuchKey : Bool
  status : Option Nat
  deriving DecidableEq, Repr

/-- The prefix of a store and `Digest::key` of the protocol crate, which tells digests apart. -/
structure S3Store where
  root : String
  digestKey : ValidDigest → String
  distinct : Function.Injective digestKey

namespace S3Store

def plainKey (digest : ValidDigest) : String :=
  digest.1.algorithm ++ digest.1.hash ++ toString digest.1.size.toNat

theorem plainKey_injective : Function.Injective plainKey := by
  intro one other same
  obtain ⟨⟨algorithm, kind⟩, length, -⟩ := (validate_iff one.1).mp one.2
  obtain ⟨⟨algorithm', kind'⟩, length', -⟩ := (validate_iff other.1).mp other.2
  have letters := congrArg String.toList same
  simp only [plainKey, String.toList_append, List.append_assoc] at letters
  have six (algorithm : Algorithm) : algorithm.asStr.toList.length = 6 := by
    cases algorithm <;> rfl
  obtain ⟨front, rest⟩ := List.append_inj letters (by
    rw [(algorithmKind_asStr one.1 algorithm).mp kind,
      (algorithmKind_asStr other.1 algorithm').mp kind', six, six])
  obtain ⟨hash, number⟩ := List.append_inj rest (length.trans length'.symm)
  have size := UInt64.toNat_inj.mp (toString_inj.mp (String.toList_inj.mp number))
  have named := String.toList_inj.mp front
  have hashed := String.toList_inj.mp hash
  apply Subtype.ext
  cases digest : one.1
  cases digest' : other.1
  rw [digest, digest'] at named hashed size
  exact (Digest.mk.injEq ..).mpr ⟨named, hashed, size⟩

instance : Inhabited S3Store := ⟨⟨"v1", plainKey, plainKey_injective⟩⟩

def key (store : S3Store) (digest : ValidDigest) : String :=
  store.root ++ "/blobs/" ++ store.digestKey digest

/-- `u64::try_from` -/
def contentSize (length : Int) : Option UInt64 :=
  if 0 ≤ length ∧ length.toNat < UInt64.size then some (UInt64.ofNat length.toNat) else none

/-- What `get` makes of a response: the content length and the body, or an error. -/
def got : Except S3Error (Option Int × Bytes) → Except Failure (Option (UInt64 × Bytes))
  | .ok (length, body) =>
      match length.bind contentSize with
      | some size => .ok (some (size, body))
      | none => .error .fault
  | .error error =>
      if error.code = some "NoSuchBucket" then .error .fault
      else if error.noSuchKey || error.status == some 404 then .ok none
      else .error .fault

/-- What `put` makes of a response. -/
def stored : Except S3Error Unit → Except Failure PutOutcome
  | .ok () => .ok .created
  | .error error => if error.status = some 412 then .ok .alreadyExists else .error .fault

end S3Store

/-- What becomes of a request. A request whose response is lost may have been served, and
the client may send it again. A refusal says nothing about the object. -/
inductive S3Reply
  | served (sized : Bool)
  | lost (served again : Bool)
  | noBucket
  | refused (status : Nat)
  deriving DecidableEq, Repr

inductive S3PutStage
  | opening
  | sending
  | answered (outcome : PutOutcome)
  | failed
  deriving DecidableEq, Repr

structure S3Put where
  digest : ValidDigest
  source : Bytes
  stage : S3PutStage
  created : Option PutOutcome
  deriving DecidableEq, Repr

inductive S3GetStage
  | sending
  | answered (found : Option (UInt64 × Bytes))
  | failed
  deriving DecidableEq, Repr

structure S3Get where
  digest : ValidDigest
  stage : S3GetStage
  deriving DecidableEq, Repr

inductive S3Call
  | put (put : S3Put)
  | get (get : S3Get)
  deriving DecidableEq, Repr

structure S3Bucket where
  objects : String → Option Bytes
  calls : List S3Call

inductive S3Move
  | put (digest : ValidDigest) (source : Bytes)
  | get (digest : ValidDigest)
  | advance (id : Nat) (fails : Bool) (reply : S3Reply)
  deriving DecidableEq, Repr

namespace S3Put

def ended : Except Failure PutOutcome → S3PutStage
  | .ok outcome => .answered outcome
  | .error _ => .failed

def response : PutOutcome → Except S3Error Unit
  | .created => .ok ()
  | .alreadyExists => .error ⟨some "PreconditionFailed", false, some 412⟩

/-- The request of `S3Store::put`, which carries `If-None-Match: *`. -/
def send (put : S3Put) (store : S3Store) (objects : String → Option Bytes) :
    S3Reply → (String → Option Bytes) × S3Put
  | .served _ =>
      let (after, outcome) := createOnly objects (store.key put.digest) put.source
      (after, { put with
        stage := ended (S3Store.stored (response outcome))
        created := if outcome = .created then some .created else put.created })
  | .lost served again =>
      let (after, outcome) :=
        if served then createOnly objects (store.key put.digest) put.source
        else (objects, .alreadyExists)
      (after, { put with
        stage := if again then .sending else .failed
        created := if outcome = .created then some .alreadyExists else put.created })
  | .noBucket =>
      (objects, { put with
        stage := ended (S3Store.stored (.error ⟨some "NoSuchBucket", false, some 404⟩)) })
  | .refused status =>
      if status = 404 ∨ status = 412 then (objects, put)
      else (objects, { put with
        stage := ended (S3Store.stored (.error ⟨none, false, some status⟩)) })

/-- One step of `S3Store::put`. -/
def advance (put : S3Put) (store : S3Store) (objects : String → Option Bytes) (fails : Bool)
    (reply : S3Reply) : (String → Option Bytes) × S3Put :=
  match put.stage with
  | .opening => (objects, { put with stage := if fails then .failed else .sending })
  | .sending => put.send store objects reply
  | .answered _ => (objects, put)
  | .failed => (objects, put)

end S3Put

namespace S3Get

def ended : Except Failure (Option (UInt64 × Bytes)) → S3GetStage
  | .ok found => .answered found
  | .error _ => .failed

def response (sized : Bool) : Option Bytes → Except S3Error (Option Int × Bytes)
  | some bytes => .ok (if sized then some bytes.length else none, bytes)
  | none => .error ⟨some "NoSuchKey", true, some 404⟩

/-- One step of `S3Store::get`. -/
def advance (get : S3Get) (store : S3Store) (objects : String → Option Bytes) (reply : S3Reply) :
    S3Get :=
  match get.stage with
  | .sending =>
      match reply with
      | .served sized =>
          { get with stage := ended (S3Store.got (response sized (objects (store.key get.digest)))) }
      | .lost _ again => { get with stage := if again then .sending else .failed }
      | .noBucket =>
          { get with stage := ended (S3Store.got (.error ⟨some "NoSuchBucket", false, some 404⟩)) }
      | .refused status =>
          if status = 404 ∨ status = 412 then get
          else { get with stage := ended (S3Store.got (.error ⟨none, false, some status⟩)) }
  | .answered _ => get
  | .failed => get

end S3Get

namespace S3Bucket

def advance (bucket : S3Bucket) (store : S3Store) (id : Nat) (fails : Bool) (reply : S3Reply) :
    S3Call → S3Bucket
  | .put put =>
      let (objects, put) := put.advance store bucket.objects fails reply
      ⟨objects, bucket.calls.set id (.put put)⟩
  | .get get =>
      { bucket with calls := bucket.calls.set id (.get (get.advance store bucket.objects reply)) }

def step (store : S3Store) (bucket : S3Bucket) : S3Move → S3Bucket
  | .put digest source =>
      { bucket with calls := bucket.calls ++ [.put ⟨digest, source, .opening, none⟩] }
  | .get digest => { bucket with calls := bucket.calls ++ [.get ⟨digest, .sending⟩] }
  | .advance id fails reply =>
      match bucket.calls[id]? with
      | some call => bucket.advance store id fails reply call
      | none => bucket

end S3Bucket

end MbxCache
