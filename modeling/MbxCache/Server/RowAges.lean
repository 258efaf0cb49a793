import MbxCache.Metadata.Postgres
import MbxCache.Server.Interface
import MbxCache.Specimen

/-! The age a row of a single namespace claims, against the age of the object it names. -/

namespace MbxCache

open Relational

/-- Where an upload is: its put, its registration or past the registration, which it
attempted at a time. -/
inductive UploadStage
  | putting
  | registering (stored : PutOutcome)
  | attempted (time : Instant)
  deriving DecidableEq, Repr

structure ObjectUpload where
  digest : Digest
  bytes : Bytes
  stage : UploadStage
  deriving DecidableEq, Repr

/-- A database and a storage with a clock, the uploads so far, the reads that found an
object absent and have yet to forget it, and for each present object the upload that
wrote it. -/
structure AgedStore where
  ns : String
  server : ServerState PostgresMetadata
  now : Instant
  uploads : List ObjectUpload
  absent : List Digest
  writer : Digest → Option Nat

inductive AgedMove
  | tick (elapsed : Nat)
  | begin (digest : Digest) (bytes : Bytes)
  | put (upload : Nat)
  | register (upload : Nat) (fault : Fault)
  | find (digest : Digest)
  | forget (position : Nat) (fault : Fault)
  | expire (digest : Digest)
  deriving DecidableEq, Repr

def Fault.effective : Fault → Bool
  | .before _ => false
  | .none | .after _ => true

namespace AgedStore

def start (ns : String) : AgedStore :=
  ⟨ns, ⟨fun _ => none, PostgresMetadata.empty⟩, 0, [], [], fun _ => none⟩

def objects (store : AgedStore) : Objects := store.server.blobs

def row (store : AgedStore) (digest : Digest) : Option BlobRow :=
  store.server.metadata.namespaceBlobs.lookup (rowKey store.ns digest)

def attemptedAt (store : AgedStore) (upload : Nat) : Option Instant :=
  match store.uploads[upload]? with
  | some ⟨_, _, .attempted time⟩ => some time
  | _ => none

def setStage (store : AgedStore) (index : Nat) (upload : ObjectUpload) (stage : UploadStage) :
    AgedStore :=
  { store with uploads := store.uploads.set index { upload with stage } }

def put (store : AgedStore) (index : Nat) (upload : ObjectUpload) : AgedStore :=
  let (blobs, stored) := store.objects.put upload.digest upload.bytes
  let writer := match stored with
    | .created => Function.update store.writer upload.digest (some index)
    | .alreadyExists => store.writer
  { store with server := { store.server with blobs := blobs }, writer := writer }.setStage index
    upload (.registering stored)

section
variable [Protocol]

def execute (store : AgedStore) (fault : Fault) (op : Op) : AgedStore :=
  { store with server := (exec ⟨fault, [], false, false, store.now, 0⟩ op store.server).1 }

def register (store : AgedStore) (index : Nat) (upload : ObjectUpload) (stored : PutOutcome)
    (fault : Fault) : AgedStore :=
  (store.execute fault (.registerBlob store.ns upload.digest stored)).setStage index upload
    (.attempted store.now)

def step (store : AgedStore) : AgedMove → AgedStore
  | .tick elapsed => { store with now := store.now + elapsed }
  | .begin digest bytes =>
      { store with uploads := store.uploads ++ [⟨digest, bytes, .putting⟩] }
  | .put index =>
      match store.uploads[index]? with
      | some ⟨digest, bytes, .putting⟩ => store.put index ⟨digest, bytes, .putting⟩
      | _ => store
  | .register index fault =>
      match store.uploads[index]? with
      | some ⟨digest, bytes, .registering stored⟩ =>
          store.register index ⟨digest, bytes, .registering stored⟩ stored fault
      | _ => store
  | .find digest =>
      match store.objects digest with
      | none => { store with absent := store.absent ++ [digest] }
      | some _ => store
  | .forget position fault =>
      match store.absent[position]? with
      | some digest =>
          { store.execute fault (.forgetBlob store.ns digest) with
            absent := store.absent.eraseIdx position }
      | none => store
  | .expire digest =>
      { store with
        server := { store.server with blobs := Function.update store.server.blobs digest none }
        writer := Function.update store.writer digest none }

def run (store : AgedStore) (moves : List AgedMove) : AgedStore := moves.foldl step store

/-- No row is younger than the object it names, once the upload that wrote the object has
attempted its registration. -/
def Young (store : AgedStore) : Prop :=
  ∀ digest row bytes writer time, store.row digest = some row →
    store.objects digest = some bytes → store.writer digest = some writer →
    store.attemptedAt writer = some time → row.createdAt ≤ time

def admits (store : AgedStore) (digest : Digest) : Bool :=
  (rowKey store.ns digest).storable && checkKey (rowKey store.ns digest)

def SetsAge (store : AgedStore) (fault : Fault) (digest : Digest) (stored : PutOutcome) : Prop :=
  fault.effective = true ∧ store.admits digest = true ∧ (stored = .created ∨ store.row digest = none)

/-- No registration sets the age of a row when the object present is another upload's that
attempted its own registration earlier. -/
def Timely (store : AgedStore) : AgedMove → Prop
  | .register index fault =>
      ∀ digest bytes stored content writer time,
        store.uploads[index]? = some ⟨digest, bytes, .registering stored⟩ →
        store.SetsAge fault digest stored → store.objects digest = some content →
        store.writer digest = some writer → store.attemptedAt writer = some time →
        store.now ≤ time
  | _ => True

end

variable {store : AgedStore}

@[simp] theorem setStage_row (index : Nat) (upload : ObjectUpload) (stage : UploadStage)
    (digest : Digest) : (store.setStage index upload stage).row digest = store.row digest := rfl

@[simp] theorem setStage_objects (index : Nat) (upload : ObjectUpload) (stage : UploadStage) :
    (store.setStage index upload stage).objects = store.objects := rfl

/-- An upload that moves on changes when it attempted its registration, not when others did. -/
theorem setStage_attemptedAt (store : AgedStore) {index : Nat} {upload : ObjectUpload} (stage : UploadStage)
    (found : store.uploads[index]? = some upload) (other : Nat) :
    (store.setStage index upload stage).attemptedAt other =
      if other = index then
        match stage with
        | .attempted time => some time
        | _ => none
      else store.attemptedAt other := by
  obtain ⟨inside, -⟩ := List.getElem?_eq_some_iff.mp found
  unfold attemptedAt setStage
  rw [List.getElem?_set]
  by_cases same : other = index
  · rw [if_pos same, if_pos same.symm, if_pos inside]
    cases stage <;> rfl
  · rw [if_neg same, if_neg fun flipped => same flipped.symm]

theorem put_objects {index : Nat} {upload : ObjectUpload} :
    (store.put index upload).objects = (store.objects.put upload.digest upload.bytes).1 := rfl

theorem put_writer {index : Nat} {upload : ObjectUpload} {digest : Digest} :
    (store.put index upload).writer digest =
      if digest = upload.digest ∧ store.objects digest = none then some index
      else store.writer digest := by
  simp only [put, setStage, Objects.put]
  by_cases same : digest = upload.digest
  · subst same
    cases found : store.objects upload.digest <;> simp
  · cases found : store.objects upload.digest <;> simp [same]

theorem put_attemptedAt {index : Nat} {upload : ObjectUpload}
    (found : store.uploads[index]? = some upload) (other : Nat) :
    (store.put index upload).attemptedAt other =
      if other = index then none else store.attemptedAt other :=
  setStage_attemptedAt { store with
    server := { store.server with blobs := (store.objects.put upload.digest upload.bytes).1 }
    writer := (store.put index upload).writer } _ found other

section
variable [Protocol]

theorem register_row (fault : Fault) (digest : Digest) (stored : PutOutcome) (other : Digest) :
    (store.execute fault (.registerBlob store.ns digest stored)).row other =
      if other = digest ∧ fault.effective = true ∧ store.admits digest = true then
        some (((store.row digest).map (.refresh store.now stored)).getD
          ⟨rowKey store.ns digest, store.now, store.now⟩)
      else store.row other := by
  have registered : ∀ result : Except Failure PostgresMetadata,
      store.server.metadata.registerBlob store.now store.ns digest stored = result →
      (store.execute fault (.registerBlob store.ns digest stored)).row other =
        if fault.effective = true then
          ((result.toOption.map (·.namespaceBlobs)).getD
            store.server.metadata.namespaceBlobs).lookup (rowKey store.ns other)
        else store.row other := by
    rintro result rfl
    simp only [execute, exec, Op.fallible, if_true, perform, ServerState.write,
      MetadataStore.registerBlob, row]
    cases fault <;>
      cases store.server.metadata.registerBlob store.now store.ns digest stored <;> rfl
  cases admitted : store.admits digest with
  | false =>
      rw [registered _ (PostgresMetadata.registerBlob_refused _ _ _ _ _ admitted)]
      simp [Except.toOption, row]
  | true =>
      obtain ⟨storable, -⟩ := Bool.and_eq_true_iff.mp admitted
      obtain ⟨blobs, upserted, lookups⟩ := Table.upsert_lookup store.server.metadata.namespaceBlobs
        ⟨rowKey store.ns digest, store.now, store.now⟩ (.refresh store.now stored)
        (fun _ => rfl) (fun _ => rfl) admitted
      rw [registered (.ok { store.server.metadata with namespaceBlobs := blobs })
        (by simp [PostgresMetadata.registerBlob, storable, upserted])]
      simp only [Except.toOption, Option.map_some, Option.getD_some, lookups,
        PostgresMetadata.rowKey_inj, row]
      by_cases same : other = digest <;> cases fault <;> simp [same, Fault.effective]

theorem register_objects (fault : Fault) (digest : Digest) (stored : PutOutcome) :
    (store.execute fault (.registerBlob store.ns digest stored)).objects = store.objects := by
  simp only [execute, exec, Op.fallible, if_true, perform, ServerState.write, objects]
  cases fault <;> cases MetadataStore.registerBlob store.server.metadata store.now store.ns digest
    stored <;> rfl

theorem register_attemptedAt {index : Nat} {upload : ObjectUpload} (stored : PutOutcome)
    (fault : Fault) (found : store.uploads[index]? = some upload) (other : Nat) :
    (store.register index upload stored fault).attemptedAt other =
      if other = index then some store.now else store.attemptedAt other :=
  setStage_attemptedAt (store.execute fault (.registerBlob store.ns upload.digest stored)) _ found
    other

theorem forget_row (fault : Fault) (digest other : Digest) {found : BlobRow}
    (present : (store.execute fault (.forgetBlob store.ns digest)).row other = some found) :
    store.row other = some found := by
  have cleared := Table.lookup_delete store.server.metadata.namespaceBlobs (rowKey store.ns digest)
    (rowKey store.ns other)
  simp only [execute, exec, Op.fallible, if_true, perform, ServerState.write,
    MetadataStore.forgetBlob, PostgresMetadata.forgetBlob, row] at present
  cases storable : (rowKey store.ns digest).storable with
  | false =>
      rw [storable] at present
      cases fault <;> exact present
  | true =>
      rw [storable] at present
      cases fault with
      | before failure => exact present
      | none | after failure =>
          change (store.server.metadata.namespaceBlobs.delete _).lookup (rowKey store.ns other) =
            some found at present
          rw [cleared] at present
          split at present
          · cases present
          · exact present

theorem forget_objects (fault : Fault) (digest : Digest) :
    (store.execute fault (.forgetBlob store.ns digest)).objects = store.objects := by
  simp only [execute, exec, Op.fallible, if_true, perform, ServerState.write, objects]
  cases fault <;> cases MetadataStore.forgetBlob store.server.metadata store.ns digest <;> rfl

def Dated (store : AgedStore) : Prop :=
  ∀ digest row, store.row digest = some row → row.createdAt ≤ store.now

omit [Protocol] in
theorem start_dated (ns : String) : (start ns).Dated := by
  intro digest row present
  cases present

/-- A row after a registration is the row before it, or that of the digest. It is then dated
now, unless there was one and the upload found its object in storage. -/
theorem register_cases {fault : Fault} {digest other : Digest} {stored : PutOutcome}
    {found : BlobRow}
    (present : (store.execute fault (.registerBlob store.ns digest stored)).row other =
      some found) :
    (∃ held, store.row other = some held ∧ found.createdAt = held.createdAt) ∨
      (other = digest ∧ store.SetsAge fault digest stored ∧ found.createdAt = store.now) := by
  rw [register_row] at present
  split at present
  next effective =>
    obtain ⟨rfl, carried, admitted⟩ := effective
    cases held : store.row other with
    | none =>
        rw [held] at present
        cases present
        exact .inr ⟨rfl, ⟨carried, admitted, .inr held⟩, rfl⟩
    | some old =>
        rw [held] at present
        cases present
        cases stored with
        | created => exact .inr ⟨rfl, ⟨carried, admitted, .inl rfl⟩, rfl⟩
        | alreadyExists => exact .inl ⟨old, rfl, rfl⟩
  next => exact .inl ⟨found, present, rfl⟩

theorem register_sets {fault : Fault} {digest : Digest} {stored : PutOutcome}
    (sets : store.SetsAge fault digest stored) :
    ∃ found, (store.execute fault (.registerBlob store.ns digest stored)).row digest = some found ∧
      found.createdAt = store.now := by
  obtain ⟨carried, admitted, fresh⟩ := sets
  refine ⟨_, (register_row fault digest stored digest).trans
    (if_pos ⟨rfl, carried, admitted⟩), ?_⟩
  cases held : store.row digest with
  | none => rfl
  | some old =>
      rw [held] at fresh
      rcases fresh with rfl | none
      · rfl
      · cases none

/-- The clock never passes a row by. -/
theorem step_dated (dated : store.Dated) (move : AgedMove) : (store.step move).Dated := by
  intro digest row present
  cases move with
  | tick elapsed => exact (dated digest row present).trans (Nat.le_add_right _ _)
  | begin other bytes => exact dated digest row present
  | put index =>
      simp only [step] at present ⊢
      split at present
      next => exact dated digest row present
      next => exact dated digest row present
  | register index fault =>
      simp only [step] at present ⊢
      split at present
      next found =>
        rcases register_cases present with ⟨held, before, same⟩ | ⟨-, -, same⟩
        · exact same ▸ dated digest held before
        · exact same.le
      next => exact dated digest row present
  | find other =>
      simp only [step] at present ⊢
      split at present <;> exact dated digest row present
  | forget position fault =>
      simp only [step] at present ⊢
      split at present
      next => exact dated digest row (forget_row fault _ digest present)
      next => exact dated digest row present
  | expire other => exact dated digest row present

theorem begin_attemptedAt (digest : Digest) (bytes : Bytes) (upload : Nat) :
    (store.step (.begin digest bytes)).attemptedAt upload = store.attemptedAt upload := by
  simp only [attemptedAt, step]
  by_cases inside : upload < store.uploads.length
  · rw [List.getElem?_append_left inside]
  · have outside := Nat.le_of_not_lt inside
    rw [List.getElem?_append_right outside, List.getElem?_eq_none outside]
    cases upload - store.uploads.length <;> rfl

omit [Protocol] in
/-- After a put a present object is an older one, or the upload that wrote it has its
registration ahead. -/
theorem put_young (young : store.Young) {index : Nat} {digest : Digest} {bytes : Bytes}
    (found : store.uploads[index]? = some ⟨digest, bytes, .putting⟩) :
    (store.put index ⟨digest, bytes, .putting⟩).Young := by
  intro other row content writer time present object written attempted
  rw [put_attemptedAt found] at attempted
  split at attempted
  next => cases attempted
  next another =>
    rw [put_writer] at written
    split at written
    next => exact absurd (Option.some.inj written).symm another
    next older =>
      have stays : ∃ held, store.objects other = some held := by
        rcases Objects.put_cases (put_objects ▸ object) with held | ⟨rfl, -⟩
        · exact ⟨content, held⟩
        · exact Option.ne_none_iff_exists'.mp fun none => older ⟨rfl, none⟩
      obtain ⟨held, before⟩ := stays
      exact young other row held writer time present before written attempted

/-- A timely step keeps every row as old as its object. -/
theorem step_young (dated : store.Dated) (young : store.Young) {move : AgedMove}
    (timely : store.Timely move) : (store.step move).Young := by
  cases move with
  | tick elapsed => exact young
  | begin digest bytes =>
      intro other row content writer time present object written attempted
      rw [begin_attemptedAt] at attempted
      exact young other row content writer time present object written attempted
  | put index =>
      simp only [step]
      split
      next found => exact put_young young found
      next => exact young
  | register index fault =>
      simp only [step]
      split
      next digest bytes stored found =>
        intro other row content writer time present object written attempted
        rw [register_attemptedAt stored fault found] at attempted
        split at attempted
        next =>
          -- The upload that wrote the object attempts its registration now.
          cases attempted
          rcases register_cases present with ⟨held, before, same⟩ | ⟨-, -, same⟩
          · exact same ▸ dated other held before
          · exact same.le
        next =>
          have stays : store.objects other = some content :=
            (congrFun (register_objects fault digest stored) other).symm.trans object
          rcases register_cases present with ⟨held, before, same⟩ | ⟨rfl, sets, same⟩
          · exact same ▸ young other held content writer time before stays written attempted
          · exact same ▸ timely other bytes stored content writer time found sets stays written
              attempted
      next => exact young
  | find digest =>
      simp only [step]
      split <;> exact young
  | forget position fault =>
      simp only [step]
      split
      next =>
        intro other row content writer time present object written attempted
        exact young other row content writer time (forget_row fault _ other present)
          ((congrFun (forget_objects fault _) other).symm.trans object) written attempted
      next => exact young
  | expire digest =>
      intro other row content writer time present object written attempted
      have different : other ≠ digest := by
        rintro rfl
        rw [show (store.step (.expire other)).objects other = none from
          Function.update_self ..] at object
        cases object
      refine young other row content writer time present ?_ ?_ attempted
      · exact (Function.update_of_ne different _ _).symm.trans object
      · exact (Function.update_of_ne different _ _).symm.trans written

/-- A step that leaves every row as old as its object was timely. -/
theorem step_timely {move : AgedMove} (young : (store.step move).Young) : store.Timely move := by
  cases move with
  | register index fault =>
      intro digest bytes stored content writer time found sets object written attempted
      simp only [step, found] at young
      obtain ⟨row, present, same⟩ := register_sets sets
      have another : writer ≠ index := by
        rintro rfl
        unfold attemptedAt at attempted
        rw [found] at attempted
        cases attempted
      have still := (register_attemptedAt stored fault found writer).trans
        (if_neg another)
      have stays := (congrFun (register_objects fault digest stored) digest).trans object
      exact same ▸ young digest row content writer time present stays written (still.trans attempted)
  | _ => trivial

/-- In a run of uploads, reads that forget and expiries, no row is ever younger than its
object's upload exactly if no registration sets the age of a row whose object an upload wrote
that attempted its own registration earlier. -/
theorem row_ages (ns : String) (moves : List AgedMove) :
    (∀ front, front <+: moves → ((start ns).run front).Young) ↔
      ∀ front move, front ++ [move] <+: moves → ((start ns).run front).Timely move := by
  have dated (front : List AgedMove) : ((start ns).run front).Dated := by
    induction front using List.reverseRecOn with
    | nil => exact start_dated ns
    | append_singleton front move ih =>
        rw [run, List.foldl_append]
        exact step_dated ih move
  constructor
  · intro young front move inside
    have after := young _ inside
    rw [run, List.foldl_append] at after
    exact step_timely after
  · intro timely front inside
    induction front using List.reverseRecOn with
    | nil =>
        intro digest row bytes writer time present
        cases present
    | append_singleton front move ih =>
        have before := ih ((List.prefix_append front [move]).trans inside)
        rw [run, List.foldl_append]
        exact step_young (dated front) before (timely front move inside)

end

section
attribute [local instance] Specimen.protocol

def lostRegistration : List AgedMove :=
  let digest : Digest := ⟨"blake3", Specimen.zeroBlake3, 1⟩
  [.begin digest [0], .put 0, .register 0 (.before .fault), .tick 86400000000,
    .begin digest [0], .put 1, .register 1 .none]

/-- The second upload met the object of the first, yet its row starts when it came. -/
theorem row_outlives_upload : ¬ ((start "acme").run lostRegistration).Young := by
  intro young
  have late := young ⟨"blake3", Specimen.zeroBlake3, 1⟩
    ⟨rowKey "acme" ⟨"blake3", Specimen.zeroBlake3, 1⟩, 86400000000, 86400000000⟩ [0] 0 0
    rfl rfl rfl rfl
  exact absurd late (by decide)

end
end AgedStore
end MbxCache
