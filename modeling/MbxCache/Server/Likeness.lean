import MbxCache.Concurrent.Alike
import MbxCache.Server.PackStores
import MbxCache.Server.PackStream
import MbxCache.Server.Router
import MbxCache.Server.Undisturbed

namespace MbxCache

open Concurrent Pack

/-- Opening an object again gives the same bytes, perhaps in other pieces. -/
inductive Blob.Alike : Blob → Blob → Prop
  | opened (bytes : Bytes) (small : bytes.length < 2 ^ 64) (cuts cuts' : List Nat) :
      Alike ⟨UInt64.ofNat bytes.length, ByteStream.opened bytes cuts false⟩
        ⟨UInt64.ofNat bytes.length, ByteStream.opened bytes cuts' false⟩

inductive Op.Alike : Op → Op → Prop
  | same (op : Op) : Alike op op
  | register (ns : String) (digest : Digest) (stored stored' : PutOutcome) :
      Alike (.registerBlob ns digest stored) (.registerBlob ns digest stored')

inductive Op.Told : (op op' : Op) → Except Failure op.Value → Except Failure op'.Value → Prop
  | got (digest : Digest) {found found' : Option Blob}
      (alike : Option.Rel Blob.Alike found found') :
      Told (.get digest) (.get digest) (.ok found) (.ok found')
  | put (digest : Digest) (bytes : Bytes) (outcome outcome' : PutOutcome) :
      Told (.put digest bytes) (.put digest bytes) (.ok outcome) (.ok outcome')
  | registered (ns : String) (digest : Digest) (stored stored' : PutOutcome)
      (result : Except Failure Unit) :
      Told (.registerBlob ns digest stored) (.registerBlob ns digest stored') result result
  | same (op : Op) (plain : ∀ digest, op ≠ .get digest) (result : Except Failure op.Value) :
      Told op op result result

inductive Out.Alike : Out → Out → Prop
  | stored (outcome outcome' : PutOutcome) :
      Alike (.stored (.ok outcome)) (.stored (.ok outcome'))
  | failed (error : ApiError) : Alike (.stored (.error error)) (.stored (.error error))
  | opened {blob blob' : Option Blob} (alike : Option.Rel Blob.Alike blob blob') :
      Alike (.opened blob) (.opened blob')

structure Pairing where
  Starts : Job → Prop
  Waits : List Nat → List Nat → Prop
  Takes : List Nat → List Nat → Nat → Nat → Prop

structure Pairing.Serves (pairing : Pairing) : Prop where
  reads : ∀ ns digest, pairing.Starts (.read ns digest)
  one : ∀ id, pairing.Waits [id] [id]

structure Pairing.Gathers (pairing : Pairing) : Prop where
  stores : ∀ ns digest bytes, pairing.Starts (.store ns digest bytes)
  length : ∀ {ids ids'}, pairing.Waits ids ids' → ids.length = ids'.length
  none : pairing.Waits [] []
  started : ∀ {ids ids'} id, pairing.Waits ids ids' → pairing.Waits (ids ++ [id]) (ids' ++ [id])
  taken : ∀ {ids ids' id id'}, pairing.Waits ids ids' → pairing.Takes ids ids' id id' →
    pairing.Waits (ids.erase id) (ids'.erase id')

def likeness (pairing : Pairing) : Likeness Api :=
  ⟨Op.Alike, Op.Told, fun job job' => job = job' ∧ pairing.Starts job, Out.Alike, pairing.Waits,
    pairing.Takes⟩

inductive ResultAlike {A B : Type} (post : A → B → Prop) :
    Except ApiError A → Except ApiError B → Prop
  | refused (error : ApiError) : ResultAlike post (.error error) (.error error)
  | answered {value : A} {value' : B} (agree : post value value') :
      ResultAlike post (.ok value) (.ok value')

theorem ResultAlike.same {A : Type} (result : Except ApiError A) :
    ResultAlike Eq result result := by
  cases result with
  | error error => exact .refused error
  | ok value => exact .answered rfl

namespace Handler

variable {A B C D : Type} {pairing : Pairing}

def Alike (pairing : Pairing) (post : A → B → Prop) (handler : Handler A) (handler' : Handler B) :
    Prop :=
  Program.Alike (likeness pairing) (ResultAlike post) handler handler'

def Repeats (pairing : Pairing) (handler : Handler A) : Prop :=
  Handler.Alike pairing Eq handler handler

namespace Alike

variable {handler : Handler A} {handler' : Handler B} {post : A → B → Prop}

theorem bind {next : A → Handler C} {next' : B → Handler D} {final : C → D → Prop}
    (first : handler.Alike pairing post handler')
    (rest : ∀ value value', post value value' → (next value).Alike pairing final (next' value')) :
    (handler >>= next).Alike pairing final (handler' >>= next') := by
  apply Program.Alike.bind first
  intro result result' agree
  cases agree with
  | refused error => exact .refused error
  | answered agree => exact rest _ _ agree

theorem pure {value : A} {value' : B} (agree : post value value') :
    (Pure.pure value : Handler A).Alike pairing post (Pure.pure value') := .answered agree

theorem refuse (error : ApiError) :
    (Handler.refuse error : Handler A).Alike pairing post (Handler.refuse error : Handler B) :=
  .refused error

end Alike

namespace Repeats

theorem bind {handler : Handler A} {next : A → Handler B} {next' : A → Handler C}
    {post : B → C → Prop} (first : handler.Repeats pairing)
    (rest : ∀ value, (next value).Alike pairing post (next' value)) :
    (handler >>= next).Alike pairing post (handler >>= next') :=
  Handler.Alike.bind first fun value _ same => same ▸ rest value

theorem pureStep (result : Except ApiError A) : (Handler.pureStep result).Repeats pairing :=
  ResultAlike.same result

theorem pure (value : A) : (Pure.pure value : Handler A).Repeats pairing := .answered rfl

theorem refuse (error : ApiError) : (Handler.refuse error : Handler A).Repeats pairing :=
  .refused error

theorem ask (op : Op) (plain : ∀ digest, op ≠ .get digest)
    (put : ∀ digest bytes, op ≠ .put digest bytes) :
    Handler.Repeats (A := op.Value) pairing (.call op Handler.internally) := by
  refine ⟨.same op, fun value value' told => ?_⟩
  cases told with
  | got digest alike => exact absurd rfl (plain digest)
  | put digest bytes outcome outcome' => exact absurd rfl (put digest bytes)
  | registered ns digest stored stored' result => exact ResultAlike.same _
  | same op plain result => exact ResultAlike.same _

end Repeats
end Handler

section Reads
variable {pairing : Pairing} {ns : String}

theorem localIo_repeats : localIo.Repeats pairing := .ask .localIo (by simp) (by simp)

theorem visibleBlobs_repeats (digests : List Digest) :
    (visibleBlobs ns digests).Repeats pairing := .ask (.visibleBlobs ns digests) (by simp) (by simp)

theorem isVisible_repeats (digest : Digest) : (isVisible ns digest).Repeats pairing :=
  .bind (visibleBlobs_repeats [digest]) fun _ => .pure rfl

theorem forgetMissingBlob_repeats (digest : Digest) :
    (forgetMissingBlob ns digest).Repeats pairing := by
  refine ⟨.same _, fun value value' told => ?_⟩
  exact .answered rfl

theorem fetch_alike (digest : Digest) :
    (fetch digest).Alike pairing (Option.Rel Blob.Alike) (fetch digest) := by
  refine ⟨.same _, fun value value' told => ?_⟩
  cases told with
  | got digest alike => exact .answered alike
  | same op plain result => exact absurd rfl (plain digest)

theorem fetched_alike {A : Type} {post : A → A → Prop} (digest : Digest)
    {absent : Handler A} {present : Blob → Handler A} (gone : absent.Alike pairing post absent)
    (opened : ∀ blob blob', blob.Alike blob' →
      (present blob).Alike pairing post (present blob')) :
    Handler.Alike pairing post
      (fetch digest >>= fun found : Option Blob =>
        match found with
        | none => forgetMissingBlob ns digest >>= fun _ => absent
        | some blob => present blob : Handler A)
      (fetch digest >>= fun found : Option Blob =>
        match found with
        | none => forgetMissingBlob ns digest >>= fun _ => absent
        | some blob => present blob : Handler A) := by
  apply Handler.Alike.bind (fetch_alike digest)
  intro found found' alike
  cases alike with
  | none => exact Handler.Repeats.bind (forgetMissingBlob_repeats digest) fun _ => gone
  | some alike => exact opened _ _ alike

theorem readVisible_repeats (digest : Digest) (missing : ApiError) :
    (readVisible ns digest missing).Repeats pairing := by
  apply Handler.Repeats.bind (isVisible_repeats digest)
  intro visible
  cases visible with
  | false => exact .refuse _
  | true =>
      apply fetched_alike digest (.refuse _)
      intro blob blob' alike
      cases alike with
      | opened bytes small cuts cuts' =>
          simp only [opened_whole]
          exact ResultAlike.same _

theorem requireBlob_repeats (digest : Digest) (label : String) :
    (requireBlob ns digest label).Repeats pairing := by
  apply Handler.Repeats.bind (.pureStep _)
  intro _
  apply Handler.Repeats.bind (isVisible_repeats digest)
  intro visible
  cases visible with
  | false => exact .refuse _
  | true => exact .pure rfl

theorem validateOutputs_repeats {A : Type} (kind : String) (decode : Json → Except String A)
    (valid : A → Bool) (stdout stderr : A → Digest) (value : Json) (version : UInt64) :
    (validateOutputs ns kind decode valid stdout stderr value version).Repeats pairing := by
  unfold validateOutputs
  split
  · exact .refuse _
  · apply Handler.Repeats.bind (.pureStep _)
    intro metadata
    apply Handler.Repeats.bind (requireBlob_repeats _ _)
    intro _
    exact requireBlob_repeats _ _

theorem whenSome_repeats {A : Type} (subject : Option A) {check : A → Handler Unit}
    (repeats : ∀ value, (check value).Repeats pairing) :
    (whenSome subject check).Repeats pairing := by
  cases subject with
  | none => exact .pure ()
  | some value => exact repeats value

variable [Protocol]

theorem readCanonicalObject_repeats (digest : Digest) (label : String) :
    (readCanonicalObject ns digest label).Repeats pairing := by
  apply Handler.Repeats.bind (.pureStep _)
  intro _
  split
  · exact .refuse _
  · apply Handler.Repeats.bind (readVisible_repeats digest _)
    intro bytes
    exact ResultAlike.same _

theorem validateClientMetadata_repeats (digest : Digest) (kind : ActionKind) :
    (validateClientMetadata ns digest kind).Repeats pairing := by
  apply Handler.Repeats.bind (readCanonicalObject_repeats digest _)
  intro value
  apply Handler.Repeats.bind (.pureStep _)
  intro version
  cases kind with
  | task => exact ResultAlike.same _
  | buildScript => exact validateOutputs_repeats _ _ _ _ _ _ _
  | cc => exact validateOutputs_repeats _ _ _ _ _ _ _
  | rustc => exact validateOutputs_repeats _ _ _ _ _ _ _

theorem validateDirectory_repeats (digest : Digest) :
    (validateDirectory ns digest).Repeats pairing := by
  unfold validateDirectory
  split
  · exact .refuse _
  · apply Handler.Repeats.bind (readVisible_repeats digest _)
    intro bytes
    apply Handler.Repeats.bind (.pureStep _)
    intro directory
    apply Handler.Repeats.bind (visibleBlobs_repeats _)
    intro visible
    split
    · exact .refuse _
    · exact .pure rfl

theorem visitTree_repeats (pending : List Visit) (visiting seen : Finset Digest) :
    (visitTree ns pending visiting seen).Repeats pairing := by
  induction pending, visiting, seen using visitTree.induct with
  | case1 visiting seen =>
      rw [visitTree]
      exact .pure ()
  | case2 visiting seen digest rest ih =>
      rw [visitTree]
      exact ih
  | case3 visiting seen digest rest unseen ih =>
      rw [visitTree, dif_pos unseen]
      exact ih
  | case4 visiting seen digest rest unseen fresh =>
      rw [visitTree, dif_neg unseen, dif_pos fresh]
      exact .refuse _
  | case5 visiting seen digest rest unseen fresh room =>
      rw [visitTree, dif_neg unseen, dif_neg fresh, dif_pos room]
      exact .refuse _
  | case6 visiting seen digest rest unseen fresh room ih =>
      rw [visitTree, dif_neg unseen, dif_neg fresh, dif_neg room]
      exact Handler.Repeats.bind (validateDirectory_repeats digest) fun children => ih children

end Reads

inductive Content.Alike : Content → Content → Prop
  | same (content : Content) : Alike content content
  | stream {one other : ByteStream} (broken : one.broken = other.broken)
      (bytes : one.chunks.flatten = other.chunks.flatten) : Alike (.stream one) (.stream other)

structure Response.Alike (one other : Response) : Prop where
  status : one.status = other.status
  headers : one.headers = other.headers
  content : one.content.Alike other.content

theorem Response.Alike.same (response : Response) : response.Alike response := ⟨rfl, rfl, .same _⟩

/-- When two responses to a request agree: a stored blob may be reported as new or as already
there, and the blobs of a pack may be split into the two otherwise. -/
def Request.Agree : Request → Response → Response → Prop
  | .putBlob _ _ _, one, other =>
      (one.status = .created ∨ one.status = .noContent) ∧
        (other.status = .created ∨ other.status = .noContent) ∧
        one.headers = other.headers ∧ one.content = other.content
  | .putBlobPack _ _, one, other =>
      one.status = other.status ∧ one.headers = other.headers ∧
        ∃ created existing created' existing', one.content = .receipt created existing ∧
          other.content = .receipt created' existing' ∧
          created + existing = created' + existing'
  | _, one, other => one.Alike other

section Handlers
variable {pairing : Pairing} {ns : String}

theorem getBlob_alike (headers : Headers) (parts : String × String × UInt64) :
    (getBlob headers parts).Alike pairing Response.Alike (getBlob headers parts) := by
  apply Handler.Repeats.bind (.pureStep _)
  intro ns
  apply Handler.Repeats.bind (.pureStep _)
  intro digest
  apply Handler.Repeats.bind (isVisible_repeats digest)
  intro visible
  cases visible with
  | false => exact .refuse _
  | true =>
      apply fetched_alike digest (.refuse _)
      intro blob blob' alike
      cases alike with
      | opened bytes small cuts cuts' =>
          refine .pure ⟨rfl, rfl, .stream rfl ?_⟩
          simp [ByteStream.opened, ByteStream.split_flatten]

theorem missingBlobs_alike (headers : Headers) (digests : List Digest) :
    (missingBlobs headers digests).Alike pairing Response.Alike (missingBlobs headers digests) := by
  apply Handler.Repeats.bind (.pureStep _)
  intro ns
  split
  · exact .refuse _
  · apply Handler.Repeats.bind (.pureStep _)
    intro _
    apply Handler.Repeats.bind (visibleBlobs_repeats digests)
    intro visible
    exact .pure (.same _)

theorem getActionResult_alike (headers : Headers) (parts : String × String × UInt64) :
    (getActionResult headers parts).Alike pairing Response.Alike
      (getActionResult headers parts) := by
  apply Handler.Repeats.bind (.pureStep _)
  intro ns
  apply Handler.Repeats.bind (.pureStep _)
  intro action
  have told : (getResult ns action).Repeats pairing :=
    .ask (.getResult ns action) (by simp) (by simp)
  apply Handler.Repeats.bind told
  intro found
  cases found with
  | none => exact .refuse _
  | some result => exact .pure (.same _)

theorem batchActionResults_alike (headers : Headers) (digests : List Digest) :
    (batchActionResults headers digests).Alike pairing Response.Alike
      (batchActionResults headers digests) := by
  apply Handler.Repeats.bind (.pureStep _)
  intro ns
  split
  · exact .refuse _
  · apply Handler.Repeats.bind (.pureStep _)
    intro requested
    have told : (getBatch ns requested).Repeats pairing :=
      .ask (.getBatch ns requested) (by simp) (by simp)
    apply Handler.Repeats.bind told
    intro results
    exact .pure (.same _)

theorem commit_repeats (action : Digest) (result : ActionResult) :
    (commit ns action result).Repeats pairing := by
  have told : Handler.Repeats (A := CommitStep) pairing
      (.call (.commit ns action result) Handler.internally) :=
    .ask (.commit ns action result) (by simp) (by simp)
  apply Handler.Repeats.bind told
  intro step
  cases step with
  | answered outcome => exact .pure rfl
  | pending => exact Handler.Repeats.ask (.resolve ns action result) (by simp) (by simp)

theorem commitManifest_repeats (key : Digest) (expected : Option String)
    (record : ManifestRecord) : (commitManifest ns key expected record).Repeats pairing :=
  .ask (.commitManifest ns key expected record) (by simp) (by simp)

variable [Protocol]

theorem getActionManifest_alike (headers : Headers) (parts : String × String × UInt64) :
    (getActionManifest headers parts).Alike pairing Response.Alike
      (getActionManifest headers parts) := by
  apply Handler.Repeats.bind (.pureStep _)
  intro ns
  apply Handler.Repeats.bind (.pureStep _)
  intro key
  have told : (getManifest ns key).Repeats pairing := .ask (.getManifest ns key) (by simp) (by simp)
  apply Handler.Repeats.bind told
  intro found
  apply Handler.Repeats.bind (.pureStep _)
  intro record
  apply Handler.Repeats.bind (.pureStep _)
  intro body
  exact .pure (.same _)

theorem putActionManifest_alike (headers : Headers) (parts : String × String × UInt64)
    (body : Body) : (putActionManifest headers parts body).Alike pairing Response.Alike
      (putActionManifest headers parts body) := by
  apply Handler.Repeats.bind (.pureStep _)
  intro ns
  iterate 6
    apply Handler.Repeats.bind (.pureStep _)
    intro _
  apply Handler.Repeats.bind (commitManifest_repeats _ _ _)
  intro outcome
  apply Handler.Repeats.bind (.pureStep _)
  intro status
  exact .pure (.same _)

theorem putActionResult_alike (headers : Headers) (parts : String × String × UInt64)
    (result : ActionResult) : (putActionResult headers parts result).Alike pairing Response.Alike
      (putActionResult headers parts result) := by
  apply Handler.Repeats.bind (.pureStep _)
  intro ns
  apply Handler.Repeats.bind (.pureStep _)
  intro _
  apply Handler.Repeats.bind (.pureStep _)
  intro action
  apply Handler.Repeats.bind (.pureStep _)
  intro _
  apply Handler.Repeats.bind
  · exact Handler.Repeats.bind (readCanonicalObject_repeats action _) fun _ => ResultAlike.same _
  intro kind
  apply Handler.Repeats.bind (.pureStep _)
  intro _
  apply Handler.Repeats.bind
  · exact whenSome_repeats _ fun metadata => validateClientMetadata_repeats metadata kind
  intro _
  apply Handler.Repeats.bind
  · exact whenSome_repeats _ fun root => visitTree_repeats _ _ _
  intro _
  apply Handler.Repeats.bind (commit_repeats action result)
  intro outcome
  apply Handler.Repeats.bind (.pureStep _)
  intro status
  exact .pure (.same _)

end Handlers

section Uploads
variable {pairing : Pairing} {ns : String}

theorem acquire_repeats (permits : Nat) : (acquire permits).Repeats pairing := by
  refine ⟨.same _, fun value value' told => ?_⟩
  cases told with
  | same op plain result =>
      rcases value with failure | granted
      · exact .refused _
      · cases granted with
        | true => exact .answered rfl
        | false => exact .refused _

theorem reserve_repeats (config : ServerConfig) (bytes : UInt64) :
    (reserve config bytes).Repeats pairing := by
  unfold reserve
  split
  · exact .pure ()
  · simp only
    split
    · exact .refuse _
    · exact acquire_repeats _

theorem store_alike (digest : Digest) (bytes : Bytes) :
    (store digest bytes).Alike pairing (fun _ _ => True) (store digest bytes) := by
  refine ⟨.same _, fun value value' told => ?_⟩
  cases told with
  | put digest bytes outcome outcome' => exact .answered trivial
  | same op plain result =>
      cases value with
      | error failure => exact .refused _
      | ok outcome => exact .answered trivial

theorem register_alike (digest : Digest) (stored stored' : PutOutcome) :
    (register ns digest stored).Alike pairing Eq (register ns digest stored') := by
  refine ⟨.register ns digest stored stored', fun value value' told => ?_⟩
  cases told with
  | registered ns digest stored stored' result => exact ResultAlike.same _
  | same op plain result => exact ResultAlike.same _

theorem registering_alike (ns : String) (digest : Digest) (outcome outcome' : PutOutcome) :
    (registering ns digest outcome).Alike (likeness pairing) Out.Alike
      (registering ns digest outcome') := by
  refine ⟨.register ns digest outcome outcome', fun value value' told => ?_⟩
  cases told with
  | registered ns digest stored stored' result =>
      cases value with
      | error failure => exact .failed _
      | ok _ => exact .stored _ _
  | same op plain result =>
      cases value with
      | error failure => exact .failed _
      | ok _ => exact .stored _ _

theorem Job.body_alike (job : Job) :
    job.body.Alike (likeness pairing) Out.Alike job.body := by
  cases job with
  | store ns digest bytes =>
      refine ⟨.same _, fun put put' told => ?_⟩
      cases told with
      | put digest bytes outcome outcome' => exact registering_alike ns digest outcome outcome'
      | same op plain result =>
          cases put with
          | error failure => exact .failed _
          | ok outcome => exact registering_alike ns digest outcome outcome
  | read ns digest =>
      refine ⟨.same _, fun found found' told => ?_⟩
      cases told with
      | got digest alike =>
          cases alike with
          | none => exact ⟨.same _, fun _ _ _ => .opened .none⟩
          | some alike =>
              cases alike with
              | opened bytes small cuts cuts' =>
                  simp only
                  split
                  · exact .opened .none
                  · exact .opened (.some (.opened bytes small cuts cuts'))
      | same op plain result => exact absurd rfl (plain digest)

namespace Uploading

variable [Protocol]

structure Alike (pairing : Pairing) (up up' : Uploading) : Prop where
  frame : up.frame = up'.frame
  stores : pairing.Waits up.stores up'.stores
  receipt : up.receipt.created + up.receipt.existing = up'.receipt.created + up'.receipt.existing

def Agree {A : Type} (pairing : Pairing) (one other : Uploading × Except ApiError A) : Prop :=
  one.1.Alike pairing other.1 ∧ one.2 = other.2

variable {A B : Type} {up up' : Uploading}

theorem handle_alike {handler : Handler A} {next next' : A → Reads B}
    (alike : up.Alike pairing up') (first : handler.Repeats pairing)
    (rest : ∀ value, (next value).Alike (likeness pairing) (Agree pairing) (next' value)) :
    (up.handle handler next).Alike (likeness pairing) (Agree pairing)
      (up'.handle handler next') := by
  apply Program.Alike.bind first
  intro result result' same
  cases same with
  | refused error => exact ⟨alike, rfl⟩
  | answered same => exact same ▸ rest _

theorem proceed_alike {first first' : Reads A}
    {next next' : Uploading × Except ApiError A → Reads B}
    (begins : first.Alike (likeness pairing) (Agree pairing) first')
    (fails : ∀ up error, next (up, .error error) = up.refuse error)
    (fails' : ∀ up error, next' (up, .error error) = up.refuse error)
    (rest : ∀ up up' value, up.Alike pairing up' →
      (next (up, .ok value)).Alike (likeness pairing) (Agree pairing) (next' (up', .ok value))) :
    Program.Alike (likeness pairing) (Agree pairing) (first.bind next) (first'.bind next') := by
  apply Program.Alike.bind begins
  rintro ⟨up, result⟩ ⟨up', result'⟩ ⟨alike, same⟩
  cases same
  cases result with
  | error error =>
      rw [fails, fails']
      exact ⟨alike, rfl⟩
  | ok value => exact rest up up' value alike

theorem next_alike (gathers : pairing.Gathers) (alike : up.Alike pairing up') :
    up.next.Alike (likeness pairing) (Agree pairing) up'.next := by
  refine ⟨alike.stores, fun id id' out out' taken ended => ?_⟩
  have stores := gathers.taken alike.stores taken
  cases ended with
  | none => exact ⟨⟨alike.frame, stores, alike.receipt⟩, rfl⟩
  | some ended =>
      cases ended with
      | stored outcome outcome' =>
          have total := alike.receipt
          cases outcome <;> cases outcome' <;>
            exact ⟨⟨alike.frame, stores, by simp only; omega⟩, rfl⟩
      | failed error => exact ⟨⟨alike.frame, stores, alike.receipt⟩, rfl⟩
      | opened _ => exact ⟨⟨alike.frame, stores, alike.receipt⟩, rfl⟩

theorem makeRoom_alike (gathers : pairing.Gathers) (config : ServerConfig)
    (alike : up.Alike pairing up') :
    (up.makeRoom config).Alike (likeness pairing) (Agree pairing) (up'.makeRoom config) := by
  have length := gathers.length alike.stores
  have empty : up.stores.isEmpty = up'.stores.isEmpty := by
    rw [Bool.eq_iff_iff, List.isEmpty_iff_length_eq_zero, List.isEmpty_iff_length_eq_zero, length]
  unfold makeRoom
  rw [length, empty]
  split
  · exact next_alike gathers alike
  · exact ⟨alike, rfl⟩

theorem new_repeats (digest : Digest) : (PackFrame.new digest).Repeats pairing :=
  .bind localIo_repeats fun _ => .pure rfl

theorem write_repeats (frame : PackFrame) (payload : Bytes) :
    (frame.write payload).Repeats pairing := by
  apply Handler.Repeats.bind (.pureStep _)
  intro algorithm
  apply Handler.Repeats.bind localIo_repeats
  intro _
  exact .pure rfl

theorem verify_repeats (frame : PackFrame) : frame.verify.Repeats pairing :=
  .bind localIo_repeats fun _ => ResultAlike.same _

theorem event_alike (gathers : pairing.Gathers) (config : ServerConfig)
    (alike : up.Alike pairing up') (event : PackEvent) :
    (up.event config ns event).Alike (likeness pairing) (Agree pairing)
      (up'.event config ns event) := by
  cases event with
  | started digest =>
      apply handle_alike alike (reserve_repeats config digest.size)
      intro _
      apply handle_alike alike (new_repeats digest)
      intro frame
      exact ⟨⟨rfl, alike.stores, alike.receipt⟩, rfl⟩
  | payload bytes =>
      unfold event
      rw [alike.frame]
      cases up'.frame with
      | none => exact ⟨alike, rfl⟩
      | some frame =>
          apply handle_alike alike (write_repeats frame bytes)
          intro written
          exact ⟨⟨rfl, alike.stores, alike.receipt⟩, rfl⟩
  | complete =>
      unfold event
      rw [alike.frame]
      cases up'.frame with
      | none => exact ⟨alike, rfl⟩
      | some finished =>
          have taken : Alike pairing { up with frame := none } { up' with frame := none } :=
            ⟨rfl, alike.stores, alike.receipt⟩
          apply handle_alike taken (verify_repeats finished)
          intro _
          refine proceed_alike (makeRoom_alike gathers config taken) (fun _ _ => rfl)
            (fun _ _ => rfl) ?_
          intro up up' _ alike
          refine ⟨⟨rfl, gathers.stores ns finished.digest finished.file⟩, fun id => ?_⟩
          exact ⟨⟨alike.frame, gathers.started id alike.stores, alike.receipt⟩, rfl⟩

theorem events_alike (gathers : pairing.Gathers) (config : ServerConfig)
    (alike : up.Alike pairing up') (events : List PackEvent) :
    (up.events config ns events).Alike (likeness pairing) (Agree pairing)
      (up'.events config ns events) := by
  induction events generalizing up up' with
  | nil => exact ⟨alike, rfl⟩
  | cons first rest ih =>
      refine proceed_alike (event_alike gathers config alike first) (fun _ _ => rfl)
        (fun _ _ => rfl) ?_
      intro up up' _ alike
      exact ih alike

theorem chunks_alike (gathers : pairing.Gathers) (config : ServerConfig)
    (alike : up.Alike pairing up') (reader : PackReader) (chunks : List Bytes) :
    (up.chunks config ns reader chunks).Alike (likeness pairing) (Agree pairing)
      (up'.chunks config ns reader chunks) := by
  induction chunks generalizing up up' reader with
  | nil => exact ⟨alike, rfl⟩
  | cons chunk rest ih =>
      unfold Uploading.chunks
      split
      · exact ⟨alike, rfl⟩
      · refine proceed_alike (events_alike gathers config alike _) (fun _ _ => rfl)
          (fun _ _ => rfl) ?_
        intro up up' _ alike
        exact ih alike _

theorem collect_alike (gathers : pairing.Gathers) (alike : up.Alike pairing up') (left : Nat) :
    (up.collect left).Alike (likeness pairing) (Agree pairing) (up'.collect left) := by
  induction left generalizing up up' with
  | zero => exact ⟨alike, rfl⟩
  | succ left ih =>
      refine proceed_alike (next_alike gathers alike) (fun _ _ => rfl) (fun _ _ => rfl) ?_
      intro up up' _ alike
      exact ih alike

omit [Protocol] in
theorem drain_alike (gathers : pairing.Gathers) {stores stores' : List Nat}
    (waits : pairing.Waits stores stores') (left : Nat) :
    (drain stores left).Alike (likeness pairing) (fun _ _ => True) (drain stores' left) := by
  induction left generalizing stores stores' with
  | zero => exact trivial
  | succ left ih => exact ⟨waits, fun _ _ _ _ taken _ => ih (gathers.taken waits taken)⟩

theorem read_alike (gathers : pairing.Gathers) (config : ServerConfig)
    (alike : up.Alike pairing up') (reader : PackReader) (body : Body) :
    (up.read config ns reader body).Alike (likeness pairing) (Agree pairing)
      (up'.read config ns reader body) := by
  refine proceed_alike (chunks_alike gathers config alike reader body.chunks) (fun _ _ => rfl)
    (fun _ _ => rfl) ?_
  intro up up' reader alike
  simp only
  split
  · exact ⟨alike, rfl⟩
  · rw [gathers.length alike.stores]
    refine proceed_alike (collect_alike gathers alike _) (fun _ _ => rfl) (fun _ _ => rfl) ?_
    intro up up' _ alike
    exact ⟨alike, rfl⟩

end Uploading

variable [Protocol]

theorem receive_repeats (config : ServerConfig) (digest : Digest) (chunks : List Bytes)
    (upload : Upload) : (receive config digest chunks upload).Repeats pairing := by
  induction chunks generalizing upload with
  | nil => exact .pure upload
  | cons chunk rest ih =>
      unfold receive
      simp only
      split
      · exact .refuse _
      · split
        · exact .refuse _
        · apply Handler.Repeats.bind (.pureStep _)
          intro algorithm
          apply Handler.Repeats.bind localIo_repeats
          intro _
          exact ih _

theorem putBlob_alike (config : ServerConfig) (headers : Headers)
    (parts : String × String × UInt64) (body : Body) :
    (putBlob config headers parts body).Alike pairing (Request.putBlob headers parts body).Agree
      (putBlob config headers parts body) := by
  apply Handler.Repeats.bind (.pureStep _)
  intro ns
  apply Handler.Repeats.bind (.pureStep _)
  intro _
  apply Handler.Repeats.bind (.pureStep _)
  intro digest
  split
  · exact .refuse _
  · apply Handler.Repeats.bind (reserve_repeats config digest.size)
    intro _
    apply Handler.Repeats.bind localIo_repeats
    intro _
    apply Handler.Repeats.bind (receive_repeats config digest body.chunks _)
    intro upload
    apply Handler.Repeats.bind (.pureStep _)
    intro _
    apply Handler.Repeats.bind localIo_repeats
    intro _
    apply Handler.Repeats.bind (.pureStep _)
    intro _
    apply Handler.Alike.bind (store_alike digest upload.file)
    intro outcome outcome' _
    apply Handler.Alike.bind (register_alike digest outcome outcome')
    intro _ _ _
    refine .pure ⟨?_, ?_, rfl, rfl⟩
    · cases outcome <;> simp [putStatus]
    · cases outcome' <;> simp [putStatus]

theorem putBlobPack_alike (gathers : pairing.Gathers) (config : ServerConfig) (headers : Headers)
    (body : Body) :
    (putBlobPack config headers body).Alike pairing (Request.putBlobPack headers body).Agree
      (putBlobPack config headers body) := by
  apply Handler.Repeats.bind (.pureStep _)
  intro ns
  apply Handler.Repeats.bind (.pureStep _)
  rintro ⟨blobs, bytes⟩
  have start : Uploading.Alike pairing ⟨none, [], ⟨0, 0⟩⟩ ⟨none, [], ⟨0, 0⟩⟩ :=
    ⟨rfl, gathers.none, rfl⟩
  apply Program.Alike.bind (Uploading.read_alike gathers config start _ body)
  rintro ⟨up, result⟩ ⟨up', result'⟩ ⟨alike, same⟩
  cases same
  cases result with
  | error error =>
      simp only
      rw [gathers.length alike.stores]
      apply Program.Alike.bind (Uploading.drain_alike gathers alike.stores _)
      exact fun _ _ _ => .refused error
  | ok reader =>
      simp only
      split
      · exact .refused _
      · exact .answered ⟨rfl, rfl, _, _, _, _, rfl, rfl, alike.receipt⟩

end Uploads

section Packs
variable {pairing : Pairing} {ns : String}

theorem startReads_repeats (serves : pairing.Serves) (room : Nat) (entries : List ServedEntry)
    (window : List Reading) :
    (startReads ns room entries window).Alike (likeness pairing) Eq
      (startReads ns room entries window) := by
  induction room generalizing entries window with
  | zero => rfl
  | succ room ih =>
      cases entries with
      | nil => rfl
      | cons entry rest => exact ⟨⟨rfl, serves.reads ns entry.digest⟩, fun id => ih rest _⟩

def ByteStream.Alike (one other : ByteStream) : Prop :=
  one.broken = other.broken ∧ one.chunks.flatten = other.chunks.flatten

theorem servePayload_opened (bytes : Bytes) (small : bytes.length < 2 ^ 64) (cuts : List Nat) :
    servePayload (UInt64.ofNat bytes.length).toNat (ByteStream.opened bytes cuts false).broken
      (ByteStream.opened bytes cuts false).chunks 0 =
        ((ByteStream.opened bytes cuts false).chunks, true) := by
  obtain ⟨complete, sent⟩ := servePayload_complete (UInt64.ofNat bytes.length).toNat
    (ByteStream.opened bytes cuts false).broken (ByteStream.opened bytes cuts false).chunks 0
  have whole : (servePayload (UInt64.ofNat bytes.length).toNat
      (ByteStream.opened bytes cuts false).broken
      (ByteStream.opened bytes cuts false).chunks 0).2 = true := by
    refine complete.mpr ⟨rfl, ?_⟩
    rw [UInt64.toNat_ofNat_of_lt' small]
    simp [ByteStream.opened, ByteStream.split_flatten]
  exact Prod.ext (sent whole) whole

theorem streamPack_alike (serves : pairing.Serves) (left : Nat) (entries : List ServedEntry)
    (window : List Reading)
    {sent sent' : List Bytes} (same : sent.flatten = sent'.flatten) :
    (streamPack ns left entries window sent).Alike (likeness pairing) ByteStream.Alike
      (streamPack ns left entries window sent') := by
  induction left generalizing entries window sent sent' with
  | zero => exact ⟨rfl, same⟩
  | succ left ih =>
      unfold streamPack
      apply Program.Alike.bind (startReads_repeats serves _ entries window)
      rintro ⟨waiting, window⟩ _ rfl
      cases window with
      | nil => exact ⟨rfl, same⟩
      | cons reading others =>
          refine ⟨serves.one reading.id, fun _ _ out out' _ ended => ?_⟩
          cases ended with
          | none => exact ⟨rfl, same⟩
          | some ended =>
              cases ended with
              | stored outcome outcome' => exact ⟨rfl, same⟩
              | failed error => exact ⟨rfl, same⟩
              | opened alike =>
                  cases alike with
                  | none => exact ⟨rfl, same⟩
                  | some alike =>
                      cases alike with
                      | opened bytes small cuts cuts' =>
                          simp only [servePayload_opened bytes small, if_true]
                          apply ih
                          simp [same, ByteStream.opened, ByteStream.split_flatten]

variable [Protocol]

theorem packBlobs_alike (serves : pairing.Serves) (config : ServerConfig) (headers : Headers)
    (digests : List Digest) :
    (packBlobs config headers digests).Alike pairing Response.Alike
      (packBlobs config headers digests) := by
  apply Handler.Repeats.bind (.pureStep _)
  intro ns
  split
  · exact .refuse _
  · apply Handler.Repeats.bind (.pureStep _)
    intro requested
    apply Handler.Repeats.bind (visibleBlobs_repeats requested)
    intro visible
    apply Handler.Repeats.bind (.pureStep _)
    intro pack
    apply Handler.Alike.bind
    · exact Program.Alike.bind (streamPack_alike serves _ pack.entries [] rfl)
        fun stream stream' alike => .answered alike
    · intro stream stream' alike
      exact .pure ⟨rfl, rfl, .stream alike.1 alike.2⟩

/-- A request that is answered alike comes to responses that agree. -/
theorem Request.handler_alike (config : ServerConfig) (request : Request)
    (served : ∀ headers digests, request = .packBlobs headers digests → pairing.Serves)
    (uploaded : ∀ headers body, request = .putBlobPack headers body → pairing.Gathers) :
    (request.handler config).Alike pairing request.Agree (request.handler config) := by
  cases request with
  | getBlob headers parts => exact getBlob_alike headers parts
  | putBlob headers parts body => exact putBlob_alike config headers parts body
  | putBlobPack headers body =>
      exact putBlobPack_alike (uploaded headers body rfl) config headers body
  | missingBlobs headers digests => exact missingBlobs_alike headers digests
  | packBlobs headers digests =>
      exact packBlobs_alike (served headers digests rfl) config headers digests
  | getActionResult headers parts => exact getActionResult_alike headers parts
  | batchActionResults headers digests => exact batchActionResults_alike headers digests
  | putActionResult headers parts result => exact putActionResult_alike headers parts result
  | getActionManifest headers parts => exact getActionManifest_alike headers parts
  | putActionManifest headers parts body => exact putActionManifest_alike headers parts body

end Packs
end MbxCache
