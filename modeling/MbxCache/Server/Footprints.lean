import MbxCache.Concurrent.Footprint
import MbxCache.Server.Router

namespace MbxCache

open Concurrent Pack

/-- What a request may ask for once it is authorized for a namespace: only writers
write, and a row is dropped only when its object was found absent. -/
def footprint (access : Access) (ns : String) : Footprint Api where
  Calls past
    | .put _ _ => access = .write
    | .registerBlob other _ _ => access = .write ∧ other = ns
    | .commit other _ _ => access = .write ∧ other = ns
    | .commitManifest other _ _ _ => access = .write ∧ other = ns
    | .forgetBlob other digest => other = ns ∧ ⟨.get digest, .ok none⟩ ∈ past
    | _ => True
  Jobs
    | .store other _ _ => access = .write ∧ other = ns
    | .read other _ => access = .read ∧ other = ns

namespace Handler

variable {A B : Type} {access : Access} {ns : String}

def Stays (access : Access) (ns : String) (handler : Handler A) : Prop :=
  Program.Stays (footprint access ns) handler

namespace Stays

theorem bind {handler : Handler A} {next : A → Handler B} (first : handler.Stays access ns)
    (rest : ∀ value, (next value).Stays access ns) : (handler >>= next).Stays access ns :=
  Program.Stays.bindOk first rest

theorem pureStep (result : Except ApiError A) : (Handler.pureStep result).Stays access ns :=
  .done result

theorem pure (value : A) : (Pure.pure value : Handler A).Stays access ns := .done _

theorem refuse (error : ApiError) : (Handler.refuse error : Handler A).Stays access ns := .done _

theorem ask {op : Op} (allowed : ∀ past, (footprint access ns).Calls past op) :
    Handler.Stays (A := op.Value) access ns (.call op Handler.internally) :=
  .call allowed fun _ => .done _

end Stays
end Handler

section Handlers
variable {access : Access} {ns : String}

theorem localIo_stays : localIo.Stays access ns := .ask fun _ => trivial

theorem visibleBlobs_stays (digests : List Digest) :
    (visibleBlobs ns digests).Stays access ns := .ask fun _ => trivial

theorem isVisible_stays (digest : Digest) : (isVisible ns digest).Stays access ns :=
  .bind (visibleBlobs_stays [digest]) fun _ => .pure _

theorem fetch_stays {A : Type} (digest : Digest) {absent : Handler A} {present : Blob → Handler A}
    (gone : absent.Stays access ns) (opened : ∀ blob, (present blob).Stays access ns) :
    (fetch digest >>= fun found : Option Blob =>
      match found with
      | none => forgetMissingBlob ns digest >>= fun _ => absent
      | some blob => present blob : Handler A).Stays access ns := by
  intro past
  refine ⟨trivial, ?_⟩
  intro value
  cases value with
  | error failure => exact Program.Stays.done _ _
  | ok found =>
      cases found with
      | none =>
          refine ⟨⟨rfl, by simp⟩, ?_⟩
          intro _
          exact gone _
      | some blob => exact opened blob _

theorem getBlob_stays (headers : Headers) (parts : String × String × UInt64)
    (authorized : headers.authorize .read = .ok ns) :
    (getBlob headers parts).Stays .read ns := by
  rw [getBlob, authorized, Handler.pureStep_ok]
  apply Handler.Stays.bind (.pureStep _)
  intro digest
  apply Handler.Stays.bind (isVisible_stays digest)
  intro visible
  cases visible with
  | false => exact .refuse _
  | true => exact fetch_stays digest (.refuse _) fun _ => .pure _

theorem readVisible_stays (digest : Digest) (missing : ApiError) :
    (readVisible ns digest missing).Stays access ns := by
  apply Handler.Stays.bind (isVisible_stays digest)
  intro visible
  cases visible with
  | false => exact .refuse _
  | true => exact fetch_stays digest (.refuse _) fun _ => .pureStep _

theorem requireBlob_stays (digest : Digest) (label : String) :
    (requireBlob ns digest label).Stays access ns := by
  apply Handler.Stays.bind (.pureStep _)
  intro _
  apply Handler.Stays.bind (isVisible_stays digest)
  intro visible
  cases visible with
  | false => exact .refuse _
  | true => exact .pure ()

theorem validateOutputs_stays {A : Type} (kind : String) (decode : Json → Except String A)
    (valid : A → Bool) (stdout stderr : A → Digest) (value : Json) (version : UInt64) :
    (validateOutputs ns kind decode valid stdout stderr value version).Stays access ns := by
  unfold validateOutputs
  split
  · exact .refuse _
  · apply Handler.Stays.bind (.pureStep _)
    intro metadata
    apply Handler.Stays.bind (requireBlob_stays _ _)
    intro _
    exact requireBlob_stays _ _

theorem whenSome_stays {A : Type} (subject : Option A) {check : A → Handler Unit}
    (stays : ∀ value, (check value).Stays access ns) :
    (whenSome subject check).Stays access ns := by
  cases subject with
  | none => exact .pure ()
  | some value => exact stays value

theorem missingBlobs_stays (headers : Headers) (digests : List Digest)
    (authorized : headers.authorize .read = .ok ns) :
    (missingBlobs headers digests).Stays .read ns := by
  rw [missingBlobs, authorized, Handler.pureStep_ok]
  split
  · exact .refuse _
  · apply Handler.Stays.bind (.pureStep _)
    intro _
    apply Handler.Stays.bind (visibleBlobs_stays digests)
    intro visible
    exact .pure _

theorem acquire_stays (permits : Nat) : (acquire permits).Stays access ns := by
  apply Program.Stays.call fun _ => trivial
  intro granted
  split <;> exact .done _

theorem reserve_stays (config : ServerConfig) (bytes : UInt64) :
    (reserve config bytes).Stays access ns := by
  unfold reserve
  split
  · exact .pure ()
  · simp only
    split
    · exact .refuse _
    · exact acquire_stays _

theorem store_stays (digest : Digest) (bytes : Bytes) : (store digest bytes).Stays .write ns :=
  .ask fun _ => rfl

theorem register_stays (digest : Digest) (stored : PutOutcome) :
    (register ns digest stored).Stays .write ns := .ask fun _ => ⟨rfl, rfl⟩

theorem getBatch_stays (actions : List Digest) : (getBatch ns actions).Stays access ns :=
  .ask fun _ => trivial

theorem getResult_stays (action : Digest) : (getResult ns action).Stays access ns :=
  .ask fun _ => trivial

theorem getManifest_stays (key : Digest) : (getManifest ns key).Stays access ns :=
  .ask fun _ => trivial

theorem commitManifest_stays (key : Digest) (expected : Option String)
    (record : ManifestRecord) : (commitManifest ns key expected record).Stays .write ns :=
  .ask fun _ => ⟨rfl, rfl⟩

theorem commit_stays (action : Digest) (result : ActionResult) :
    (commit ns action result).Stays .write ns := by
  have decided : Handler.Stays (A := CommitStep) .write ns
      (.call (.commit ns action result) Handler.internally) := .ask fun _ => ⟨rfl, rfl⟩
  apply Handler.Stays.bind decided
  intro step
  cases step with
  | answered outcome => exact .pure _
  | pending => exact .ask fun _ => trivial

theorem getActionResult_stays (headers : Headers) (parts : String × String × UInt64)
    (authorized : headers.authorize .read = .ok ns) :
    (getActionResult headers parts).Stays .read ns := by
  rw [getActionResult, authorized, Handler.pureStep_ok]
  apply Handler.Stays.bind (.pureStep _)
  intro action
  apply Handler.Stays.bind (getResult_stays action)
  intro found
  cases found with
  | none => exact .refuse _
  | some result => exact .pure _

theorem batchActionResults_stays (headers : Headers) (digests : List Digest)
    (authorized : headers.authorize .read = .ok ns) :
    (batchActionResults headers digests).Stays .read ns := by
  rw [batchActionResults, authorized, Handler.pureStep_ok]
  split
  · exact .refuse _
  · apply Handler.Stays.bind (.pureStep _)
    intro requested
    apply Handler.Stays.bind (getBatch_stays requested)
    intro results
    exact .pure _

variable [Protocol]

theorem receive_stays (config : ServerConfig) (digest : Digest) (chunks : List Bytes)
    (upload : Upload) : (receive config digest chunks upload).Stays access ns := by
  induction chunks generalizing upload with
  | nil => exact .pure _
  | cons chunk rest ih =>
      unfold receive
      simp only
      split
      · exact .refuse _
      · split
        · exact .refuse _
        · apply Handler.Stays.bind (.pureStep _)
          intro algorithm
          apply Handler.Stays.bind localIo_stays
          intro _
          exact ih _

theorem putBlob_stays (config : ServerConfig) (headers : Headers)
    (parts : String × String × UInt64) (body : Body)
    (authorized : headers.authorize .write = .ok ns) :
    (putBlob config headers parts body).Stays .write ns := by
  rw [putBlob, authorized, Handler.pureStep_ok]
  apply Handler.Stays.bind (.pureStep _)
  intro _
  apply Handler.Stays.bind (.pureStep _)
  intro digest
  split
  · exact .refuse _
  · apply Handler.Stays.bind (reserve_stays config digest.size)
    intro _
    apply Handler.Stays.bind localIo_stays
    intro _
    apply Handler.Stays.bind (receive_stays config digest body.chunks _)
    intro upload
    apply Handler.Stays.bind (.pureStep _)
    intro _
    apply Handler.Stays.bind localIo_stays
    intro _
    apply Handler.Stays.bind (.pureStep _)
    intro _
    apply Handler.Stays.bind (store_stays digest upload.file)
    intro outcome
    apply Handler.Stays.bind (register_stays digest outcome)
    intro _
    exact .pure _

theorem getActionManifest_stays (headers : Headers) (parts : String × String × UInt64)
    (authorized : headers.authorize .read = .ok ns) :
    (getActionManifest headers parts).Stays .read ns := by
  rw [getActionManifest, authorized, Handler.pureStep_ok]
  apply Handler.Stays.bind (.pureStep _)
  intro key
  apply Handler.Stays.bind (getManifest_stays key)
  intro found
  apply Handler.Stays.bind (.pureStep _)
  intro record
  apply Handler.Stays.bind (.pureStep _)
  intro body
  exact .pure _

theorem putActionManifest_stays (headers : Headers) (parts : String × String × UInt64)
    (body : Body) (authorized : headers.authorize .write = .ok ns) :
    (putActionManifest headers parts body).Stays .write ns := by
  rw [putActionManifest, authorized, Handler.pureStep_ok]
  apply Handler.Stays.bind (.pureStep _)
  intro bytes
  apply Handler.Stays.bind (.pureStep _)
  intro manifest
  apply Handler.Stays.bind (.pureStep _)
  intro key
  apply Handler.Stays.bind (.pureStep _)
  intro _
  apply Handler.Stays.bind (.pureStep _)
  intro expected
  apply Handler.Stays.bind (.pureStep _)
  intro canonical
  apply Handler.Stays.bind (commitManifest_stays key expected _)
  intro outcome
  apply Handler.Stays.bind (.pureStep _)
  intro status
  exact .pure _

end Handlers

section Packs
variable {access : Access} {ns : String}

theorem startReads_stays (room : Nat) (entries : List ServedEntry) (window : List Reading) :
    (startReads ns room entries window).Stays (footprint .read ns) := by
  induction room generalizing entries window with
  | zero => exact .done _
  | succ room ih =>
      cases entries with
      | nil => exact .done _
      | cons entry rest => exact .spawn ⟨rfl, rfl⟩ fun id => ih rest _

theorem streamPack_stays (left : Nat) (entries : List ServedEntry) (window : List Reading)
    (sent : List Bytes) : (streamPack ns left entries window sent).Stays (footprint .read ns) := by
  induction left generalizing entries window sent with
  | zero => exact .done _
  | succ left ih =>
      unfold streamPack
      apply Program.Stays.bind (startReads_stays _ entries window)
      rintro ⟨waiting, window⟩
      cases window with
      | nil => exact .done _
      | cons reading others =>
          apply Program.Stays.join
          intro _ out
          simp only
          split
          · split
            · exact ih _ _ _
            · exact .done _
          · exact .done _

theorem storeFrame_stays (digest : Digest) (bytes : Bytes) :
    (storeFrame ns digest bytes).Stays (footprint .write ns) := by
  apply Program.Stays.call fun _ => rfl
  intro put
  cases put with
  | error failure => exact .done _
  | ok outcome =>
      refine Program.Stays.call (fun _ => ⟨rfl, rfl⟩) ?_
      intro registered
      cases registered <;> exact .done _

theorem openEntry_stays (digest : Digest) :
    (openEntry ns digest).Stays (footprint access ns) := by
  intro past
  refine ⟨trivial, ?_⟩
  intro found
  cases found with
  | error failure => trivial
  | ok found =>
      cases found with
      | none => exact ⟨⟨rfl, by simp⟩, fun _ => trivial⟩
      | some blob =>
          simp only
          split <;> trivial

/-- A job of an authorized request asks for nothing the request is not authorized for. -/
theorem Job.body_stays (job : Job) (started : (footprint access ns).Jobs job) :
    job.body.Stays (footprint access ns) := by
  cases job with
  | store other digest bytes =>
      obtain ⟨rfl, rfl⟩ := started
      exact storeFrame_stays digest bytes
  | read other digest =>
      obtain ⟨rfl, rfl⟩ := started
      exact openEntry_stays digest

variable [Protocol]

theorem packBlobs_stays (config : ServerConfig) (headers : Headers) (digests : List Digest)
    (authorized : headers.authorize .read = .ok ns) :
    (packBlobs config headers digests).Stays .read ns := by
  rw [packBlobs, authorized, Handler.pureStep_ok]
  split
  · exact .refuse _
  · apply Handler.Stays.bind (.pureStep _)
    intro requested
    apply Handler.Stays.bind (visibleBlobs_stays requested)
    intro visible
    apply Handler.Stays.bind (.pureStep _)
    intro pack
    apply Handler.Stays.bind
    · exact Program.Stays.bind (streamPack_stays _ _ _ _) fun _ => .done _
    · intro stream
      exact .pure _

end Packs

namespace Uploading

variable [Protocol] {A B : Type} {ns : String} (up : Uploading)

theorem handle_stays {handler : Handler A} {next : A → Reads B} (first : handler.Stays .write ns)
    (rest : ∀ value, (next value).Stays (footprint .write ns)) :
    (up.handle handler next).Stays (footprint .write ns) := by
  apply Program.Stays.bind first
  intro result
  cases result with
  | error error => exact .done _
  | ok value => exact rest value

theorem proceed_stays {first : Reads A} {next : Uploading × Except ApiError A → Reads B}
    (begins : first.Stays (footprint .write ns))
    (fails : ∀ up error, next (up, .error error) = up.refuse error)
    (rest : ∀ up value, (next (up, .ok value)).Stays (footprint .write ns)) :
    (first.bind next).Stays (footprint .write ns) := by
  apply Program.Stays.bind begins
  rintro ⟨up, result⟩
  cases result with
  | error error =>
      rw [fails]
      exact .done _
  | ok value => exact rest up value

theorem next_stays : up.next.Stays (footprint .write ns) := by
  apply Program.Stays.join
  intro id out
  simp only
  split <;> exact .done _

theorem makeRoom_stays (config : ServerConfig) :
    (up.makeRoom config).Stays (footprint .write ns) := by
  unfold makeRoom
  split
  · exact up.next_stays
  · exact .done _

theorem new_stays (digest : Digest) : (PackFrame.new digest).Stays .write ns :=
  .bind localIo_stays fun _ => .pure _

theorem write_stays (frame : PackFrame) (payload : Bytes) :
    (frame.write payload).Stays .write ns := by
  apply Handler.Stays.bind (.pureStep _)
  intro algorithm
  apply Handler.Stays.bind localIo_stays
  intro _
  exact .pure _

theorem verify_stays (frame : PackFrame) : frame.verify.Stays .write ns :=
  .bind localIo_stays fun _ => .pureStep _

theorem event_stays (config : ServerConfig) (event : PackEvent) :
    (up.event config ns event).Stays (footprint .write ns) := by
  cases event with
  | started digest =>
      apply up.handle_stays (reserve_stays config digest.size)
      intro _
      apply up.handle_stays (new_stays digest)
      intro frame
      exact .done _
  | payload bytes =>
      unfold event
      cases up.frame with
      | none => exact .done _
      | some frame => exact up.handle_stays (write_stays frame bytes) fun _ => .done _
  | complete =>
      unfold event
      cases up.frame with
      | none => exact .done _
      | some finished =>
          apply handle_stays _ (verify_stays finished)
          intro _
          refine proceed_stays (makeRoom_stays _ config) (fun _ _ => rfl) ?_
          intro up _
          exact .spawn ⟨rfl, rfl⟩ fun id => .done _

theorem events_stays (config : ServerConfig) (events : List PackEvent) :
    (up.events config ns events).Stays (footprint .write ns) := by
  induction events generalizing up with
  | nil => exact .done _
  | cons first rest ih =>
      refine proceed_stays (up.event_stays config first) (fun _ _ => rfl) ?_
      intro up _
      exact ih up

theorem chunks_stays (config : ServerConfig) (reader : PackReader) (chunks : List Bytes) :
    (up.chunks config ns reader chunks).Stays (footprint .write ns) := by
  induction chunks generalizing up reader with
  | nil => exact .done _
  | cons chunk rest ih =>
      unfold Uploading.chunks
      split
      · exact .done _
      · refine proceed_stays (up.events_stays config _) (fun _ _ => rfl) ?_
        intro up _
        exact ih up _

theorem collect_stays (left : Nat) : (up.collect left).Stays (footprint .write ns) := by
  induction left generalizing up with
  | zero => exact .done _
  | succ left ih =>
      refine proceed_stays up.next_stays (fun _ _ => rfl) ?_
      intro up _
      exact ih up

omit [Protocol] in
theorem drain_stays (stores : List Nat) (left : Nat) :
    (drain stores left).Stays (footprint .write ns) := by
  induction left generalizing stores with
  | zero => exact .done _
  | succ left ih => exact .join fun id _ => ih _

theorem read_stays (config : ServerConfig) (reader : PackReader) (body : Body) :
    (up.read config ns reader body).Stays (footprint .write ns) := by
  refine proceed_stays (up.chunks_stays config reader body.chunks) (fun _ _ => rfl) ?_
  intro up reader
  simp only
  split
  · exact .done _
  · refine proceed_stays (up.collect_stays _) (fun _ _ => rfl) ?_
    intro up _
    exact .done _

end Uploading

section Requests
variable [Protocol] {access : Access} {ns : String}

theorem putBlobPack_stays (config : ServerConfig) (headers : Headers) (body : Body)
    (authorized : headers.authorize .write = .ok ns) :
    (putBlobPack config headers body).Stays .write ns := by
  rw [putBlobPack, authorized, Handler.pureStep_ok]
  apply Handler.Stays.bind (.pureStep _)
  rintro ⟨blobs, bytes⟩
  apply Program.Stays.bind (Uploading.read_stays _ config _ body)
  rintro ⟨up, result⟩
  cases result with
  | error error => exact .bind (Uploading.drain_stays _ _) fun _ => .done _
  | ok reader =>
      simp only
      split <;> exact .done _

theorem readCanonicalObject_stays (digest : Digest) (label : String) :
    (readCanonicalObject ns digest label).Stays access ns := by
  apply Handler.Stays.bind (.pureStep _)
  intro _
  split
  · exact .refuse _
  · apply Handler.Stays.bind (readVisible_stays digest _)
    intro bytes
    exact .pureStep _

theorem validateClientMetadata_stays (digest : Digest) (kind : ActionKind) :
    (validateClientMetadata ns digest kind).Stays access ns := by
  apply Handler.Stays.bind (readCanonicalObject_stays digest _)
  intro value
  apply Handler.Stays.bind (.pureStep _)
  intro version
  cases kind with
  | task => exact .pureStep _
  | buildScript => exact validateOutputs_stays _ _ _ _ _ _ _
  | cc => exact validateOutputs_stays _ _ _ _ _ _ _
  | rustc => exact validateOutputs_stays _ _ _ _ _ _ _

theorem validateDirectory_stays (digest : Digest) :
    (validateDirectory ns digest).Stays access ns := by
  unfold validateDirectory
  split
  · exact .refuse _
  · apply Handler.Stays.bind (readVisible_stays digest _)
    intro bytes
    apply Handler.Stays.bind (.pureStep _)
    intro directory
    apply Handler.Stays.bind (visibleBlobs_stays _)
    intro visible
    split
    · exact .refuse _
    · exact .pure _

theorem visitTree_stays (pending : List Visit) (visiting seen : Finset Digest) :
    (visitTree ns pending visiting seen).Stays access ns := by
  induction pending, visiting, seen using visitTree.induct with
  | case1 visiting seen =>
      rw [visitTree]
      exact .pure ()
  | case2 visiting seen digest rest ih =>
      rw [visitTree]
      exact ih
  | case3 visiting seen digest rest unseen ih =>
      rw [visitTree, dif_pos unseen]
      exact ih
  | case4 visiting seen digest rest unseen fresh =>
      rw [visitTree, dif_neg unseen, dif_pos fresh]
      exact .refuse _
  | case5 visiting seen digest rest unseen fresh room =>
      rw [visitTree, dif_neg unseen, dif_neg fresh, dif_pos room]
      exact .refuse _
  | case6 visiting seen digest rest unseen fresh room ih =>
      rw [visitTree, dif_neg unseen, dif_neg fresh, dif_neg room]
      exact Handler.Stays.bind (validateDirectory_stays digest) fun children => ih children

theorem putActionResult_stays (headers : Headers) (parts : String × String × UInt64)
    (result : ActionResult) (authorized : headers.authorize .write = .ok ns) :
    (putActionResult headers parts result).Stays .write ns := by
  rw [putActionResult, authorized, Handler.pureStep_ok]
  apply Handler.Stays.bind (.pureStep _)
  intro _
  apply Handler.Stays.bind (.pureStep _)
  intro action
  apply Handler.Stays.bind (.pureStep _)
  intro _
  apply Handler.Stays.bind
  · exact .bind (readCanonicalObject_stays action _) fun _ => .pureStep _
  intro kind
  apply Handler.Stays.bind (.pureStep _)
  intro _
  apply Handler.Stays.bind
  · exact whenSome_stays _ fun metadata => validateClientMetadata_stays metadata kind
  intro _
  apply Handler.Stays.bind
  · exact whenSome_stays _ fun root => visitTree_stays _ _ _
  intro _
  apply Handler.Stays.bind (commit_stays action result)
  intro outcome
  apply Handler.Stays.bind (.pureStep _)
  intro status
  exact .pure _

namespace Request

def footprint (request : Request) : Footprint Api :=
  match request.authorized with
  | .ok ns => MbxCache.footprint request.access ns
  | .error _ => ⟨fun _ _ => False, fun _ => False⟩

/-- A request stays within its footprint. -/
theorem handler_stays (config : ServerConfig) (request : Request) :
    Program.Stays request.footprint (request.handler config) := by
  unfold footprint
  cases authorized : request.authorized with
  | error error =>
      rw [request.handler_refused config authorized]
      exact .done _
  | ok ns =>
      cases request with
      | getBlob headers parts => exact getBlob_stays headers parts authorized
      | putBlob headers parts body => exact putBlob_stays config headers parts body authorized
      | putBlobPack headers body => exact putBlobPack_stays config headers body authorized
      | missingBlobs headers digests => exact missingBlobs_stays headers digests authorized
      | packBlobs headers digests => exact packBlobs_stays config headers digests authorized
      | getActionResult headers parts => exact getActionResult_stays headers parts authorized
      | batchActionResults headers digests =>
          exact batchActionResults_stays headers digests authorized
      | putActionResult headers parts result =>
          exact putActionResult_stays headers parts result authorized
      | getActionManifest headers parts => exact getActionManifest_stays headers parts authorized
      | putActionManifest headers parts body =>
          exact putActionManifest_stays headers parts body authorized

omit [Protocol] in
theorem footprint_jobs (request : Request) (job : Job) (started : request.footprint.Jobs job) :
    job.body.Stays request.footprint := by
  unfold footprint at started ⊢
  split at started
  · exact job.body_stays started
  · exact started.elim

end Request
end Requests
end MbxCache
