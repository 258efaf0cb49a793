import MbxCache.Server.Footprints
import MbxCache.Server.Uploads

namespace MbxCache

open Concurrent Pack

variable [Protocol]

def storing : Footprint Api where
  Calls past
    | .put digest bytes => digest.Names bytes
    | .registerBlob _ digest _ => ∃ bytes outcome, ⟨.put digest bytes, .ok outcome⟩ ∈ past
    | .forgetBlob _ digest => ⟨.get digest, .ok none⟩ ∈ past
    | _ => True
  Jobs
    | .store _ digest bytes => digest.Names bytes
    | .read _ _ => True

theorem storing_reads (ns : String) (past : List (Asked Api)) (op : Op)
    (reads : (footprint .read ns).Calls past op) : storing.Calls past op := by
  cases op with
  | put digest bytes => cases reads
  | registerBlob other digest stored => cases reads.1
  | forgetBlob other digest => exact reads.2
  | _ => trivial

theorem storing_opens (ns : String) (job : Job) (reads : (footprint .read ns).Jobs job) :
    storing.Jobs job := by
  cases job with
  | store other digest bytes => cases reads.1
  | read other digest => trivial

namespace Handler

variable {A B : Type} {post : A → Prop}

/-- A handler that stores as it must, whatever it was answered before, and whose results meet a
condition. -/
def Stores (handler : Handler A) (post : A → Prop) : Prop :=
  ∀ past, Program.Obeys storing (fun result _ => ∀ value, result = .ok value → post value)
    handler past

namespace Stores

theorem bind {handler : Handler A} {next : A → Handler B} {final : B → Prop}
    (first : handler.Stores post) (rest : ∀ value, post value → (next value).Stores final) :
    (handler >>= next).Stores final := by
  intro past
  refine Program.Obeys.bind (first past) fun result later known => ?_
  cases result with
  | error error => exact fun value same => by cases same
  | ok value => exact rest value (known value rfl) later

theorem pureStep (result : Except ApiError A) :
    (Handler.pureStep result).Stores fun value => result = .ok value :=
  fun _ _ same => same

theorem pure {value : A} (holds : post value) : (Pure.pure value : Handler A).Stores post := by
  intro _ other same
  cases same
  exact holds

theorem refuse (error : ApiError) : (Handler.refuse error : Handler A).Stores post := by
  intro _ _ same
  cases same

theorem reads {handler : Handler A} (ns : String) (stays : handler.Stays .read ns) :
    handler.Stores fun _ => True := by
  intro past
  have within := (stays past).widen (storing_reads ns) (storing_opens ns)
  exact within.mono fun _ _ _ _ _ => trivial

theorem ask {op : Op} (allowed : ∀ past, storing.Calls past op) :
    Handler.Stores (A := op.Value) (.call op Handler.internally) fun _ => True :=
  fun past => ⟨allowed past, fun _ _ _ => trivial⟩

end Stores
end Handler

section Handlers
variable {ns : String}

theorem store_register_storing {A : Type} {post : A → Prop} {digest : Digest} {bytes : Bytes}
    {next : PutOutcome → Handler A} (names : digest.Names bytes)
    (rest : ∀ outcome, (next outcome).Stores post) :
    (store digest bytes >>= fun outcome =>
      register ns digest outcome >>= fun _ => next outcome).Stores post := by
  intro past
  refine ⟨names, fun put => ?_⟩
  cases put with
  | error failure => exact fun value same => by cases same
  | ok outcome =>
      refine ⟨⟨bytes, outcome, List.mem_append_right _ (List.mem_singleton_self _)⟩, ?_⟩
      intro registered
      cases registered with
      | error failure => exact fun value same => by cases same
      | ok done => exact rest outcome _

theorem receive_storing (config : ServerConfig) (digest : Digest) (chunks : List Bytes)
    {upload : Upload} (tracks : upload.Tracks digest) :
    (receive config digest chunks upload).Stores fun received => received.Tracks digest := by
  induction chunks generalizing upload with
  | nil => exact .pure tracks
  | cons chunk rest ih =>
      simp only [receive]
      split
      · exact .refuse _
      · split
        · exact .refuse _
        · apply Handler.Stores.bind (.pureStep _)
          intro algorithm found
          apply Handler.Stores.bind (.reads "" localIo_stays)
          intro _ _
          exact ih (tracks.write found chunk)

theorem putBlob_storing (config : ServerConfig) (headers : Headers)
    (parts : String × String × UInt64) (body : Body) :
    (putBlob config headers parts body).Stores fun _ => True := by
  apply Handler.Stores.bind (.pureStep _)
  intro ns _
  apply Handler.Stores.bind (.pureStep _)
  intro _ _
  apply Handler.Stores.bind (.pureStep _)
  intro digest _
  split
  · exact .refuse _
  · apply Handler.Stores.bind (.reads ns (reserve_stays config digest.size))
    intro _ _
    apply Handler.Stores.bind (.reads ns localIo_stays)
    intro _ _
    apply Handler.Stores.bind (receive_storing config digest body.chunks
      (show Upload.Tracks ⟨0, Hashing.new, []⟩ digest from Spooled.start digest))
    intro upload tracks
    apply Handler.Stores.bind (.pureStep _)
    intro _ _
    apply Handler.Stores.bind (.reads ns localIo_stays)
    intro _ _
    apply Handler.Stores.bind (.pureStep _)
    intro _ checked
    exact store_register_storing (checkUpload_names tracks checked) fun _ => .pure trivial

theorem commit_storing (action : Digest) (result : ActionResult) :
    (commit ns action result).Stores fun _ => True := by
  have decided : Handler.Stores (A := CommitStep) (.call (.commit ns action result)
      Handler.internally) fun _ => True := .ask fun _ => trivial
  apply Handler.Stores.bind decided
  intro step _
  cases step with
  | answered outcome => exact .pure trivial
  | pending => exact .ask fun _ => trivial

theorem putActionResult_storing (headers : Headers) (parts : String × String × UInt64)
    (result : ActionResult) : (putActionResult headers parts result).Stores fun _ => True := by
  apply Handler.Stores.bind (.pureStep _)
  intro ns _
  apply Handler.Stores.bind (.pureStep _)
  intro _ _
  apply Handler.Stores.bind (.pureStep _)
  intro action _
  apply Handler.Stores.bind (.pureStep _)
  intro _ _
  apply Handler.Stores.bind
    (.reads ns (.bind (readCanonicalObject_stays action _) fun _ => .pureStep _))
  intro kind _
  apply Handler.Stores.bind (.pureStep _)
  intro _ _
  apply Handler.Stores.bind
    (.reads ns (whenSome_stays _ fun metadata => validateClientMetadata_stays metadata kind))
  intro _ _
  apply Handler.Stores.bind (.reads ns (whenSome_stays _ fun root => visitTree_stays _ _ _))
  intro _ _
  apply Handler.Stores.bind (commit_storing action result)
  intro _ _
  apply Handler.Stores.bind (.pureStep _)
  intro _ _
  exact .pure trivial

theorem commitManifest_storing (key : Digest) (expected : Option String) (record : ManifestRecord) :
    (commitManifest ns key expected record).Stores fun _ => True :=
  .ask fun _ => trivial

theorem putActionManifest_storing (headers : Headers) (parts : String × String × UInt64)
    (body : Body) : (putActionManifest headers parts body).Stores fun _ => True := by
  apply Handler.Stores.bind (.pureStep _)
  intro ns _
  iterate 6
    apply Handler.Stores.bind (.pureStep _)
    intro _ _
  apply Handler.Stores.bind (commitManifest_storing _ _ _)
  intro _ _
  apply Handler.Stores.bind (.pureStep _)
  intro _ _
  exact .pure trivial

end Handlers

def Reads.Stores {A : Type} (reads : Reads A) : Prop :=
  ∀ past, Program.Obeys storing (fun result _ => result.1.Tracks) reads past

namespace Uploading

variable {A B : Type} {up : Uploading} {ns : String}

theorem refuse_storing {error : ApiError} (tracks : up.Tracks) :
    (up.refuse error : Reads A).Stores := fun _ => tracks

theorem done_storing {result : Except ApiError A} (tracks : up.Tracks) :
    Reads.Stores (.done (up, result)) := fun _ => tracks

theorem handle_storing {handler : Handler A} {next : A → Reads B} {mid : A → Prop}
    (tracks : up.Tracks) (stores : handler.Stores mid)
    (rest : ∀ value, mid value → (next value).Stores) : (up.handle handler next).Stores := by
  intro past
  refine Program.Obeys.bind (stores past) fun result later known => ?_
  cases result with
  | error error => exact refuse_storing tracks later
  | ok value => exact rest value (known value rfl) later

theorem proceed_storing {first : Reads A} {next : Uploading × Except ApiError A → Reads B}
    (stores : first.Stores)
    (failed : ∀ up error, next (up, .error error) = Uploading.refuse up error)
    (rest : ∀ up value, up.Tracks → (next (up, .ok value)).Stores) :
    Reads.Stores (first.bind next) := by
  intro past
  refine Program.Obeys.bind (stores past) fun result later tracks => ?_
  obtain ⟨up, result⟩ := result
  cases result with
  | error error =>
      rw [failed]
      exact refuse_storing tracks later
  | ok value => exact rest up value tracks later

theorem next_storing (tracks : up.Tracks) : up.next.Stores := by
  intro past id out
  simp only
  split <;> exact tracks

theorem makeRoom_storing (config : ServerConfig) (tracks : up.Tracks) :
    (up.makeRoom config).Stores := by
  unfold makeRoom
  split
  · exact next_storing tracks
  · exact done_storing tracks

/-- A frame goes to a store only when it is what its digest names. -/
theorem event_storing (config : ServerConfig) (event : PackEvent) (tracks : up.Tracks) :
    (up.event config ns event).Stores := by
  cases event with
  | started digest =>
      apply handle_storing tracks (.reads ns (reserve_stays config digest.size))
      intro _ _
      have fresh : (PackFrame.new digest).Stores fun frame => frame.Tracks :=
        .bind (.reads ns localIo_stays) fun _ _ => .pure (Spooled.start digest)
      apply handle_storing tracks fresh
      intro frame tracked
      apply done_storing
      intro other same
      cases same
      exact tracked
  | payload bytes =>
      cases open_ : up.frame with
      | none =>
          simp only [Uploading.event, open_]
          exact refuse_storing tracks
      | some frame =>
          simp only [Uploading.event, open_]
          have writes : (frame.write bytes).Stores fun frame => frame.Tracks := by
            apply Handler.Stores.bind (.pureStep _)
            intro algorithm found
            apply Handler.Stores.bind (.reads ns localIo_stays)
            intro _ _
            exact .pure ((tracks frame open_).write found bytes)
          apply handle_storing tracks writes
          intro written still
          apply done_storing
          intro other same
          cases same
          exact still
  | complete =>
      cases open_ : up.frame with
      | none =>
          simp only [Uploading.event, open_]
          exact refuse_storing tracks
      | some finished =>
          simp only [Uploading.event, open_]
          have taken : ({ up with frame := none } : Uploading).Tracks := fun _ none => by cases none
          have verifies : finished.verify.Stores fun _ => finished.check = .ok () :=
            .bind (.reads ns localIo_stays) fun _ _ => .pureStep _
          apply handle_storing taken verifies
          intro _ checked
          apply proceed_storing (makeRoom_storing config taken)
          · exact fun _ _ => rfl
          · intro up _ tracks' past
            exact ⟨PackFrame.check_names (tracks finished open_) checked,
              fun _ => tracks'⟩

theorem events_storing (config : ServerConfig) (events : List PackEvent) (tracks : up.Tracks) :
    (up.events config ns events).Stores := by
  induction events generalizing up with
  | nil => exact done_storing tracks
  | cons first rest ih =>
      apply proceed_storing (event_storing config first tracks)
      · exact fun _ _ => rfl
      · exact fun _ _ still => ih still

theorem chunks_storing (config : ServerConfig) (reader : PackReader) (chunks : List Bytes)
    (tracks : up.Tracks) : (up.chunks config ns reader chunks).Stores := by
  induction chunks generalizing up reader with
  | nil => exact done_storing tracks
  | cons chunk rest ih =>
      simp only [Uploading.chunks]
      split
      · exact refuse_storing tracks
      · apply proceed_storing (events_storing config _ tracks)
        · exact fun _ _ => rfl
        · exact fun _ _ still => ih _ still

theorem collect_storing (left : Nat) (tracks : up.Tracks) : (up.collect left).Stores := by
  induction left generalizing up with
  | zero => exact done_storing tracks
  | succ left ih =>
      apply proceed_storing (next_storing tracks)
      · exact fun _ _ => rfl
      · exact fun _ _ still => ih still

theorem drain_storing (stores : List Nat) (left : Nat) :
    (drain stores left).Stays storing := by
  induction left generalizing stores with
  | zero => exact .done _
  | succ left ih => exact .join fun id _ => ih _

theorem read_storing (config : ServerConfig) (reader : PackReader) (body : Body)
    (tracks : up.Tracks) : (up.read config ns reader body).Stores := by
  apply proceed_storing (chunks_storing config reader body.chunks tracks)
  · exact fun _ _ => rfl
  · intro up reader still
    simp only
    split
    · exact refuse_storing still
    · apply proceed_storing (collect_storing _ still)
      · exact fun _ _ => rfl
      · exact fun _ _ last => done_storing last

end Uploading

theorem putBlobPack_storing (config : ServerConfig) (headers : Headers) (body : Body) :
    (putBlobPack config headers body).Stores fun _ => True := by
  apply Handler.Stores.bind (.pureStep _)
  intro ns _
  apply Handler.Stores.bind (.pureStep _)
  rintro ⟨blobs, bytes⟩ _ past
  refine Program.Obeys.bind
    (Uploading.read_storing config _ body (fun _ none => by cases none) past) ?_
  rintro ⟨up, result⟩ later _
  cases result with
  | error error =>
      exact (Uploading.drain_storing _ _ later).bind fun _ _ _ _ same => by cases same
  | ok reader =>
      simp only
      split <;> exact fun _ _ => trivial

theorem Request.handler_storing (config : ServerConfig) (request : Request) :
    Program.Stays storing (request.handler config) := by
  suffices stores : Handler.Stores (request.handler config) fun _ => True from
    fun past => (stores past).mono fun _ _ _ => trivial
  cases authorized : request.authorized with
  | error error =>
      rw [request.handler_refused config authorized]
      exact .refuse error
  | ok ns =>
      cases request with
      | getBlob headers parts => exact .reads ns (getBlob_stays headers parts authorized)
      | putBlob headers parts body => exact putBlob_storing config headers parts body
      | putBlobPack headers body => exact putBlobPack_storing config headers body
      | missingBlobs headers digests =>
          exact .reads ns (missingBlobs_stays headers digests authorized)
      | packBlobs headers digests =>
          exact .reads ns (packBlobs_stays config headers digests authorized)
      | getActionResult headers parts =>
          exact .reads ns (getActionResult_stays headers parts authorized)
      | batchActionResults headers digests =>
          exact .reads ns (batchActionResults_stays headers digests authorized)
      | putActionResult headers parts result => exact putActionResult_storing headers parts result
      | getActionManifest headers parts =>
          exact .reads ns (getActionManifest_stays headers parts authorized)
      | putActionManifest headers parts body => exact putActionManifest_storing headers parts body

theorem Job.body_storing (job : Job) (starts : storing.Jobs job) : job.body.Stays storing := by
  cases job with
  | store ns digest bytes =>
      intro past
      refine ⟨starts, fun put => ?_⟩
      cases put with
      | error failure => trivial
      | ok outcome =>
          refine ⟨⟨bytes, outcome, List.mem_append_right _ (List.mem_singleton_self _)⟩, ?_⟩
          intro registered
          cases registered <;> trivial
  | read ns digest =>
      intro past
      exact (openEntry_stays digest past).widen (storing_reads ns) (storing_opens ns)

end MbxCache
