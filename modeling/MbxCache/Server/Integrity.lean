import MbxCache.Server.Router
import MbxCache.Server.Tree
import MbxCache.Server.Uploads

namespace MbxCache

open Concurrent

variable [Protocol] {M : Type} [MetadataStore M] {ns : String} {state : Shared M}

theorem getBlob_ensures (headers : Headers) (parts : String × String × UInt64)
    (authorized : headers.authorize .read = .ok ns) :
    (getBlob headers parts).Ensures ns (fun _ _ => True) state := by
  apply Handler.Ensures.bind Handler.Ensures.pureStep
  intro found _ _ same
  rw [authorized] at same
  cases same
  apply Handler.Ensures.bind Handler.Ensures.pureStep
  intro digest _ _ _
  apply Handler.Ensures.bind (isVisible_ensures digest)
  intro visible _ _ seen
  cases visible with
  | false => exact .refuse
  | true =>
      apply Handler.Ensures.bind (fetch_ensures (seen rfl))
      rintro found _ _ ⟨bytes, cuts, broken, _, rfl⟩
      exact .pure fun _ _ => trivial

theorem missingBlobs_ensures (headers : Headers) (digests : List Digest)
    (authorized : headers.authorize .read = .ok ns) :
    (missingBlobs headers digests).Ensures ns (fun _ _ => True) state := by
  apply Handler.Ensures.bind Handler.Ensures.pureStep
  intro found _ _ same
  rw [authorized] at same
  cases same
  split
  · exact .refuse
  · apply Handler.Ensures.bind Handler.Ensures.pureStep
    intro _ _ _ _
    apply Handler.Ensures.bind (visibleBlobs_ensures digests)
    intro _ _ _ _
    exact .pure fun _ _ => trivial

theorem packEntries_subset {digests : List Digest} {pack packed : ServedPack}
    (built : packEntries digests pack = .ok packed) :
    ∀ entry ∈ packed.entries, entry ∈ pack.entries ∨ entry.digest ∈ digests := by
  induction digests generalizing pack with
  | nil =>
      cases built
      exact fun entry member => .inl member
  | cons digest rest ih =>
      simp only [packEntries, bind, Except.bind] at built
      split at built
      · cases built
      · split at built
        · cases built
        · split at built
          · cases built
          · intro entry member
            rcases ih built entry member with old | named
            · simp only [List.mem_append, List.mem_singleton] at old
              rcases old with old | rfl
              · exact .inl old
              · exact .inr List.mem_cons_self
            · exact .inr (List.mem_cons_of_mem _ named)

def SeesEntries (state : ServerState M) (ns : String) (entries : List ServedEntry) : Prop :=
  ∀ entry ∈ entries, state.Sees ns entry.digest

theorem SeesEntries.later {before after : ServerState M} {entries : List ServedEntry}
    (seen : SeesEntries before ns entries) (grows : ServerState.Grows before after) :
    SeesEntries after ns entries :=
  fun entry member => grows.rows ns entry.digest (seen entry member)

theorem startReads_safe (room : Nat) (entries : List ServedEntry) (window : List Reading)
    (seen : SeesEntries state.1 ns entries) :
    (sharing M).Safe ns (startReads ns room entries window)
      (fun result after => SeesEntries after.1 ns result.1) state := by
  induction room generalizing entries window state with
  | zero => exact Discipline.Safe.done fun _ grows => seen.later grows
  | succ room ih =>
      cases entries with
      | nil => exact Discipline.Safe.done fun _ _ _ member => by cases member
      | cons entry rest =>
          apply Discipline.Safe.spawn
          · exact fun after grows => ⟨rfl, grows.rows ns entry.digest
              (seen entry List.mem_cons_self)⟩
          · intro id after grows
            exact ih rest _ fun other member =>
              grows.rows ns other.digest (seen other (List.mem_cons_of_mem _ member))

theorem streamPack_safe (left : Nat) (entries : List ServedEntry) (window : List Reading)
    (sent : List Bytes) (seen : SeesEntries state.1 ns entries) :
    (sharing M).Safe ns (streamPack ns left entries window sent) (fun _ _ => True) state := by
  induction left generalizing entries window sent state with
  | zero => exact Discipline.Safe.done fun _ _ => trivial
  | succ left ih =>
      apply Discipline.Safe.bind (startReads_safe _ entries window seen)
      rintro ⟨waiting, started⟩ after _ still
      cases started with
      | nil => exact Discipline.Safe.done fun _ _ => trivial
      | cons reading others =>
          apply Discipline.Safe.join
          intro _ out last grows
          simp only
          split
          · split
            · exact ih waiting others _ (SeesEntries.later still grows)
            · exact Discipline.Safe.done fun _ _ => trivial
          · exact Discipline.Safe.done fun _ _ => trivial

theorem streamed_ensures (left : Nat) (entries : List ServedEntry) (window : List Reading)
    (sent : List Bytes) (seen : SeesEntries state.1 ns entries) :
    Handler.Ensures (A := ByteStream) ns
      ((streamPack ns left entries window sent).bind fun stream => .done (.ok stream))
      (fun _ _ => True) state := by
  apply Discipline.Safe.bind (streamPack_safe left entries window sent seen)
  exact fun _ _ _ _ => Discipline.Ensures.answer fun _ _ _ _ => trivial

theorem packBlobs_ensures (config : ServerConfig) (headers : Headers) (digests : List Digest)
    (authorized : headers.authorize .read = .ok ns) :
    (packBlobs config headers digests).Ensures ns (fun _ _ => True) state := by
  apply Handler.Ensures.bind Handler.Ensures.pureStep
  intro found _ _ same
  rw [authorized] at same
  cases same
  split
  · exact .refuse
  · apply Handler.Ensures.bind Handler.Ensures.pureStep
    intro requested _ _ _
    apply Handler.Ensures.bind (visibleBlobs_ensures requested)
    rintro visible seeing _ ⟨_, seen⟩
    apply Handler.Ensures.bind Handler.Ensures.pureStep
    intro pack packing grows built
    have entries : SeesEntries seeing.1 ns pack.entries := by
      intro entry member
      rcases packEntries_subset built entry member with none | named
      · cases none
      · exact seen entry.digest named
    apply Handler.Ensures.bind (streamed_ensures _ _ _ _ (entries.later grows))
    exact fun _ _ _ _ => .pure fun _ _ => trivial

theorem getActionResult_ensures (headers : Headers) (parts : String × String × UInt64)
    (authorized : headers.authorize .read = .ok ns) :
    (getActionResult headers parts).Ensures ns (fun _ _ => True) state := by
  apply Handler.Ensures.bind Handler.Ensures.pureStep
  intro found _ _ same
  rw [authorized] at same
  cases same
  apply Handler.Ensures.bind Handler.Ensures.pureStep
  intro action _ _ _
  apply Handler.Ensures.bind (Handler.Ensures.answers (.getResult ns action) fun _ _ => rfl)
  intro found _ _ _
  cases found with
  | some result => exact .pure fun _ _ => trivial
  | none => exact .refuse

theorem batchActionResults_ensures (headers : Headers) (digests : List Digest)
    (authorized : headers.authorize .read = .ok ns) :
    (batchActionResults headers digests).Ensures ns (fun _ _ => True) state := by
  apply Handler.Ensures.bind Handler.Ensures.pureStep
  intro found _ _ same
  rw [authorized] at same
  cases same
  split
  · exact .refuse
  · apply Handler.Ensures.bind Handler.Ensures.pureStep
    intro requested _ _ _
    apply Handler.Ensures.bind
      (Handler.Ensures.answers (.getBatch ns requested) fun _ _ => rfl)
    exact fun _ _ _ _ => .pure fun _ _ => trivial

theorem getActionManifest_ensures (headers : Headers) (parts : String × String × UInt64)
    (authorized : headers.authorize .read = .ok ns) :
    (getActionManifest headers parts).Ensures ns (fun _ _ => True) state := by
  apply Handler.Ensures.bind Handler.Ensures.pureStep
  intro found _ _ same
  rw [authorized] at same
  cases same
  apply Handler.Ensures.bind Handler.Ensures.pureStep
  intro key _ _ _
  apply Handler.Ensures.bind (Handler.Ensures.answers (.getManifest ns key) fun _ _ => rfl)
  intro found _ _ _
  apply Handler.Ensures.bind Handler.Ensures.pureStep
  intro record _ _ _
  apply Handler.Ensures.bind Handler.Ensures.pureStep
  exact fun _ _ _ _ => .pure fun _ _ => trivial

theorem putActionManifest_ensures (headers : Headers) (parts : String × String × UInt64)
    (body : Body) (authorized : headers.authorize .write = .ok ns) :
    (putActionManifest headers parts body).Ensures ns (fun _ _ => True) state := by
  apply Handler.Ensures.bind Handler.Ensures.pureStep
  intro found _ _ same
  rw [authorized] at same
  cases same
  iterate 6
    apply Handler.Ensures.bind Handler.Ensures.pureStep
    intro _ _ _ _
  apply Handler.Ensures.bind (Handler.Ensures.answers (.commitManifest ns _ _ _) fun _ _ => rfl)
  intro outcome _ _ _
  apply Handler.Ensures.bind Handler.Ensures.pureStep
  exact fun _ _ _ _ => .pure fun _ _ => trivial

theorem commit_ensures {action : Digest} {result : ActionResult} {kind : ActionKind}
    (published : state.1.Published ns action kind result) :
    (commit ns action result).Ensures ns (fun _ _ => True) state := by
  apply Handler.Ensures.bind
    (Handler.Ensures.answers (.commit ns action result) fun _ grows =>
      ⟨rfl, kind, published.later grows⟩)
  intro step _ _ _
  cases step with
  | answered outcome => exact .pure fun _ _ => trivial
  | pending => exact Handler.Ensures.answers (.resolve ns action result) fun _ _ => rfl

theorem whenSome_ensures {subject : Option Digest} {check : Digest → Handler Unit}
    {post : Digest → ServerState M → Prop}
    (checked : ∀ digest, subject = some digest →
      (check digest).Ensures ns (fun _ after => post digest after) state) :
    (whenSome subject check).Ensures ns
      (fun _ after => ∀ digest, subject = some digest → post digest after) state := by
  cases subject with
  | none => exact .pure fun _ _ digest absent => by cases absent
  | some digest =>
      apply Handler.Ensures.mono (checked digest rfl)
      intro _ after holds other same
      cases same
      exact holds

omit [Protocol] in
theorem checkResult_key {result : ActionResult} {action : Digest}
    (checked : checkResult result action = .ok ()) : result.action = action := by
  unfold checkResult at checked
  split at checked
  · cases checked
  · rename_i agrees
    simp only [Bool.or_eq_true, decide_eq_true_eq, ne_eq, not_or, not_not] at agrees
    exact agrees.2

omit [Protocol] in
theorem validateActionResultShape_complete {result : ActionResult} {kind : ActionKind}
    (checked : validateActionResultShape result kind = .ok ()) (compiler : kind ≠ .task) :
    result.metadata.isSome ∧ result.outputRoot.isSome := by
  unfold validateActionResultShape at checked
  split at checked
  · cases checked
  · rename_i whole
    cases metadata : result.metadata <;> cases root : result.outputRoot <;>
      simp_all

/-- A result is only committed when it is published with all it refers to. -/
theorem putActionResult_ensures (headers : Headers) (parts : String × String × UInt64)
    (result : ActionResult) (authorized : headers.authorize .write = .ok ns) :
    (putActionResult headers parts result).Ensures ns (fun _ _ => True) state := by
  apply Handler.Ensures.bind Handler.Ensures.pureStep
  intro found _ _ same
  rw [authorized] at same
  cases same
  apply Handler.Ensures.bind Handler.Ensures.pureStep
  intro _ _ _ _
  apply Handler.Ensures.bind Handler.Ensures.pureStep
  intro action _ _ _
  apply Handler.Ensures.bind Handler.Ensures.pureStep
  intro _ _ _ key
  apply Handler.Ensures.bind (validateActionDescriptor_ensures action)
  intro kind described _ descriptor
  apply Handler.Ensures.bind Handler.Ensures.pureStep
  intro _ _ one shape
  apply Handler.Ensures.bind
    (whenSome_ensures fun digest _ => validateClientMetadata_ensures digest kind)
  intro _ _ two metadata
  apply Handler.Ensures.bind (whenSome_ensures fun root _ => validateTree_ensures root)
  intro _ walked three tree
  have published : walked.1.Published ns action kind result := {
    key := checkResult_key key
    descriptor := descriptor.later (one.trans (two.trans three))
    complete := validateActionResultShape_complete shape
    metadata := fun digest named => (metadata digest named).later three
    tree := tree }
  apply Handler.Ensures.bind (commit_ensures published)
  intro outcome _ _ _
  apply Handler.Ensures.bind Handler.Ensures.pureStep
  exact fun _ _ _ _ => .pure fun _ _ => trivial

theorem handler_ensures (config : ServerConfig) (request : Request)
    (authorized : request.authorized = .ok ns) :
    (request.handler config).Ensures ns (fun _ _ => True) state := by
  cases request with
  | getBlob headers parts => exact getBlob_ensures headers parts authorized
  | putBlob headers parts body => exact putBlob_ensures config headers parts body authorized
  | putBlobPack headers body => exact putBlobPack_ensures config headers body authorized
  | missingBlobs headers digests => exact missingBlobs_ensures headers digests authorized
  | packBlobs headers digests => exact packBlobs_ensures config headers digests authorized
  | getActionResult headers parts => exact getActionResult_ensures headers parts authorized
  | batchActionResults headers digests =>
      exact batchActionResults_ensures headers digests authorized
  | putActionResult headers parts result =>
      exact putActionResult_ensures headers parts result authorized
  | getActionManifest headers parts => exact getActionManifest_ensures headers parts authorized
  | putActionManifest headers parts body =>
      exact putActionManifest_ensures headers parts body authorized

/-- A request works for the namespace it is authorized for, if for any. -/
theorem handler_safe (config : ServerConfig) (request : Request) :
    ∃ ns, ∀ state : Shared M,
      (sharing M).Safe ns (request.handler config) (fun _ _ => True) state := by
  cases authorized : request.authorized with
  | ok ns =>
      refine ⟨ns, fun state => ?_⟩
      exact Logic.Safe.mono (handler_ensures config request authorized) fun _ _ _ => trivial
  | error error =>
      refine ⟨"", fun state => ?_⟩
      rw [request.handler_refused config authorized]
      exact Discipline.Safe.done fun _ _ => trivial

theorem jobs_safe : (sharing M).Covers := by
  intro ns job state starts
  cases job with
  | store other digest bytes =>
      obtain ⟨rfl, names⟩ := starts
      exact storeFrame_safe names
  | read other digest =>
      obtain ⟨rfl, seen⟩ := starts
      apply safe_call
      · exact fun _ grows => grows.rows other digest seen
      · exact fun _ _ => Discipline.Safe.done fun _ _ => trivial
      · intro choice before after found grows performed
        obtain ⟨bytes, stored⟩ := Option.isSome_iff_exists.mp
          (before.2.present other digest (grows.rows other digest seen))
        have answer := (Prod.mk.inj (Except.ok.inj performed)).2
        rw [Objects.get, stored] at answer
        rw [← answer]
        simp only [Option.map_some]
        split <;> exact Discipline.Safe.done fun _ _ => trivial

def reached (M : Type) [MetadataStore M] (config : ServerConfig)
    (actions : List (Action Request Choice)) : Config (server M) (Except ApiError Response) :=
  (Config.initial (server M) _ (ServerState.initial M)).run (Request.handler config) actions

/-- In every state that is reached the server is sound, and all that can still run
follows the discipline. -/
theorem reached_disciplined (config : ServerConfig) (actions : List (Action Request Choice)) :
    Discipline.Disciplined (sharing M) (fun _ _ => True) (fun _ _ => True)
      (reached M config actions) := by
  refine (Discipline.Disciplined.run jobs_safe _ (Discipline.Disciplined.initial
    ServerState.Sound.initial) actions ?_).1
  intro pid request _
  obtain ⟨ns, safe⟩ := handler_safe (M := M) config request
  exact ⟨ns, trivial, safe⟩

/-- In every state that is reached every object is what its digest names, every row has
its object, and no request is about to forget one. -/
theorem objects_named_and_rows_backed (config : ServerConfig)
    (actions : List (Action Request Choice)) :
    (∀ digest bytes, (reached M config actions).state.blobs digest = some bytes →
        digest.Names bytes) ∧
      (∀ ns digest, (reached M config actions).state.Sees ns digest →
        ((reached M config actions).state.blobs digest).isSome) ∧
      ∀ pid process, (reached M config actions).procs pid = some process →
        ∀ ns digest, ¬ Config.About (M := server M) process (.forgetBlob ns digest) := by
  have disciplined := reached_disciplined (M := M) config actions
  refine ⟨disciplined.inv.named, disciplined.inv.present, ?_⟩
  intro pid process found ns digest about
  obtain ⟨who, _, follows⟩ := disciplined.follows pid process found
  exact follows.about about

/-- Whatever result is read in a state that is reached is stored under its own action,
and the namespace sees all it refers to. -/
theorem results_closed (config : ServerConfig) (actions : List (Action Request Choice)) :
    (∀ ns action result,
        MetadataStore.get (reached M config actions).state.metadata ns action =
          .ok (some result) →
        ∃ kind, (reached M config actions).state.Published ns action kind result) ∧
      ∀ ns keys results,
        MetadataStore.getBatch (reached M config actions).state.metadata ns keys = .ok results →
        ∀ result ∈ results, ∃ action ∈ keys, ∃ kind,
          (reached M config actions).state.Published ns action kind result := by
  have sound := (reached_disciplined (M := M) config actions).inv
  constructor
  · intro ns action result read
    exact sound.closed ns action result (MetadataStore.get_answered sound.valid read).symm
  · intro ns keys results read result member
    obtain rfl := MetadataStore.getBatch_answered sound.valid read
    obtain ⟨action, key, held⟩ := List.mem_filterMap.mp member
    exact ⟨action, key, sound.closed ns action result held⟩

end MbxCache
