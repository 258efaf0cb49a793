import MbxCache.Server.Neighbours
import MbxCache.Server.Sessions

namespace MbxCache

open Concurrent Pack

section Closure
variable [Protocol] {M : Type} [MetadataStore M] {ns : String}

/-- What a published result refers to. -/
inductive Closure (objects : Objects) (result : ActionResult) : Digest → Prop
  | action : Closure objects result result.action
  | metadata {digest : Digest} (named : result.metadata = some digest) :
      Closure objects result digest
  | stdout {digest stdout stderr : Digest} {value : Json} {kind : ActionKind}
      (named : result.metadata = some digest) (stored : objectAt objects digest = some value)
      (declared : declaredKind value = some kind.name)
      (outputs : outputBlobs kind value = some (stdout, stderr)) : Closure objects result stdout
  | stderr {digest stdout stderr : Digest} {value : Json} {kind : ActionKind}
      (named : result.metadata = some digest) (stored : objectAt objects digest = some value)
      (declared : declaredKind value = some kind.name)
      (outputs : outputBlobs kind value = some (stdout, stderr)) : Closure objects result stderr
  | directory {root digest : Digest} (named : result.outputRoot = some root)
      (reached : Reaches objects root digest) : Closure objects result digest
  | file {root digest : Digest} {directory : Directory} {node : FileNode}
      (named : result.outputRoot = some root) (reached : Reaches objects root digest)
      (stored : directoryAt objects digest = some directory) (member : node ∈ directory.files) :
      Closure objects result node.digest

omit [Protocol] in
theorem ActionKind.name_inj {kind other : ActionKind} (same : kind.name = other.name) :
    kind = other := by
  cases kind <;> cases other <;> first | rfl | exact absurd same (by decide)

theorem ServerState.Published.outputs {state : ServerState M} {action digest one other : Digest}
    {kind kind' : ActionKind} {result : ActionResult} {value : Json}
    (published : state.Published ns action kind result) (named : result.metadata = some digest)
    (stored : objectAt state.blobs digest = some value)
    (declared : declaredKind value = some kind'.name)
    (outputs : outputBlobs kind' value = some (one, other)) :
    state.Sees ns one ∧ state.Sees ns other := by
  obtain ⟨_, found, stored', declared', seen⟩ := published.metadata digest named
  rw [stored] at stored'
  cases stored'
  rw [declared] at declared'
  obtain rfl := ActionKind.name_inj (Option.some.inj declared')
  have compiler : kind' ≠ .task := by
    rintro rfl
    cases outputs
  obtain ⟨stdout, stderr, outputs', sees⟩ := seen compiler
  rw [outputs] at outputs'
  cases outputs'
  exact sees

theorem ServerState.Published.sees {state : ServerState M} {action digest : Digest}
    {kind : ActionKind} {result : ActionResult} (published : state.Published ns action kind result)
    (refers : Closure state.blobs result digest) : state.Sees ns digest := by
  cases refers with
  | action =>
      rw [published.key]
      exact published.descriptor.1
  | metadata named => exact (published.metadata _ named).1
  | stdout named stored declared outputs =>
      exact (published.outputs named stored declared outputs).1
  | stderr named stored declared outputs =>
      exact (published.outputs named stored declared outputs).2
  | directory named reached => exact (published.tree _ named _ reached).1
  | file named reached stored member =>
      obtain ⟨_, directory, stored', files⟩ := published.tree _ named _ reached
      rw [stored] at stored'
      cases stored'
      exact files _ member

inductive Learns (action : Digest) (result : ActionResult) : Request → Response → Prop
  | published {headers : Headers} {parts : String × String × UInt64} {response : Response}
      (parsed : parseActionDigest parts = .ok action) :
      Learns action result (.putActionResult headers parts result) response
  | found {headers : Headers} {parts : String × String × UInt64} {response : Response}
      (parsed : parseActionDigest parts = .ok action)
      (content : response.content = .result result) :
      Learns action result (.getActionResult headers parts) response
  | listed {headers : Headers} {digests : List Digest} {response : Response}
      {results : List ActionResult} (content : response.content = .results results)
      (member : result ∈ results) (names : result.action = action) :
      Learns action result (.batchActionResults headers digests) response

section Lookups
variable {state : Shared M} {headers : Headers}

theorem getResult_delivers (action : Digest) :
    (getResult ns action).Delivers ns (fun found after =>
      (∀ result, state.1.view.result ns action = some result → found = some result) ∧
        ∀ result, found = some result → after.view.result ns action = some result) state := by
  apply Handler.Delivers.ask
  · exact fun _ _ => rfl
  · intro choice before after found grows performed last more
    obtain ⟨looked, same⟩ := look_ok performed
    obtain rfl := MetadataStore.get_answered before.2.valid looked
    rw [same] at more
    exact ⟨fun result held => grows.results ns action result held,
      fun result held => more.results ns action result held⟩

theorem getActionResult_finds {parts : String × String × UInt64} {action : Digest}
    {result : ActionResult} (authorized : headers.authorize .read = .ok ns)
    (parsed : parseActionDigest parts = .ok action)
    (held : state.1.view.result ns action = some result) :
    (getActionResult headers parts).Delivers ns
      (fun response _ => response.content = .result result) state := by
  rw [getActionResult, authorized, Handler.pureStep_ok, parsed, Handler.pureStep_ok]
  apply Handler.Delivers.bind (getResult_delivers action)
  rintro found after _ ⟨known, _⟩
  rw [known result held]
  exact Handler.Delivers.pure fun _ _ => rfl

theorem getActionResult_held {parts : String × String × UInt64} {action : Digest}
    (authorized : headers.authorize .read = .ok ns)
    (parsed : parseActionDigest parts = .ok action) :
    (getActionResult headers parts).Ensures ns (fun response after => ∀ result,
      response.content = .result result → after.view.result ns action = some result) state := by
  rw [getActionResult, authorized, Handler.pureStep_ok, parsed, Handler.pureStep_ok]
  apply Handler.Ensures.bind (getResult_delivers action).ensures
  rintro found after _ ⟨_, held⟩
  cases found with
  | none => exact .refuse
  | some result =>
      apply Handler.Ensures.pure
      intro last more other same
      cases same
      exact more.results ns action result (held result rfl)

/-- The results of a batch: each is stored under the action it names, and none that was stored
before under one of the keys is left out. -/
theorem getBatch_delivers (keys : List Digest) :
    (getBatch ns keys).Delivers ns (fun results after =>
      (∀ action ∈ keys, ∀ result, state.1.view.result ns action = some result → result ∈ results) ∧
        ∀ result ∈ results, after.view.result ns result.action = some result) state := by
  apply Handler.Delivers.ask
  · exact fun _ _ => rfl
  · intro choice before after results grows performed last more
    obtain ⟨looked, same⟩ := look_ok performed
    obtain rfl := MetadataStore.getBatch_answered before.2.valid looked
    rw [same] at more
    refine ⟨fun action member result held => ?_, fun result member => ?_⟩
    · exact List.mem_filterMap.mpr ⟨action, member, grows.results ns action result held⟩
    · obtain ⟨action, _, held⟩ := List.mem_filterMap.mp member
      obtain ⟨kind, published⟩ := before.2.closed ns action result held
      rw [published.key]
      exact more.results ns action result held

theorem batchActionResults_held {digests : List Digest}
    (authorized : headers.authorize .read = .ok ns) :
    (batchActionResults headers digests).Ensures ns (fun response after => ∀ results,
      response.content = .results results →
        ∀ result ∈ results, after.view.result ns result.action = some result) state := by
  rw [batchActionResults, authorized, Handler.pureStep_ok]
  split
  · exact .refuse
  · apply Handler.Ensures.bind Handler.Ensures.pureStep
    intro requested _ _ _
    apply Handler.Ensures.bind (getBatch_delivers requested).ensures
    rintro results after _ ⟨_, held⟩
    apply Handler.Ensures.pure
    intro last more other same
    cases same
    exact fun result member => more.results ns _ result (held result member)

theorem batchActionResults_lists {digests : List Digest} {action : Digest} {result : ActionResult}
    (authorized : headers.authorize .read = .ok ns) (few : digests.length ≤ maxBatchItems)
    (keys : ∀ digest ∈ digests, IsActionDigest digest) (asked : action ∈ digests)
    (held : state.1.view.result ns action = some result) :
    (batchActionResults headers digests).Delivers ns (fun response _ => ∃ results,
      response.content = .results results ∧ result ∈ results ∧
        ∀ other ∈ results, other.action = action → other = result) state := by
  have requested : batchRequest digests [] = .ok digests.eraseDups := by
    simpa using batchRequest_ok keys []
  rw [batchActionResults, authorized, Handler.pureStep_ok, if_neg (Nat.not_lt_of_le few),
    requested, Handler.pureStep_ok]
  apply Handler.Delivers.bind (getBatch_delivers digests.eraseDups)
  rintro results after grows ⟨all, each⟩
  refine Handler.Delivers.pure fun last more => ⟨results, rfl, ?_, ?_⟩
  · exact all action (List.mem_eraseDups.mpr asked) result held
  · intro other member names
    have stored := each other member
    rw [names, grows.results ns action result held] at stored
    exact (Option.some.inj stored).symm

end Lookups

/-- What a lookup of an action whose result is stored must answer, unless one of its calls fails:
that very result. -/
def Finds (action : Digest) (result : ActionResult) (asked : List (Asked Api)) :
    Request → Except ApiError Response → Prop
  | .getActionResult _ parts, answer => parseActionDigest parts = .ok action →
      RespondsUnlessFailed asked (fun response => response.content = .result result) answer
  | .batchActionResults _ digests, answer =>
      digests.length ≤ maxBatchItems → (∀ digest ∈ digests, IsActionDigest digest) →
      action ∈ digests → RespondsUnlessFailed asked (fun response => ∃ results,
        response.content = .results results ∧ result ∈ results ∧
          ∀ other ∈ results, other.action = action → other = result) answer
  | _, _ => True

section Clients
variable {config : ServerConfig} {actions front back : List (Action Request Choice)}
  {pid teller : Nat} {told request : Request} {response : Response}
  {answer : Except ApiError Response} {action : Digest} {result : ActionResult}

theorem learned_held (answered : Answered M config actions teller told (.ok response))
    (authorized : told.authorized = .ok ns) (learns : Learns action result told response) :
    (reached M config actions).state.view.result ns action = some result := by
  cases learns with
  | published parsed =>
      exact ensured answered fun state => putActionResult_holds authorized parsed
  | found parsed content =>
      exact ensured answered (fun state => getActionResult_held authorized parsed) result content
  | listed content member names =>
      have held := ensured answered (fun state => batchActionResults_held authorized) _ content
        result member
      rwa [names] at held

end Clients

/-- A pack that is served among other requests carries, in order of first occurrence, frames of
the stored objects for digests that can be seen, none left out that could be seen when the
request arrived, and its headers tell their number and size. -/
theorem pack_exact_among_others (config : ServerConfig)
    {front back : List (Action Request Choice)} {pid : Nat} {headers : Headers}
    {digests : List Digest} {response : Response} (fresh : Concurrent.served front pid = none)
    (authorized : headers.authorize .read = .ok ns)
    (answered : Answered M config (front ++ .start pid (.packBlobs headers digests) :: back) pid
      (.packBlobs headers digests) (.ok response)) :
    Carries (reached M config front).state ns digests response
      (reached M config (front ++ .start pid (.packBlobs headers digests) :: back)).state := by
  obtain ⟨jobs, known, _⟩ := answered_since fresh (packBlobs_carries config headers authorized)
    answered
  exact known response rfl

/-- A result whose action, metadata and tree are all in place when it is put is stored, unless
another result already is or something behind the server fails. -/
theorem complete_result_accepted (config : ServerConfig)
    {front back : List (Action Request Choice)} {pid : Nat} {headers : Headers}
    {parts : String × String × UInt64} {action : Digest} {kind : ActionKind}
    {result : ActionResult} {answer : Except ApiError Response}
    (publishable : Publishable (reached M config front).state ns action kind result)
    (authorized : headers.authorize .write = .ok ns) (immutable : headers.ifNoneMatch = some "*")
    (parsed : parseActionDigest parts = .ok action) (fresh : Concurrent.served front pid = none)
    (answered : Answered M config (front ++ .start pid (.putActionResult headers parts result) ::
      back) pid (.putActionResult headers parts result) answer) :
    Settles ns action result answer (reached M config
        (front ++ .start pid (.putActionResult headers parts result) :: back)).state ∧
      BlamesCalls answer (askedBy M config
        (front ++ .start pid (.putActionResult headers parts result) :: back) pid) := by
  have precondition : requireImmutablePrecondition headers = .ok () := by
    rw [requireImmutablePrecondition, if_pos immutable]
  have settles : (sharing M).Safe ns (putActionResult headers parts result)
      (fun answer after => Settles ns action result answer after.1) (reachedState M config front) :=
    putActionResult_settles (.refl _) authorized precondition parsed publishable
  obtain ⟨jobs, known⟩ := answered_since fresh (Pledge.Safe.lift settles []) answered
  exact ⟨known, answered.blames (putActionResult_blames headers parts result authorized)⟩

/-- Once any answer has told a client that a result is stored under an action, every later
lookup of its namespace finds that result. -/
theorem learned_then_found (config : ServerConfig) {front back : List (Action Request Choice)}
    {teller pid : Nat} {told request : Request} {response : Response}
    {answer : Except ApiError Response} {action : Digest} {result : ActionResult}
    (answered : Answered M config front teller told (.ok response))
    (authorized : told.authorized = .ok ns) (learns : Learns action result told response)
    (fresh : Concurrent.served front pid = none) (authorized' : request.authorized = .ok ns)
    (later : Answered M config (front ++ .start pid request :: back) pid request answer) :
    Finds action result (askedBy M config (front ++ .start pid request :: back) pid) request
      answer := by
  have held := learned_held answered authorized learns
  cases request with
  | getActionResult headers parts =>
      intro parsed
      exact (later.blames (getActionResult_blames headers parts authorized')).responds
        (delivered_since fresh (getActionResult_finds authorized' parsed held) later)
        fun _ _ finds => finds
  | batchActionResults headers digests =>
      intro few keys asked
      exact (later.blames (batchActionResults_blames headers digests authorized')).responds
        (delivered_since fresh (batchActionResults_lists authorized' few keys asked held) later)
        fun _ _ lists => lists
  | _ => trivial

end Closure

section Team

def onward (pid count : Nat) : List (Action Request Choice) :=
  List.replicate count (.move pid (.main (calm 0)))

def teamConfig : ServerConfig := ⟨1024, 4, true⟩

section Zero
attribute [local instance] Specimen.protocol

def storeZero : Request :=
  .putBlob (headersFor Specimen.team) ("blake3", Specimen.zeroBlake3, 1) ⟨[[0]], none⟩

def readZero : Request := .getBlob (headersFor Specimen.team) ("blake3", Specimen.zeroBlake3, 1)

def zeroStored : List (Action Request Choice) := .start 1 storeZero :: onward 1 6

def zeroRead : Response where
  status := .ok
  headers := [("content-length", "1"), ("content-type", "application/octet-stream"),
    ("etag", "\"" ++ Specimen.zeroBlake3 ++ "\""), ("digest", "blake3=" ++ Specimen.zeroBlake3)]
  content := .stream ⟨[[0]], false⟩

def storeEmpty : Request :=
  .putBlob (headersFor Specimen.team) ("blake3", Specimen.emptyBlake3, 0) ⟨[], none⟩

def absentDigest : Digest := ⟨"sha256", Specimen.zeroSha256, 1⟩

def packedDigests : List Digest :=
  [Specimen.zeroDigest, absentDigest, Specimen.emptyDigest, Specimen.zeroDigest]

def packTwo : Request := .packBlobs (headersFor Specimen.team) packedDigests

def twoStored : List (Action Request Choice) := zeroStored ++ .start 2 storeEmpty :: onward 2 6

def twoPack : Response where
  status := .ok
  headers := [("content-type", "application/vnd.mbx.cache-blob-pack.v1"),
    ("content-length", "91"), ("mbx-cache-pack-blobs", "2"), ("mbx-cache-pack-bytes", "1")]
  content := .stream ⟨[blobPackMagic,
    1 :: ((Hex.decode Specimen.zeroBlake3).getD [] ++ [0, 0, 0, 0, 0, 0, 0, 1]), [0],
    1 :: ((Hex.decode Specimen.emptyBlake3).getD [] ++ [0, 0, 0, 0, 0, 0, 0, 0]), []], false⟩

def packMoves : List (Action Request Choice) :=
  onward 3 1 ++ .start 4 storeZero :: onward 4 3 ++ onward 3 2 ++
    [.move 3 (.task 1 (calm 0)), .move 3 (.task 0 (calm 0)), .move 3 (.main (calm 0)),
      .move 3 (.main (calm 1))]

theorem zero_pack_exact_among_others : Carries (reached MemoryMetadata teamConfig twoStored).state
    "team" packedDigests twoPack
    (reached MemoryMetadata teamConfig (twoStored ++ .start 3 packTwo :: packMoves)).state := by
  have packed : Answered MemoryMetadata teamConfig
      (twoStored ++ .start 3 packTwo :: packMoves) 3 packTwo (.ok twoPack) :=
    .of_run rfl (by decide +kernel)
  exact pack_exact_among_others teamConfig rfl rfl packed

end Zero

section Walk
variable [Protocol]

def unfoldTree (ns : String) : Nat → List Visit → Finset Digest → Finset Digest → Handler Unit
  | 0, pending, visiting, seen => visitTree ns pending visiting seen
  | _ + 1, [], _, _ => pure ()
  | steps + 1, .exit digest :: rest, visiting, seen =>
      unfoldTree ns steps rest (visiting.erase digest) (insert digest seen)
  | steps + 1, .enter digest :: rest, visiting, seen =>
      if digest ∈ seen then unfoldTree ns steps rest visiting seen
      else if digest ∈ visiting then
        .refuse (.unprocessable "directory graph contains a cycle")
      else if maxDirectories < seen.card + (insert digest visiting).card then
        .refuse (.unprocessable "directory graph is too large")
      else
        (validateDirectory ns digest).bind fun children =>
          unfoldTree ns steps ((children.reverse.map .enter) ++ .exit digest :: rest)
            (insert digest visiting) seen

theorem unfoldTree_eq (ns : String) (steps : Nat) (pending : List Visit)
    (visiting seen : Finset Digest) :
    unfoldTree ns steps pending visiting seen = visitTree ns pending visiting seen := by
  induction steps generalizing pending visiting seen with
  | zero => rfl
  | succ steps ih =>
      rw [visitTree.eq_def]
      match pending with
      | [] => rfl
      | .exit digest :: rest => exact ih rest _ _
      | .enter digest :: rest => simp only [unfoldTree, ih, dite_eq_ite]

end Walk

section Task
attribute [local instance] Specimen.taskProtocol

def storeBlob (digest : Digest) (bytes : Bytes) : Request :=
  .putBlob (headersFor Specimen.team) (digest.algorithm, digest.hash, digest.size) ⟨[bytes], none⟩

def taskStored : List (Action Request Choice) :=
  .start 1 (storeBlob Specimen.zeroDigest [0]) :: onward 1 6 ++
    .start 2 (storeBlob Specimen.binDigest Specimen.binBytes) :: onward 2 6 ++
    .start 3 (storeBlob Specimen.rootDigest Specimen.rootBytes) :: onward 3 6 ++
    .start 4 (storeBlob Specimen.metadataDigest Specimen.metadataBytes) :: onward 4 6 ++
    .start 5 (storeBlob Specimen.taskDigest Specimen.taskBytes) :: onward 5 6

def taskResult : ActionResult :=
  ⟨1, Specimen.taskDigest, some Specimen.metadataDigest, some Specimen.rootDigest⟩

def publishTask : Request :=
  .putActionResult (headersFor Specimen.team) ("blake3", Specimen.taskBlake3, 198) taskResult

def taskPublished : List (Action Request Choice) :=
  taskStored ++ .start 6 publishTask :: onward 6 11

def publishSteps : Handler Response := do
  let kind ← validateActionDescriptor "team" Specimen.taskDigest
  Handler.pureStep (validateActionResultShape taskResult kind)
  validateClientMetadata "team" Specimen.metadataDigest kind
  unfoldTree "team" 8 [.enter Specimen.rootDigest] ∅ ∅
  let outcome ← commit "team" Specimen.taskDigest taskResult
  let status ← Handler.pureStep (commitStatus outcome)
  return ⟨status, [], .empty⟩

theorem publishTask_handler : publishTask.handler teamConfig = publishSteps := by
  have authorized : (headersFor Specimen.team).authorize .write = .ok "team" := rfl
  have immutable : requireImmutablePrecondition (headersFor Specimen.team) = .ok () := rfl
  have parsed : parseActionDigest ("blake3", Specimen.taskBlake3, 198) =
      .ok Specimen.taskDigest := rfl
  have checked : checkResult taskResult Specimen.taskDigest = .ok () := rfl
  change putActionResult (headersFor Specimen.team) ("blake3", Specimen.taskBlake3, 198)
    taskResult = _
  rw [putActionResult, authorized, Handler.pureStep_ok, immutable, Handler.pureStep_ok, parsed,
    Handler.pureStep_ok, checked, Handler.pureStep_ok, publishSteps, unfoldTree_eq]
  rfl

def uploaded : Config (server MemoryMetadata) (Except ApiError Response) :=
  reached MemoryMetadata teamConfig taskStored

theorem reached_published (rest : List (Action Request Choice)) :
    reached MemoryMetadata teamConfig (taskPublished ++ rest) =
      (uploaded.step (fun _ => publishSteps) (.start 6 publishTask)).run
        (Request.handler teamConfig) (onward 6 11 ++ rest) := by
  have started : uploaded.step (Request.handler teamConfig) (.start 6 publishTask) =
      uploaded.step (fun _ => publishSteps) (.start 6 publishTask) :=
    Config.step_start publishTask_handler uploaded 6
  rw [taskPublished, List.append_assoc, List.cons_append, reached_append, ← started]
  exact Config.run_cons (M := server MemoryMetadata) _ _ _ _

def findTask : Request :=
  .getActionResult (headersFor Specimen.team) ("blake3", Specimen.taskBlake3, 198)

def answerAt (actions : List (Action Request Choice)) (pid : Nat) :
    Option (Except ApiError Response) :=
  ((reached MemoryMetadata teamConfig (taskPublished ++ actions)).procs pid).bind Process.answer

theorem task_answers : answerAt [] 6 = some (.ok ⟨.created, [], .empty⟩) ∧
    answerAt (.start 7 findTask :: onward 7 1) 7 =
      some (.ok ⟨.ok, [("content-type", "application/json")], .result taskResult⟩) ∧
    answerAt (.start 7 readZero :: onward 7 2) 7 = some (.ok zeroRead) := by
  simp only [answerAt, reached_published]
  decide +kernel

theorem task_answered : Answered MemoryMetadata teamConfig taskPublished 6 publishTask
    (.ok ⟨.created, [], .empty⟩) := by
  have answered := task_answers.1
  rw [answerAt, List.append_nil] at answered
  exact .of_run rfl answered

def TeamStored (digest : Digest) (bytes : Bytes) : Prop :=
  digest.validate = true ∧ uploaded.state.Sees "team" digest ∧
    uploaded.state.blobs digest = some bytes

theorem team_stored : TeamStored Specimen.zeroDigest [0] ∧
    TeamStored Specimen.binDigest Specimen.binBytes ∧
    TeamStored Specimen.rootDigest Specimen.rootBytes ∧
    TeamStored Specimen.metadataDigest Specimen.metadataBytes ∧
    TeamStored Specimen.taskDigest Specimen.taskBytes := by
  unfold TeamStored ServerState.Sees
  decide +kernel

def CanonicalDirectory (bytes : Bytes) (directory : Directory) : Prop :=
  (Protocol.parseDirectory bytes = some directory ∧ Protocol.writeDirectory directory = bytes) ∧
    validateDirectoryEntries directory = .ok ()

def CanonicalValue (bytes : Bytes) (value : Json) : Prop :=
  Protocol.parseValue bytes = some value ∧ Protocol.writeValue value = bytes

theorem texts_canonical : CanonicalDirectory Specimen.rootBytes Specimen.rootDirectory ∧
    CanonicalDirectory Specimen.binBytes Specimen.binDirectory ∧
    CanonicalValue Specimen.taskBytes Specimen.taskValue ∧
    CanonicalValue Specimen.metadataBytes Specimen.metadataValue := by
  unfold CanonicalDirectory CanonicalValue
  decide +kernel

theorem root_stored :
    directoryAt uploaded.state.blobs Specimen.rootDigest = some Specimen.rootDirectory := by
  obtain ⟨-, -, ⟨-, -, root⟩, -, -⟩ := team_stored
  exact Option.bind_eq_some_iff.mpr ⟨_, root, texts_canonical.1.1.1⟩

theorem bin_stored :
    directoryAt uploaded.state.blobs Specimen.binDigest = some Specimen.binDirectory := by
  obtain ⟨-, ⟨-, -, bin⟩, -, -, -⟩ := team_stored
  exact Option.bind_eq_some_iff.mpr ⟨_, bin, texts_canonical.2.1.1.1⟩

theorem child_of_root {digest : Digest}
    (child : Child uploaded.state.blobs Specimen.rootDigest digest) : digest = Specimen.binDigest := by
  obtain ⟨directory, stored, node, member, rfl⟩ := child
  rw [root_stored] at stored
  cases stored
  obtain rfl := List.mem_singleton.mp member
  rfl

theorem no_child_of_bin {digest : Digest} :
    ¬ Child uploaded.state.blobs Specimen.binDigest digest := by
  rintro ⟨directory, stored, node, member, rfl⟩
  rw [bin_stored] at stored
  cases stored
  cases member

theorem tree_reaches (digest : Digest) : Reaches uploaded.state.blobs Specimen.rootDigest digest ↔
    digest = Specimen.rootDigest ∨ digest = Specimen.binDigest := by
  constructor
  · intro reached
    induction reached with
    | root => exact .inl rfl
    | child above stored member ih =>
        rcases ih with rfl | rfl
        · exact .inr (child_of_root ⟨_, stored, _, member, rfl⟩)
        · exact absurd ⟨_, stored, _, member, rfl⟩ no_child_of_bin
  · rintro (rfl | rfl)
    · exact .root
    · exact .child .root root_stored List.mem_cons_self

theorem tree_acyclic {digest : Digest}
    (reached : Reaches uploaded.state.blobs Specimen.rootDigest digest) :
    ¬ Relation.TransGen (Child uploaded.state.blobs) digest digest := by
  intro cycle
  obtain ⟨child, first, rest⟩ := Relation.TransGen.head'_iff.mp cycle
  rcases (tree_reaches digest).mp reached with rfl | rfl
  · cases child_of_root first
    rcases Relation.ReflTransGen.cases_head rest with same | ⟨other, next, _⟩
    · exact absurd same (by decide)
    · exact no_child_of_bin next
  · exact no_child_of_bin first

theorem root_good :
    GoodDirectory uploaded.state "team" Specimen.rootDigest Specimen.rootDirectory := by
  obtain ⟨-, -, ⟨-, seen, stored⟩, -, -⟩ := team_stored
  obtain ⟨⟨canonical, entries⟩, -⟩ := texts_canonical
  exact {
    size := by decide
    seen := seen
    stored := ⟨_, stored, canonical⟩
    version := rfl
    entries := entries
    files := fun file member => by cases member }

theorem bin_good :
    GoodDirectory uploaded.state "team" Specimen.binDigest Specimen.binDirectory := by
  obtain ⟨⟨valid, zero, -⟩, ⟨-, seen, stored⟩, -, -, -⟩ := team_stored
  obtain ⟨-, ⟨canonical, entries⟩, -⟩ := texts_canonical
  exact {
    size := by decide
    seen := seen
    stored := ⟨_, stored, canonical⟩
    version := rfl
    entries := entries
    files := by
      intro file member
      obtain rfl := List.mem_singleton.mp member
      exact ⟨valid, zero⟩ }

theorem tree_valid : ValidTree uploaded.state "team" Specimen.rootDigest where
  acyclic digest reached := tree_acyclic reached
  few := ⟨{Specimen.rootDigest, Specimen.binDigest}, by decide, fun digest => by
    rw [Finset.mem_insert, Finset.mem_singleton]
    exact tree_reaches digest⟩
  good digest reached := by
    rcases (tree_reaches digest).mp reached with rfl | rfl
    · exact ⟨_, root_good⟩
    · exact ⟨_, bin_good⟩

theorem task_good : GoodObject uploaded.state "team" Specimen.taskDigest Specimen.taskValue := by
  obtain ⟨-, -, -, -, ⟨valid, seen, stored⟩⟩ := team_stored
  obtain ⟨-, -, canonical, -⟩ := texts_canonical
  exact {
    valid := valid
    size := by decide
    seen := seen
    stored := ⟨_, stored, canonical⟩
    object := rfl }

theorem metadata_good :
    GoodObject uploaded.state "team" Specimen.metadataDigest Specimen.metadataValue := by
  obtain ⟨-, -, -, ⟨valid, seen, stored⟩, -⟩ := team_stored
  obtain ⟨-, -, -, canonical⟩ := texts_canonical
  exact {
    valid := valid
    size := by decide
    seen := seen
    stored := ⟨_, stored, canonical⟩
    object := rfl }

theorem task_publishable :
    Publishable uploaded.state "team" Specimen.taskDigest .task taskResult where
  names := rfl
  descriptor := ⟨_, task_good, by rfl⟩
  shape := by rfl
  metadata digest named := by
    cases named
    have fields : validateTaskMetadata Specimen.metadataValue 1 = .ok () := by rfl
    exact ⟨_, 1, metadata_good, by rfl, fields⟩
  tree root named := by
    cases named
    exact tree_valid

theorem task_result_accepted : Settles "team" Specimen.taskDigest taskResult
    (.ok ⟨.created, [], .empty⟩) (reached MemoryMetadata teamConfig taskPublished).state :=
  (complete_result_accepted teamConfig task_publishable rfl rfl rfl rfl task_answered).1

theorem task_learned_then_found : Finds Specimen.taskDigest taskResult
    (askedBy MemoryMetadata teamConfig (taskPublished ++ .start 7 findTask :: onward 7 1) 7)
    findTask (.ok ⟨.ok, [("content-type", "application/json")], .result taskResult⟩) := by
  have found : Answered MemoryMetadata teamConfig
      (taskPublished ++ .start 7 findTask :: onward 7 1) 7 findTask
      (.ok ⟨.ok, [("content-type", "application/json")], .result taskResult⟩) :=
    .of_run rfl task_answers.2.1
  exact learned_then_found teamConfig task_answered rfl (.published rfl) rfl rfl found

end Task
end Team
end MbxCache
