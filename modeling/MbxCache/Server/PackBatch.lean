import MbxCache.Server.PackOutcome
import MbxCache.Server.PackWaits
import MbxCache.Server.SingleUploads

namespace MbxCache

open Concurrent Pack

section
variable [Protocol] {M : Type} [MetadataStore M]

def CleanMoves (moves : List (Move Choice)) : Prop :=
  ∀ move ∈ moves, (undisturbed M).Admits move ∧ move ≠ .drop

inductive Singly (config : ServerConfig) (headers : Headers) :
    ServerState M → List Entry → ServerState M → Prop
  | nil (state : ServerState M) : Singly config headers state [] state
  | cons {state after : ServerState M} (entry : Entry) (rest : List Entry) (body : Body)
      (content : body.chunks.flatten = entry.payload) (ends : body.failure = none)
      (moves : List (Move Choice)) (clean : CleanMoves (M := M) moves)
      (result : Except ApiError Response)
      (answered : ((server M).run state (.start (putBlob config headers
        (entry.digest.algorithm, entry.digest.hash, entry.digest.size) body)) moves).2.answer =
          some result)
      (later : Singly config headers ((server M).run state (.start (putBlob config headers
        (entry.digest.algorithm, entry.digest.hash, entry.digest.size) body)) moves).1 rest after) :
      Singly config headers state (entry :: rest) after

theorem Singly.shown {config : ServerConfig} {headers : Headers} {ns : String}
    {state after : ServerState M} {entries : List Entry}
    (singly : Singly config headers state entries after)
    (working : MetadataStore.valid state.metadata) (authorized : headers.authorize .write = .ok ns)
    (immutable : headers.ifNoneMatch = some "*")
    (uploadable : ∀ entry ∈ entries, Uploadable M config ns entry) :
    after.shown = storeAll ns entries state.shown := by
  induction singly with
  | nil state => rfl
  | cons entry rest body content ends moves clean result answered later ih =>
      have single := putBlob_answers working authorized immutable
        (uploadable entry List.mem_cons_self) content ends
      obtain ⟨_, working', stored⟩ := Program.Ends.answered single
        (fun choice member => (clean _ member).1) answered
      rw [ih working' fun other member => uploadable other (List.mem_cons_of_mem _ member), stored]
      rfl

theorem singly_exists {config : ServerConfig} {headers : Headers} {ns : String}
    (authorized : headers.authorize .write = .ok ns) (immutable : headers.ifNoneMatch = some "*")
    (entries : List Entry) (uploadable : ∀ entry ∈ entries, Uploadable M config ns entry)
    (state : ServerState M) (working : MetadataStore.valid state.metadata) :
    ∃ after, Singly config headers state entries after := by
  induction entries generalizing state with
  | nil => exact ⟨state, .nil state⟩
  | cons entry rest ih =>
      have content : (⟨[entry.payload], none⟩ : Body).chunks.flatten = entry.payload :=
        List.append_nil _
      have single := putBlob_answers working authorized immutable
        (uploadable entry List.mem_cons_self) content rfl
      obtain ⟨count, result, answered, _, working', _⟩ := single.answers (fun _ => calm 0)
        (fun _ => calm_clean 0) []
      obtain ⟨after, later⟩ := ih (fun other member =>
        uploadable other (List.mem_cons_of_mem _ member)) _ working'
      refine ⟨after, .cons entry rest _ (List.append_nil _) rfl _ ?_ result answered later⟩
      intro move member
      obtain ⟨n, _, rfl⟩ := List.mem_map.mp member
      exact ⟨calm_clean 0, nofun⟩

/-- A pack upload of frames that match their digests, within the limits of the service and
under truthful headers, with nobody else around and nothing failing, after some moves. The
hashes tell the payloads apart. -/
structure PackBatch (M : Type) [Protocol] [MetadataStore M] where
  ns : String
  config : ServerConfig
  headers : Headers
  frames : List Entry
  chunks : List Bytes
  start : Working M
  moves : List (Move Choice)
  authorized : headers.authorize .write = .ok ns
  concurrency : 1 ≤ config.packStoreConcurrency
  encoded : encode frames = .ok chunks.flatten
  uploadable : ∀ entry ∈ frames, Uploadable M config ns entry
  few : frames.length ≤ maxBatchItems
  small : payloadTotal frames ≤ config.maxBlobBytes.toNat
  blobs : requiredU64Header headers.packBlobs "mbx-cache-pack-blobs" =
    .ok (UInt64.ofNat frames.length)
  bytes : requiredU64Header headers.packBytes "mbx-cache-pack-bytes" =
    .ok (UInt64.ofNat (payloadTotal frames))
  apart : ∀ one ∈ frames, ∀ other ∈ frames, ∀ algorithm,
    contentHash algorithm one.payload = contentHash algorithm other.payload →
      one.payload = other.payload
  clean : CleanMoves (M := M) moves

omit [Protocol] [MetadataStore M] in
theorem Exact.stored_ok {before after : ServerState M} {tasks : List (Task Api)}
    (exact : Exact before after tasks) {task : Task Api} {outcome : PutOutcome}
    (member : task ∈ tasks) (came : succeeded task = some outcome) :
    task.rest = .done (.stored (.ok outcome)) := by
  obtain ⟨live, _⟩ := exact.whole task member
  have ended := succeeded_ended came
  rw [Task.outcome, live, if_neg Bool.false_ne_true] at ended
  obtain ⟨out, result, same⟩ := Option.map_eq_some_iff.mp ended
  cases same
  exact Program.result?_eq result

namespace PackBatch

variable (batch : PackBatch M)

def reached : ServerState M × Process Api (Except ApiError Response) :=
  (server M).run batch.start.1
    (.start (putBlobPack batch.config batch.headers ⟨batch.chunks, none⟩)) batch.moves

def lacking : Finset Digest :=
  (batch.frames.map Entry.digest).toFinset.filter fun digest =>
    batch.start.1.blobs digest = none

variable {batch}

theorem count_toNat : (UInt64.ofNat batch.frames.length).toNat = batch.frames.length := by
  have few := batch.few
  exact UInt64.toNat_ofNat_of_lt' (lt_of_le_of_lt few (by decide))

theorem total_toNat : (UInt64.ofNat (payloadTotal batch.frames)).toNat =
    payloadTotal batch.frames :=
  UInt64.toNat_ofNat_of_lt' (lt_of_le_of_lt batch.small batch.config.maxBlobBytes.toNat_lt)

theorem whole : ∃ last, Unpacks (.new batch.config.maxBlobBytes (UInt64.ofNat batch.frames.length)
    (UInt64.ofNat (payloadTotal batch.frames))) batch.chunks batch.frames last := by
  refine whole_iff.mpr ⟨batch.encoded, ?_, ?_, ?_, ?_⟩
  · exact fun entry member => ⟨(batch.uploadable entry member).valid,
      (batch.uploadable entry member).names.1⟩
  · exact fun entry member => (batch.uploadable entry member).within
  · rw [count_toNat]
  · rw [total_toNat]

variable (batch) in
def run : PackRun M where
  ns := batch.ns
  config := batch.config
  blobs := UInt64.ofNat batch.frames.length
  bytes := UInt64.ofNat (payloadTotal batch.frames)
  body := ⟨batch.chunks, none⟩
  start := batch.start
  calm := True
  represents _ sum received entry member := by
    obtain ⟨last, whole⟩ := batch.whole
    exact (batch.uploadable entry ((received.initial whole).1.subset member)).represents

theorem program : putBlobPack batch.config batch.headers ⟨batch.chunks, none⟩ =
    uploadPack batch.config batch.ns batch.run.blobs batch.run.bytes batch.run.body := by
  have numbers : declared batch.config batch.headers =
      .ok (batch.run.blobs, batch.run.bytes) := by
    refine (PackAttempt.declared_iff _ _ _ _).mpr ⟨⟨batch.blobs, batch.bytes⟩, ?_, ?_⟩
    · exact count_toNat.trans_le batch.few
    · exact UInt64.le_iff_toNat_le.mpr (total_toNat.trans_le batch.small)
  rw [putBlobPack, batch.authorized, Handler.pureStep_ok, numbers, Handler.pureStep_ok]
  rfl

theorem holds : batch.run.stores.Holds batch.run.Ends batch.reached := by
  unfold reached
  rw [program]
  apply batch.run.holds
  intro move member
  have admitted := (batch.clean move member).1
  cases move with
  | main choice => exact ⟨admitted.1, fun _ => admitted.2.2⟩
  | task id choice => exact fun _ => admitted.1
  | abort id => exact admitted.elim
  | drop => trivial

/-- Nothing speaks against the upload. -/
theorem no_fault {world : World (server M)} (stands : batch.run.Stands world) :
    ¬ batch.run.Fault world := by
  intro fault
  obtain ⟨last, whole⟩ := batch.whole
  cases fault with
  | refused permits _ asked => exact stands.granted trivial permits asked
  | oversize sum received frame member large =>
      obtain ⟨entry, listed, named⟩ := (received.initial whole).2 frame member
      exact large (named ▸ (batch.uploadable entry listed).reservable)
  | mismatch sum received entry member differs =>
      exact differs (batch.uploadable entry ((received.initial whole).1.subset member)).names
  | store task member ended failed =>
      obtain ⟨entry, storing⟩ := stands.tasks task member
      obtain ⟨live, unfailed⟩ := (stands.exact trivial).whole task member
      have stage := storing.stage
      generalize rest : task.rest = program at stage
      cases stage with
      | begun => simp [Task.running, Task.outcome, live, rest, storeFrame, Program.result?] at ended
      | placed outcome =>
          simp [Task.running, Task.outcome, live, rest, registering, Program.result?] at ended
      | ended result =>
          cases result with
          | error error => exact unfailed error rest
          | ok outcome =>
              simp [succeeded, Task.outcome, live, rest, Program.result?] at failed
  | incomplete never =>
      exact never batch.frames ⟨rfl, ⟨last, whole⟩, count_toNat.symm, total_toNat.symm⟩

theorem created_count {before after : ServerState M} {tasks : List (Task Api)}
    {ns : String} (exact : Exact before after tasks)
    (tracked : ∀ task ∈ tasks, ∃ entry, StoreTask ns after entry task)
    (well : ∀ task ∈ tasks, (succeeded task).isSome) :
    (tasks.countP fun task => succeeded task = some .created) =
      (((storedFrames tasks).map Entry.digest).toFinset.filter fun digest =>
        before.blobs digest = none).card := by
  let made : Task Api → Option Digest := fun task =>
    if succeeded task = some .created then task.job.frame.map Entry.digest else none
  have placing : ∀ task ∈ tasks, ∀ outcome, succeeded task = some outcome →
      putOutcome task.rest = some outcome := by
    intro task member outcome came
    rw [exact.stored_ok member came]
    rfl
  have putting : ∀ task ∈ tasks, succeeded task = some .created ↔
      putOutcome task.rest = some .created := by
    intro task member
    obtain ⟨outcome, came⟩ := Option.isSome_iff_exists.mp (well task member)
    rw [placing task member outcome came, came]
  have creates : ∀ (id : Nat) (task : Task Api) (digest : Digest), tasks[id]? = some task →
      (made task = some digest ↔ Created tasks id digest) := by
    intro id task digest present
    have member := List.mem_of_getElem? present
    simp only [made, Created, present, Option.some.injEq, exists_eq_left', putting task member]
    split
    · rename_i put
      simp [put]
    · rename_i unput
      simp [unput]
  have distinct : (tasks.filterMap made).Nodup := by
    refine List.pairwise_filterMap.mpr (List.pairwise_iff_getElem.mpr ?_)
    intro i j _ _ before digest one digest' other same
    subst same
    have equal := exact.once i j digest
      ((creates i _ digest (List.getElem?_eq_getElem _)).mp one)
      ((creates j _ digest (List.getElem?_eq_getElem _)).mp other)
    omega
  have listed : (tasks.filterMap made).toFinset =
      ((storedFrames tasks).map Entry.digest).toFinset.filter fun digest =>
        before.blobs digest = none := by
    ext digest
    simp only [List.mem_toFinset, List.mem_filterMap, Finset.mem_filter, List.mem_map]
    constructor
    · rintro ⟨task, member, put⟩
      obtain ⟨id, present⟩ := List.mem_iff_getElem?.mp member
      have created := (creates id task digest present).mp put
      have absent := exact.absent id digest created
      obtain ⟨held, there, named, _⟩ := created
      cases present.symm.trans there
      obtain ⟨entry, storing⟩ := tracked task member
      rw [storing.job] at named
      exact ⟨⟨entry, storing.frame member, Option.some.inj named⟩, absent⟩
    · rintro ⟨⟨entry, listed, rfl⟩, absent⟩
      obtain ⟨job, started, framed⟩ := List.mem_filterMap.mp listed
      obtain ⟨task, member, rfl⟩ := List.mem_map.mp started
      obtain ⟨entry', storing⟩ := tracked task member
      rw [storing.job] at framed
      cases framed
      obtain ⟨outcome, came⟩ := Option.isSome_iff_exists.mp (well task member)
      have stored := storing.placed (by rw [placing task member outcome came]; rfl)
      obtain ⟨number, created⟩ := exact.every _ absent stored
      have found := created
      obtain ⟨held, there, _⟩ := found
      exact ⟨held, List.mem_of_getElem? there, (creates number held _ there).mpr created⟩
  rw [← listed, List.toFinset_card_of_nodup distinct, List.length_filterMap_eq_countP]
  apply List.countP_congr
  intro task member
  obtain ⟨entry, storing⟩ := tracked task member
  have frame : task.job.frame = some entry := by
    rw [storing.job]
    rfl
  by_cases created : succeeded task = some .created <;> simp [made, created, frame]

theorem same_payload {one other : Entry} (member : one ∈ batch.frames)
    (member' : other ∈ batch.frames) (same : one.digest = other.digest) :
    one.payload = other.payload := by
  obtain ⟨_, algorithm, kind, hash⟩ := (batch.uploadable one member).names
  obtain ⟨_, algorithm', kind', hash'⟩ := (batch.uploadable other member').names
  rw [same] at kind hash
  cases kind.symm.trans kind'
  exact batch.apart one member other member' algorithm (hash.symm.trans hash')

/-- What an accepted upload leaves is what its frames leave one after another. -/
theorem left_as_singly {state : ServerState M}
    (gained : Gained batch.ns batch.frames batch.start.1 state)
    (stored : ∀ entry ∈ batch.frames, (state.blobs entry.digest).isSome ∧
      state.Sees batch.ns entry.digest) :
    state.shown = storeAll batch.ns batch.frames batch.start.1.shown := by
  have blobs : state.blobs = (storeAll batch.ns batch.frames batch.start.1.shown).1 := by
    funext digest
    rw [storeAll_blobs]
    change _ = (batch.start.1.blobs digest).or _
    cases before : batch.start.1.blobs digest with
    | some bytes =>
        rw [gained.within digest bytes before, Option.some_or]
    | none =>
        rw [Option.none_or]
        cases found : batch.frames.find? fun entry => entry.digest == digest with
        | none =>
            cases after : state.blobs digest with
            | none => rfl
            | some bytes =>
                rcases gained.objects digest bytes after with old | member
                · rw [before] at old
                  cases old
                · have differs := List.find?_eq_none.mp found _ member
                  simp at differs
        | some entry =>
            have member := List.mem_of_find?_eq_some found
            have named : entry.digest = digest := by
              simpa using List.find?_some found
            obtain ⟨bytes, held⟩ := Option.isSome_iff_exists.mp (stored entry member).1
            rw [named] at held
            rcases gained.objects digest bytes held with old | member'
            · rw [before] at old
              cases old
            · rw [held, Option.map_some, same_payload member member' named]
  have view : state.view = (storeAll batch.ns batch.frames batch.start.1.shown).2 := by
    obtain ⟨results, manifests, rows⟩ :=
      @storeAll_view batch.ns batch.frames batch.start.1.shown
    have visible : state.view.visible =
        (storeAll batch.ns batch.frames batch.start.1.shown).2.visible := by
      funext other digest
      refine Bool.eq_iff_iff.mpr (Iff.trans ?_ (rows other digest).symm)
      constructor
      · exact gained.fresh other digest
      · rintro (old | ⟨rfl, entry, member, rfl⟩)
        · exact gained.rows other digest old
        · exact (stored entry member).2
    calc state.view
      _ = ⟨state.view.visible, state.view.result, state.view.manifest⟩ := rfl
      _ = ⟨(storeAll batch.ns batch.frames batch.start.1.shown).2.visible,
            (storeAll batch.ns batch.frames batch.start.1.shown).2.result,
            (storeAll batch.ns batch.frames batch.start.1.shown).2.manifest⟩ := by
        rw [visible, gained.results.trans results.symm, gained.manifests.trans manifests.symm]
      _ = (storeAll batch.ns batch.frames batch.start.1.shown).2 := rfl
  exact Prod.ext blobs view

theorem answered_ok {result : Except ApiError Response}
    (answered : batch.reached.2.answer = some result) :
    (∃ response, result = .ok response ∧ response.status = .ok ∧ response.content =
      .receipt batch.lacking.card (batch.frames.length - batch.lacking.card)) ∧
    batch.reached.1.shown = storeAll batch.ns batch.frames batch.start.1.shown := by
  have holds := batch.holds
  obtain ⟨stands, ended, outcome⟩ := holds.answer answered
  cases result with
  | error error => exact (no_fault stands outcome).elim
  | ok response =>
      obtain ⟨last, whole⟩ := batch.whole
      obtain ⟨last', whole'⟩ := outcome.complete.2.1
      have frames : storedFrames batch.reached.2.tasks = batch.frames := (whole.same whole').2
      have created := created_count (stands.exact trivial) stands.tasks outcome.succeeded
      have counts := succeeded_count outcome.succeeded
      rw [← stands.count] at counts
      change _ = (storedFrames batch.reached.2.tasks).length at counts
      have lacking : (List.countP (fun task => succeeded task = some .created)
          batch.reached.2.tasks) = batch.lacking.card := by
        refine created.trans ?_
        change Finset.card (Finset.filter _
          ((storedFrames batch.reached.2.tasks).map Entry.digest).toFinset) = _
        rw [frames]
        rfl
      refine ⟨⟨response, rfl, outcome.answer.1, ?_⟩, ?_⟩
      · rw [outcome.answer.2]
        change Content.receipt (List.countP _ batch.reached.2.tasks)
          (List.countP _ batch.reached.2.tasks) = _
        change List.countP _ batch.reached.2.tasks + List.countP _ batch.reached.2.tasks = _
          at counts
        rw [frames, lacking] at counts
        rw [lacking, ← counts, Nat.add_sub_cancel_left]
      · have gained := stands.gained
        change Gained _ (storedFrames batch.reached.2.tasks) _ _ at gained
        rw [frames] at gained
        apply left_as_singly gained
        intro entry member
        rw [← frames] at member
        obtain ⟨job, started, framed⟩ := List.mem_filterMap.mp member
        obtain ⟨task, among, rfl⟩ := List.mem_map.mp started
        obtain ⟨entry', storing⟩ := stands.tasks task among
        rw [storing.job] at framed
        cases framed
        obtain ⟨outcome, came⟩ := Option.isSome_iff_exists.mp (outcome.succeeded task among)
        have ended := (stands.exact trivial).stored_ok among came
        exact ⟨storing.placed (by rw [ended]; rfl), storing.seen outcome ended⟩

def Single (batch : PackBatch M) : Type :=
  { headers : Headers // headers.authorize .write = .ok batch.ns ∧ headers.ifNoneMatch = some "*" }

end PackBatch

/-- A pack upload is a batch of single uploads: it can always come to an answer, the answer is
always that the pack was stored, its counts follow from what the storage lacked, and what it
leaves is what single uploads of its frames leave, whichever way they go. -/
theorem pack_is_batch (batch : PackBatch M) (single : batch.Single) :
    (∃ more, CleanMoves (M := M) more ∧
      ((server M).run batch.start.1 (.start (putBlobPack batch.config batch.headers
        ⟨batch.chunks, none⟩)) (batch.moves ++ more)).2.answer.isSome) ∧
    (∃ after, Singly batch.config single.1 batch.start.1 batch.frames after) ∧
    ∀ result, batch.reached.2.answer = some result →
      (∃ response, result = .ok response ∧ response.status = .ok ∧ response.content =
        .receipt batch.lacking.card (batch.frames.length - batch.lacking.card)) ∧
      ∀ after, Singly batch.config single.1 batch.start.1 batch.frames after →
        batch.reached.1.blobs = after.blobs ∧ batch.reached.1.view = after.view := by
  obtain ⟨authorized, immutable⟩ := single.2
  refine ⟨?_, singly_exists authorized immutable batch.frames batch.uploadable _ batch.start.2, ?_⟩
  · have waits := uploadPack_waits batch.config batch.ns batch.run.blobs batch.run.bytes
      batch.run.body
    rw [← batch.program] at waits
    obtain ⟨more, result, goes, answered⟩ := waits.answers undisturbed_lively batch.start.1
      fun move member => (batch.clean move member).2
    exact ⟨more, goes, by rw [answered]; rfl⟩
  · intro result answered
    obtain ⟨receipt, left⟩ := batch.answered_ok answered
    refine ⟨receipt, ?_⟩
    intro after singly
    have same := left.trans
      (singly.shown batch.start.2 authorized immutable batch.uploadable).symm
    exact ⟨congrArg Prod.fst same, congrArg Prod.snd same⟩

end

section Mixed
attribute [local instance] Specimen.protocol

def mixedFrames : List Entry :=
  [⟨Specimen.zeroDigest, [0]⟩, ⟨Specimen.emptyDigest, []⟩, ⟨Specimen.zeroDigest, [0]⟩]

def zeroHeld : ServerState MemoryMetadata :=
  { ServerState.initial MemoryMetadata with
    blobs := fun digest => if digest = Specimen.zeroDigest then some [0] else none }

theorem zeroHeld_valid :
    @MetadataStore.valid MemoryMetadata Specimen.protocol _ zeroHeld.metadata :=
  MetadataStore.empty_valid

def mixedStart : Working MemoryMetadata := ⟨zeroHeld, zeroHeld_valid⟩

theorem mixed_uploadable : ∀ entry ∈ mixedFrames,
    Uploadable MemoryMetadata ⟨2, 1, false⟩ "team" entry := by
  have zero : Uploadable MemoryMetadata ⟨2, 1, false⟩ "team" ⟨Specimen.zeroDigest, [0]⟩ :=
    ⟨by decide, ⟨rfl, .blake3, rfl, by decide +kernel⟩, by decide, by simp, rfl⟩
  have empty : Uploadable MemoryMetadata ⟨2, 1, false⟩ "team" ⟨Specimen.emptyDigest, []⟩ :=
    ⟨by decide, ⟨rfl, .blake3, rfl, by decide +kernel⟩, by decide, by simp, rfl⟩
  intro entry member
  simp only [mixedFrames, List.mem_cons, List.not_mem_nil, or_false] at member
  rcases member with rfl | rfl | rfl
  exacts [zero, empty, zero]

theorem mixed_apart : ∀ one ∈ mixedFrames, ∀ other ∈ mixedFrames, ∀ algorithm,
    contentHash algorithm one.payload = contentHash algorithm other.payload →
      one.payload = other.payload := by
  have apart : ∀ algorithm, contentHash algorithm [0] ≠ contentHash algorithm [] := by
    intro algorithm
    cases algorithm <;> decide +kernel
  intro one member other member' algorithm same
  simp only [mixedFrames, List.mem_cons, List.not_mem_nil, or_false] at member member'
  rcases member with rfl | rfl | rfl <;> rcases member' with rfl | rfl | rfl
  all_goals first | rfl | exact absurd same (apart algorithm) | exact absurd same.symm (apart algorithm)

def mixedHeaders : Headers :=
  ⟨fun _ => .ok "team", granted_named Specimen.team, some "*", none, some "3", some "2"⟩

def mixedPack (moves : List (Move Choice)) (clean : CleanMoves (M := MemoryMetadata) moves) :
    PackBatch MemoryMetadata where
  ns := "team"
  config := ⟨2, 1, false⟩
  headers := mixedHeaders
  frames := mixedFrames
  chunks := [blobPackMagic, (encodeFrames mixedFrames).toOption.getD []]
  start := mixedStart
  moves := moves
  authorized := rfl
  concurrency := by decide
  encoded := rfl
  uploadable := mixed_uploadable
  few := by decide
  small := by decide
  blobs := rfl
  bytes := rfl
  apart := mixed_apart
  clean := clean

/-- Of the frames, only the empty one is stored. The end is that of single uploads. -/
theorem mixed_pack_is_batch : ∃ moves clean response after,
    (mixedPack moves clean).reached.2.answer = some (.ok response) ∧
      response.content = .receipt 1 2 ∧
      Singly ⟨2, 1, false⟩ mixedHeaders mixedStart.1 mixedFrames after ∧
      (mixedPack moves clean).reached.1.blobs = after.blobs ∧
      (mixedPack moves clean).reached.1.view = after.view := by
  obtain ⟨⟨moves, clean, ended⟩, -⟩ := pack_is_batch (mixedPack [] (by simp [CleanMoves]))
    ⟨mixedHeaders, rfl, rfl⟩
  obtain ⟨result, answered⟩ := Option.isSome_iff_exists.mp ended
  obtain ⟨-, ⟨after, singly⟩, outcome⟩ := pack_is_batch (mixedPack moves clean)
    ⟨mixedHeaders, rfl, rfl⟩
  obtain ⟨⟨response, rfl, -, content⟩, left⟩ := outcome result answered
  obtain ⟨blobs, view⟩ := left after singly
  have lacking : (mixedPack moves clean).lacking.card = 1 := by
    change (((mixedFrames.map Entry.digest).toFinset.filter fun digest =>
      mixedStart.1.blobs digest = none).card = 1)
    decide
  rw [lacking] at content
  exact ⟨moves, clean, response, after, answered, content, singly, blobs, view⟩

end Mixed
end MbxCache
