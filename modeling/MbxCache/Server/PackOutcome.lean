import MbxCache.Concurrent.Alone
import MbxCache.Metadata.Memory
import MbxCache.Server.PackLoop
import MbxCache.Specimen

namespace MbxCache

open Concurrent Pack

section
variable [Protocol] {M : Type} [MetadataStore M]

/-- An authorized pack upload with nobody else around, after some moves. Stores may fail or be
cut off and permits may be refused, but local files can be written. -/
structure PackAttempt (M : Type) [Protocol] [MetadataStore M] where
  ns : String
  config : ServerConfig
  headers : Headers
  body : Body
  start : Working M
  moves : List (Move Choice)
  authorized : headers.authorize .write = .ok ns
  concurrency : 1 ≤ config.packStoreConcurrency
  localIo : ∀ choice, .main choice ∈ moves → choice.fault = .none

def Calls (process : Process Api (Except ApiError Response)) (op : Op) : Prop :=
  (∃ next, process.main = .call op next) ∨
    ∃ task ∈ process.tasks, ∃ next, task.rest = .call op next

namespace PackAttempt

variable (attempt : PackAttempt M)

def reached : ServerState M × Process Api (Except ApiError Response) :=
  (server M).run attempt.start.1
    (.start (putBlobPack attempt.config attempt.headers attempt.body)) attempt.moves

def state : ServerState M := attempt.reached.1

def process : Process Api (Except ApiError Response) := attempt.reached.2

def run (blobs bytes : UInt64) : PackRun M where
  ns := attempt.ns
  config := attempt.config
  blobs := blobs
  bytes := bytes
  body := attempt.body
  start := attempt.start
  calm := False
  represents := False.elim

def Declares (blobs bytes : UInt64) : Prop :=
  requiredU64Header attempt.headers.packBlobs "mbx-cache-pack-blobs" = .ok blobs ∧
    requiredU64Header attempt.headers.packBytes "mbx-cache-pack-bytes" = .ok bytes

/-- The body is a whole pack, as declared, of frames that are what their digests name; all
that was asked of the spool was granted, and every store has ended well. -/
def Succeeds : Prop :=
  ∃ blobs bytes entries, attempt.Declares blobs bytes ∧
    (attempt.run blobs bytes).Complete entries ∧
    (∀ entry ∈ entries, entry.digest.Names entry.payload ∧
      (attempt.run blobs bytes).Reservable entry.digest.size) ∧
    (∀ permits, refusal permits ∉ attempt.process.asked) ∧
    ∀ task ∈ attempt.process.tasks, (succeeded task).isSome

def WithinLimits : Prop :=
  ∃ blobs bytes, attempt.Declares blobs bytes ∧ blobs.toNat ≤ maxBatchItems ∧
    bytes ≤ attempt.config.maxBlobBytes

variable {attempt}

omit [Protocol] [MetadataStore M] in
theorem declared_iff (config : ServerConfig) (headers : Headers) (blobs bytes : UInt64) :
    declared config headers = .ok (blobs, bytes) ↔
      (requiredU64Header headers.packBlobs "mbx-cache-pack-blobs" = .ok blobs ∧
        requiredU64Header headers.packBytes "mbx-cache-pack-bytes" = .ok bytes) ∧
        blobs.toNat ≤ maxBatchItems ∧ bytes ≤ config.maxBlobBytes := by
  unfold declared
  cases requiredU64Header headers.packBlobs "mbx-cache-pack-blobs" with
  | error error => simp [bind, Except.bind]
  | ok found =>
      cases requiredU64Header headers.packBytes "mbx-cache-pack-bytes" with
      | error error => simp [bind, Except.bind]
      | ok found' =>
          simp only [bind, Except.bind]
          split
          · simp only [reduceCtorEq, Except.ok.injEq, false_iff]
            rintro ⟨⟨rfl, rfl⟩, few, _⟩
            omega
          · split
            · rename_i _ large
              simp only [reduceCtorEq, Except.ok.injEq, false_iff]
              rintro ⟨⟨rfl, rfl⟩, _, small⟩
              exact absurd small (UInt64.not_le.mpr large)
            · rename_i few small
              simp only [Except.ok.injEq, Prod.mk.injEq]
              constructor
              · rintro ⟨rfl, rfl⟩
                exact ⟨⟨rfl, rfl⟩, Nat.le_of_not_lt few, UInt64.not_lt.mp small⟩
              · exact fun agrees => agrees.1

end PackAttempt

theorem PackRun.Stands.initial (run : PackRun M) :
    run.Stands ⟨run.start.1, [], []⟩ where
  valid := run.start.2
  tasks _ member := by cases member
  verified := ⟨⟨.start, Received.start _ _, List.nil_prefix⟩, nofun⟩
  bounded := Nat.zero_le _
  gained := .refl _ _
  granted _ _ := List.not_mem_nil
  exact _ := by
    have none : ∀ id digest, ¬ Created [] id digest := by
      rintro id digest ⟨_, present, _⟩
      cases present
    refine ⟨nofun, fun id digest made => (none id digest made).elim,
      fun id _ digest made => (none id digest made).elim, fun digest absent present => ?_⟩
    rw [absent] at present
    cases present

/-- At every moment of an upload its invariant holds, its next step is one it may take, and
once it has answered it has come to one of its ends. -/
theorem PackRun.holds (run : PackRun M) {moves : List (Move Choice)}
    (admitted : ∀ move ∈ moves, run.regime.Admits move) :
    run.stores.Holds run.Ends ((server M).run run.start.1
      (.start (uploadPack run.config run.ns run.blobs run.bytes run.body)) moves) := by
  have begins : run.stores.Holds run.Ends (run.start.1,
      Process.start (uploadPack run.config run.ns run.blobs run.bytes run.body)) :=
    ⟨PackRun.Stands.initial run, PackRun.uploadPack_ends ⟨rfl, rfl⟩⟩
  exact begins.run admitted

/-- A task that is about to put something puts its own frame. -/
theorem StoreTask.puts {ns : String} {state : ServerState M} {entry : Entry} {task : Task Api}
    (storing : StoreTask ns state entry task) {digest : Digest} {bytes : Bytes}
    {next : Except Failure PutOutcome → Program Api Out}
    (head : task.rest = .call (.put digest bytes) next) : (⟨digest, bytes⟩ : Entry) = entry := by
  have stage := storing.stage
  rw [head] at stage
  cases stage
  rfl

theorem PackRun.Stands.count {run : PackRun M} {world : World (server M)}
    (stands : run.Stands world) : (storedFrames world.tasks).length = world.tasks.length := by
  have each := stands.tasks
  generalize world.tasks = tasks at each
  induction tasks with
  | nil => rfl
  | cons task rest ih =>
      obtain ⟨entry, storing⟩ := each task List.mem_cons_self
      have frames : storedFrames (task :: rest) = entry :: storedFrames rest := by
        simp [storedFrames, storing.job, Job.frame]
      rw [frames, List.length_cons, List.length_cons,
        ih fun other member => each other (List.mem_cons_of_mem _ member)]

omit [Protocol] in
theorem succeeded_count {tasks : List (Task Api)}
    (well : ∀ task ∈ tasks, (succeeded task).isSome) :
    (tasks.countP fun task => succeeded task = some .created) +
      (tasks.countP fun task => succeeded task = some .alreadyExists) = tasks.length := by
  induction tasks with
  | nil => rfl
  | cons task rest ih =>
      have counts := ih fun other member => well other (List.mem_cons_of_mem _ member)
      obtain ⟨outcome, came⟩ := Option.isSome_iff_exists.mp (well task List.mem_cons_self)
      cases outcome <;> simp [came] <;> omega

namespace PackAttempt

variable {attempt : PackAttempt M}

theorem refused_at_once {error : ApiError}
    (refused : declared attempt.config attempt.headers = .error error) :
    attempt.state = attempt.start.1 ∧ attempt.process.main = .done (.error error) ∧
      attempt.process.tasks = [] := by
  have program : putBlobPack attempt.config attempt.headers attempt.body =
      .done (.error error) := by
    rw [putBlobPack, attempt.authorized, Handler.pureStep_ok, refused]
    rfl
  obtain ⟨dropped, ran⟩ := (server M).run_done attempt.start.1
    (.error error : Except ApiError Response) [] false attempt.moves
  unfold state process reached
  rw [program]
  exact ⟨congrArg Prod.fst ran, congrArg (fun config => config.2.main) ran,
    congrArg (fun config => config.2.tasks) ran⟩

theorem process_holds {blobs bytes : UInt64}
    (numbers : declared attempt.config attempt.headers = .ok (blobs, bytes)) :
    (attempt.run blobs bytes).stores.Holds (attempt.run blobs bytes).Ends attempt.reached := by
  have program : putBlobPack attempt.config attempt.headers attempt.body =
      uploadPack attempt.config attempt.ns blobs bytes attempt.body := by
    rw [putBlobPack, attempt.authorized, Handler.pureStep_ok, numbers, Handler.pureStep_ok]
  unfold reached
  rw [program]
  apply (attempt.run blobs bytes).holds
  intro move member
  cases move with
  | main choice => exact ⟨attempt.localIo choice member, False.elim⟩
  | task id choice => exact False.elim
  | abort id => exact not_false
  | drop => trivial

theorem fault_unsuccessful {blobs bytes : UInt64}
    (numbers : declared attempt.config attempt.headers = .ok (blobs, bytes))
    (fault : (attempt.run blobs bytes).Fault
      (World.of attempt.state attempt.process : World (server M))) : ¬ attempt.Succeeds := by
  rintro ⟨blobs', bytes', entries, declares, complete, sound, granted, well⟩
  obtain ⟨⟨count, total⟩, _⟩ := (declared_iff _ _ _ _).mp numbers
  cases count.symm.trans declares.1
  cases total.symm.trans declares.2
  obtain ⟨last, whole⟩ := complete.2.1
  cases fault with
  | refused permits _ asked => exact granted permits asked
  | oversize sum received frame member large =>
      obtain ⟨entry, listed, named⟩ := (received.initial whole).2 frame member
      exact large (named ▸ (sound entry listed).2)
  | mismatch sum received entry member differs =>
      exact differs (sound entry ((received.initial whole).1.subset member)).1
  | store task member ended failed =>
      have came := well task member
      rw [failed] at came
      cases came
  | incomplete never => exact never entries complete

end PackAttempt

/-- Whatever fails and whenever: only verified frames are ever put, never more stores are
under way than allowed, no answer is given while one is, an upload is accepted exactly when
it succeeds within the limits, and otherwise too nothing that was there is changed. -/
theorem upload_leaves_verified (attempt : PackAttempt M) :
    (∃ frames : List Entry,
      (frames = [] ∨ ∃ blobs bytes, attempt.Declares blobs bytes ∧
        (attempt.run blobs bytes).Verified frames) ∧
      (∀ digest bytes, Calls attempt.process (.put digest bytes) →
        (⟨digest, bytes⟩ : Entry) ∈ frames) ∧
      Gained attempt.ns frames attempt.start.1 attempt.state) ∧
    attempt.process.tasks.countP Task.running ≤ attempt.config.packStoreConcurrency ∧
    ∀ result, attempt.process.answer = some result →
      (∀ task ∈ attempt.process.tasks, task.running = false) ∧
      ((∃ response, result = .ok response ∧ response.status = .ok) ↔
        attempt.WithinLimits ∧ attempt.Succeeds) ∧
      ∀ response, result = .ok response → ∃ blobs bytes created existing,
        attempt.Declares blobs bytes ∧ response.content = .receipt created existing ∧
        created + existing = blobs.toNat := by
  cases numbers : declared attempt.config attempt.headers with
  | error error =>
      obtain ⟨same, main, tasks⟩ := PackAttempt.refused_at_once numbers
      have limits : ¬ attempt.WithinLimits := by
        rintro ⟨blobs, bytes, declares, few, small⟩
        have accepted := (PackAttempt.declared_iff _ _ _ _).mpr ⟨declares, few, small⟩
        rw [numbers] at accepted
        cases accepted
      refine ⟨⟨[], .inl rfl, ?_, ?_⟩, ?_, ?_⟩
      · rintro digest bytes (⟨next, head⟩ | ⟨task, member, _⟩)
        · rw [main] at head
          cases head
        · rw [tasks] at member
          cases member
      · rw [same]
        exact .refl _ _
      · rw [tasks]
        exact Nat.zero_le _
      · intro result answered
        rw [Process.answer, main] at answered
        cases answered
        refine ⟨?_, ?_, nofun⟩
        · rw [tasks]
          exact nofun
        · constructor
          · rintro ⟨response, wrong, _⟩
            cases wrong
          · exact fun both => (limits both.1).elim
  | ok pair =>
      obtain ⟨blobs, bytes⟩ := pair
      obtain ⟨declares, few, small⟩ := (PackAttempt.declared_iff _ _ _ _).mp numbers
      have holds := PackAttempt.process_holds numbers
      obtain ⟨stands, _⟩ := id holds
      refine ⟨⟨storedFrames attempt.process.tasks, .inr ⟨blobs, bytes, declares, stands.verified⟩,
        ?_, stands.gained⟩, ?_, ?_⟩
      · rintro digest content (⟨next, head⟩ | ⟨task, member, next, head⟩)
        · rcases holds.asks head with wrong | ⟨_, wrong⟩ <;> cases wrong
        · obtain ⟨entry, storing⟩ := stands.tasks task member
          rw [storing.puts head]
          exact StoreTask.frame storing member
      · have bounded := stands.bounded
        have limit : (attempt.run blobs bytes).limit = attempt.config.packStoreConcurrency :=
          Nat.max_eq_right attempt.concurrency
        rw [limit] at bounded
        exact bounded
      · intro result answered
        obtain ⟨_, ended, outcome⟩ := holds.answer answered
        refine ⟨ended, ?_, ?_⟩
        · cases result with
          | error error =>
              simp only [reduceCtorEq, false_and, exists_false, false_iff, not_and]
              exact fun _ => PackAttempt.fault_unsuccessful numbers outcome
          | ok response =>
              refine ⟨fun _ => ⟨⟨blobs, bytes, declares, few, small⟩, ?_⟩,
                fun _ => ⟨response, rfl, outcome.answer.1⟩⟩
              exact ⟨blobs, bytes, _, declares, outcome.complete, fun entry member =>
                ⟨stands.verified.2 entry member, outcome.reservable entry member⟩,
                outcome.granted, outcome.succeeded⟩
        · rintro response rfl
          refine ⟨blobs, bytes, _, _, declares, outcome.answer.2, ?_⟩
          rw [succeeded_count outcome.succeeded, ← stands.count]
          exact outcome.complete.2.2.1

end

section Overdeclared

attribute [local instance] Specimen.protocol

def overdeclared : PackAttempt MemoryMetadata where
  ns := "team"
  config := ⟨1, 4, false⟩
  headers := ⟨fun _ => .ok "team", granted_named Specimen.team, none, none, some "2", some "2"⟩
  body := ⟨[((encode [⟨Specimen.zeroDigest, [0]⟩, ⟨Specimen.zeroDigest, [0]⟩]).toOption.getD [])],
    none⟩
  start := ⟨.initial MemoryMetadata, MetadataStore.empty_valid⟩
  moves := []
  authorized := rfl
  concurrency := by decide
  localIo := nofun

/-- A pack that is whole, verified and as declared is refused for what it declares. -/
theorem overdeclared_refused :
    ∃ result, overdeclared.process.answer = some result ∧
      ¬ ((∃ response, result = .ok response ∧ response.status = .ok) ↔ overdeclared.Succeeds) := by
  refine ⟨.error (.tooLarge "blob pack exceeds the configured size limit"), rfl, ?_⟩
  have names : Specimen.zeroDigest.Names [0] :=
    ⟨rfl, .blake3, rfl, by decide +kernel⟩
  have succeeds : overdeclared.Succeeds := by
    refine ⟨2, 2, [⟨Specimen.zeroDigest, [0]⟩, ⟨Specimen.zeroDigest, [0]⟩], ⟨rfl, rfl⟩,
      ⟨rfl, whole_iff.mpr ⟨?_, ?_, ?_⟩, rfl, rfl⟩, ?_, nofun, nofun⟩
    · rfl
    · intro entry member
      have same : entry = ⟨Specimen.zeroDigest, [0]⟩ := by simpa using member
      rw [same]
      exact ⟨by decide, rfl⟩
    · refine ⟨?_, by decide, by decide⟩
      intro entry member
      have same : entry = ⟨Specimen.zeroDigest, [0]⟩ := by simpa using member
      rw [same]
      decide
    · intro entry member
      have same : entry = ⟨Specimen.zeroDigest, [0]⟩ := by simpa using member
      rw [same]
      exact ⟨names, nofun⟩
  intro same
  obtain ⟨response, wrong, _⟩ := same.mpr succeeds
  cases wrong

end Overdeclared
end MbxCache
