import MbxCache.Concurrent.Solo
import MbxCache.Pack.Received
import MbxCache.Server.Effects
import MbxCache.Server.PackUpload

namespace MbxCache

open Concurrent Pack

/-- A pack upload as it begins. Where it is `calm`, nothing fails, nothing is refused and no
store is cut off. -/
structure PackRun (M : Type) [Protocol] [MetadataStore M] where
  ns : String
  config : ServerConfig
  blobs : UInt64
  bytes : UInt64
  body : Body
  start : Working M
  calm : Prop
  represents : calm → ∀ sum, Received (.new config.maxBlobBytes blobs bytes) body.chunks sum →
    ∀ entry ∈ sum.entries, MetadataStore.representsBlob M ns entry.digest = true

def Job.frame : Job → Option Entry
  | .store _ digest bytes => some ⟨digest, bytes⟩
  | .read _ _ => none

def storedFrames (tasks : List (Task Api)) : List Entry :=
  (tasks.map Task.job).filterMap Job.frame

def registering (ns : String) (digest : Digest) (outcome : PutOutcome) : Program Api Out :=
  .call (.registerBlob ns digest outcome) fun registered : Except Failure Unit =>
    match registered with
    | .error failure => .done (.stored (.error (.internal failure)))
    | .ok () => .done (.stored (.ok outcome))

inductive Storing (ns : String) (entry : Entry) : Program Api Out → Prop
  | begun : Storing ns entry (storeFrame ns entry.digest entry.payload)
  | placed (outcome : PutOutcome) : Storing ns entry (registering ns entry.digest outcome)
  | ended (result : Except ApiError PutOutcome) : Storing ns entry (.done (.stored result))

def putOutcome : Program Api Out → Option PutOutcome
  | .call (.registerBlob _ _ outcome) _ => some outcome
  | .done (.stored (.ok outcome)) => some outcome
  | _ => none

def refusal (permits : Nat) : Asked Api := ⟨.acquire permits, (.ok false : Except Failure Bool)⟩

section
variable [Protocol] {M : Type} [MetadataStore M]

structure StoreTask (ns : String) (state : ServerState M) (entry : Entry) (task : Task Api) :
    Prop where
  job : task.job = .store ns entry.digest entry.payload
  stage : Storing ns entry task.rest
  placed : (putOutcome task.rest).isSome → (state.blobs entry.digest).isSome
  seen : ∀ outcome, task.rest = .done (.stored (.ok outcome)) → state.Sees ns entry.digest

/-- What a state owes to some frames: it lost nothing, and gained only their objects and
their rows. -/
structure Gained (ns : String) (frames : List Entry) (before after : ServerState M) : Prop where
  within : Objects.Within before.blobs after.blobs
  objects : ∀ digest bytes, after.blobs digest = some bytes →
    before.blobs digest = some bytes ∨ ⟨digest, bytes⟩ ∈ frames
  rows : ∀ other digest, before.Sees other digest → after.Sees other digest
  fresh : ∀ other digest, after.Sees other digest →
    before.Sees other digest ∨ other = ns ∧ ∃ entry ∈ frames, entry.digest = digest
  results : after.view.result = before.view.result
  manifests : after.view.manifest = before.view.manifest

def Created (tasks : List (Task Api)) (id : Nat) (digest : Digest) : Prop :=
  ∃ task, tasks[id]? = some task ∧ (task.job.frame.map Entry.digest) = some digest ∧
    putOutcome task.rest = some .created

/-- Which stores created their objects, where nothing fails: of several stores of one
digest exactly one, and none if the object was there before. -/
structure Exact (before after : ServerState M) (tasks : List (Task Api)) : Prop where
  whole : ∀ task ∈ tasks, task.aborted = false ∧
    ∀ error, task.rest ≠ .done (.stored (.error error))
  absent : ∀ id digest, Created tasks id digest → before.blobs digest = none
  once : ∀ id other digest, Created tasks id digest → Created tasks other digest → id = other
  every : ∀ digest, before.blobs digest = none → (after.blobs digest).isSome →
    ∃ id, Created tasks id digest

namespace Gained

variable {ns : String} {frames others : List Entry} {before after : ServerState M}

theorem refl (ns : String) (state : ServerState M) : Gained ns [] state state where
  within := .refl _
  objects _ _ present := .inl present
  rows _ _ seen := seen
  fresh _ _ seen := .inl seen
  results := rfl
  manifests := rfl

theorem more (gained : Gained ns frames before after) (included : frames ⊆ others) :
    Gained ns others before after where
  within := gained.within
  objects digest bytes present := (gained.objects digest bytes present).imp_right (included ·)
  rows := gained.rows
  fresh other digest seen := (gained.fresh other digest seen).imp_right
    fun ⟨same, entry, member, named⟩ => ⟨same, entry, included member, named⟩
  results := gained.results
  manifests := gained.manifests

theorem put (gained : Gained ns frames before after) {entry : Entry} (member : entry ∈ frames) :
    Gained ns frames before
      { after with blobs := (after.blobs.put entry.digest entry.payload).1 } where
  within := gained.within.trans (Objects.put_within _ _ _)
  objects digest bytes present := by
    rcases Objects.put_cases present with old | ⟨rfl, rfl⟩
    · exact gained.objects digest bytes old
    · exact .inr member
  rows := gained.rows
  fresh := gained.fresh
  results := gained.results
  manifests := gained.manifests

theorem register {last : ServerState M} (gained : Gained ns frames before after) {entry : Entry}
    (member : entry ∈ frames)
    (recorded : last.shown = (after.blobs, after.view.register ns entry.digest)) :
    Gained ns frames before last := by
  have blobs : last.blobs = after.blobs := congrArg Prod.fst recorded
  have view : last.view = after.view.register ns entry.digest := congrArg Prod.snd recorded
  have sees : ∀ other digest, last.Sees other digest ↔
      (other = ns ∧ digest = entry.digest) ∨ after.Sees other digest := by
    intro other digest
    unfold ServerState.Sees
    rw [view]
    by_cases same : other = ns ∧ digest = entry.digest
    · obtain ⟨rfl, rfl⟩ := same
      simp [View.register, View.assign_same]
    · have elsewhere : (after.view.register ns entry.digest).visible other digest =
          after.view.visible other digest := View.assign_other _ _ same
      rw [elsewhere]
      simp [same]
  refine ⟨by rw [blobs]; exact gained.within, by rw [blobs]; exact gained.objects, ?_, ?_, ?_, ?_⟩
  · exact fun other digest seen => (sees other digest).mpr (.inr (gained.rows other digest seen))
  · intro other digest seen
    rcases (sees other digest).mp seen with ⟨rfl, rfl⟩ | old
    · exact .inr ⟨rfl, entry, member, rfl⟩
    · exact gained.fresh other digest old
  · rw [view]
    exact gained.results
  · rw [view]
    exact gained.manifests

end Gained

namespace PackRun

variable (run : PackRun M)

def reader : PackReader := .new run.config.maxBlobBytes run.blobs run.bytes

def limit : Nat := max 1 run.config.packStoreConcurrency

def Receives (sum : Assembled) : Prop := Received run.reader run.body.chunks sum

/-- The frames of an initial run of the pack, each what its digest names. -/
def Verified (frames : List Entry) : Prop :=
  (∃ sum, run.Receives sum ∧ frames <+: sum.entries) ∧
    ∀ entry ∈ frames, entry.digest.Names entry.payload

def regime : Regime (server M) where
  main choice := choice.fault = .none ∧ (run.calm → choice.refused = false)
  task choice := run.calm → choice.fault = .none
  aborts := ¬ run.calm

structure Stands (world : World (server M)) : Prop where
  valid : MetadataStore.valid world.state.metadata
  tasks : ∀ task ∈ world.tasks, ∃ entry, StoreTask run.ns world.state entry task
  verified : run.Verified (storedFrames world.tasks)
  bounded : world.tasks.countP Task.running ≤ run.limit
  gained : Gained run.ns (storedFrames world.tasks) run.start.1 world.state
  granted : run.calm → ∀ permits, refusal permits ∉ world.asked
  exact : run.calm → Exact run.start.1 world.state world.tasks

end PackRun

inductive StoreStep (ns : String) (state : ServerState M) (entry : Entry) (task : Task Api) :
    ServerState M → Task Api → Prop
  | idle : StoreStep ns state entry task state task
  | failed (failure : Failure) :
      StoreStep ns state entry task state
        { task with rest := .done (.stored (.error (.internal failure))) }
  | put (was : task.rest = storeFrame ns entry.digest entry.payload) :
      StoreStep ns state entry task
      { state with blobs := (state.blobs.put entry.digest entry.payload).1 }
      { task with
        rest := registering ns entry.digest (state.blobs.put entry.digest entry.payload).2 }
  | lostPut (failure : Failure) : StoreStep ns state entry task
      { state with blobs := (state.blobs.put entry.digest entry.payload).1 }
      { task with rest := .done (.stored (.error (.internal failure))) }
  | registered (outcome : PutOutcome) (after : ServerState M)
      (was : task.rest = registering ns entry.digest outcome)
      (valid : MetadataStore.valid after.metadata)
      (recorded : after.shown = (state.blobs, state.view.register ns entry.digest)) :
      StoreStep ns state entry task after { task with rest := .done (.stored (.ok outcome)) }
  | lostRow (failure : Failure) (after : ServerState M)
      (valid : MetadataStore.valid after.metadata)
      (recorded : after.shown = (state.blobs, state.view.register ns entry.digest)) :
      StoreStep ns state entry task after
        { task with rest := .done (.stored (.error (.internal failure))) }

theorem StoreTask.step {ns : String} {state : ServerState M} {entry : Entry} {task : Task Api}
    (storing : StoreTask ns state entry task) (valid : MetadataStore.valid state.metadata)
    (choice : Choice) : StoreStep ns state entry task
      ((server M).stepTask choice state task).1 ((server M).stepTask choice state task).2 := by
  unfold Machine.stepTask
  split
  · exact .idle
  · have stage := storing.stage
    generalize rest : task.rest = program at stage
    cases stage with
    | begun =>
        have executed := exec_executed choice (.put entry.digest entry.payload) state
        simp only [storeFrame]
        generalize exec choice (.put entry.digest entry.payload) state = outcome at executed ⊢
        cases executed with
        | skipped failure => exact .failed failure
        | lost after value failure performed =>
            cases performed
            exact .lostPut failure
        | answered after value performed =>
            cases performed
            exact .put rest
    | placed outcome =>
        have executed := exec_executed choice (.registerBlob ns entry.digest outcome) state
        simp only [registering]
        generalize exec choice (.registerBlob ns entry.digest outcome) state = result
          at executed ⊢
        cases executed with
        | skipped failure => exact .failed failure
        | lost after value failure performed =>
            obtain ⟨valid', effect⟩ := perform_effect valid performed
            exact .lostRow failure after valid' effect
        | answered after value performed =>
            obtain ⟨valid', effect⟩ := perform_effect valid performed
            exact .registered outcome after rest valid' effect
    | ended result =>
        simp only
        exact .idle

namespace StoreStep

variable {ns : String} {state after : ServerState M} {entry : Entry} {task next : Task Api}

theorem job (step : StoreStep ns state entry task after next) : next.job = task.job := by
  cases step <;> rfl

theorem aborted (step : StoreStep ns state entry task after next) :
    next.aborted = task.aborted := by
  cases step <;> rfl

theorem valid (step : StoreStep ns state entry task after next)
    (working : MetadataStore.valid state.metadata) : MetadataStore.valid after.metadata := by
  cases step with
  | registered outcome after was valid recorded => exact valid
  | lostRow failure after valid recorded => exact valid
  | _ => exact working

theorem gained {frames : List Entry} {before : ServerState M}
    (step : StoreStep ns state entry task after next) (gained : Gained ns frames before state)
    (member : entry ∈ frames) : Gained ns frames before after := by
  cases step with
  | idle => exact gained
  | failed failure => exact gained
  | put was => exact gained.put member
  | lostPut failure => exact gained.put member
  | registered outcome after was valid recorded => exact gained.register member recorded
  | lostRow failure after valid recorded => exact gained.register member recorded

theorem keeps (step : StoreStep ns state entry task after next) :
    (∀ digest, (state.blobs digest).isSome → (after.blobs digest).isSome) ∧
      ∀ other digest, state.Sees other digest → after.Sees other digest := by
  have start : Gained ns [entry] state state := (Gained.refl ns state).more (List.nil_subset _)
  have kept := step.gained start (List.mem_singleton_self _)
  refine ⟨?_, kept.rows⟩
  intro digest present
  obtain ⟨bytes, held⟩ := Option.isSome_iff_exists.mp present
  rw [kept.within digest bytes held]
  rfl

theorem storing (step : StoreStep ns state entry task after next)
    (storing : StoreTask ns state entry task) : StoreTask ns after entry next := by
  cases step with
  | idle => exact storing
  | failed failure => exact ⟨storing.job, .ended _, nofun, nofun⟩
  | put was =>
      refine ⟨storing.job, .placed _, ?_, nofun⟩
      intro _
      have present := Objects.put_present state.blobs entry.digest entry.payload
      exact Option.isSome_iff_exists.mpr ⟨_, present⟩
  | lostPut failure => exact ⟨storing.job, .ended _, nofun, nofun⟩
  | registered outcome after was valid recorded =>
      refine ⟨storing.job, .ended _, ?_, ?_⟩
      · intro _
        have blobs : after.blobs = state.blobs := congrArg Prod.fst recorded
        rw [blobs]
        apply storing.placed
        rw [was]
        rfl
      · intro _ _
        have view : after.view = state.view.register ns entry.digest := congrArg Prod.snd recorded
        rw [ServerState.Sees, view]
        exact View.assign_same _ _ _ _
  | lostRow failure after valid recorded => exact ⟨storing.job, .ended _, nofun, nofun⟩

end StoreStep

theorem StoreTask.later {ns : String} {state after : ServerState M} {entry : Entry}
    {task : Task Api} (storing : StoreTask ns state entry task)
    (blobs : ∀ digest, (state.blobs digest).isSome → (after.blobs digest).isSome)
    (rows : ∀ other digest, state.Sees other digest → after.Sees other digest) :
    StoreTask ns after entry task where
  job := storing.job
  stage := storing.stage
  placed put := blobs _ (storing.placed put)
  seen outcome ended := rows _ _ (storing.seen outcome ended)

theorem StoreTask.step_answered {ns : String} {state : ServerState M} {entry : Entry}
    {task : Task Api} (storing : StoreTask ns state entry task) {choice : Choice}
    (answered : ∀ op next, task.rest = .call op next →
      ∃ value, (exec choice op state).2 = .ok value)
    (whole : ∀ error, task.rest ≠ .done (.stored (.error error))) :
    ∀ error, ((server M).stepTask choice state task).2.rest ≠ .done (.stored (.error error)) := by
  unfold Machine.stepTask
  split
  · exact whole
  · have stage := storing.stage
    generalize rest : task.rest = program at stage answered
    cases stage with
    | begun =>
        obtain ⟨value, put⟩ := answered _ _ rfl
        simp only [storeFrame]
        rw [put]
        intro error ended
        cases ended
    | placed outcome =>
        obtain ⟨value, registered⟩ := answered _ _ rfl
        simp only [registering]
        rw [registered]
        intro error ended
        cases ended
    | ended result =>
        simp only
        exact whole

theorem StoreTask.step_clean {ns : String} {state : ServerState M} {entry : Entry}
    {task : Task Api} (storing : StoreTask ns state entry task)
    (valid : MetadataStore.valid state.metadata) {choice : Choice} (fault : choice.fault = .none)
    (fits : MetadataStore.representsBlob M ns entry.digest = true)
    (whole : ∀ error, task.rest ≠ .done (.stored (.error error))) :
    ∀ error, ((server M).stepTask choice state task).2.rest ≠ .done (.stored (.error error)) := by
  refine storing.step_answered ?_ whole
  intro op next head
  have stage := storing.stage
  rw [head] at stage
  cases stage with
  | begun =>
      refine ⟨(state.blobs.put entry.digest entry.payload).2, ?_⟩
      simp only [exec, Op.fallible, fault]
      rfl
  | placed outcome =>
      obtain ⟨after, registered, _⟩ :=
        MetadataStore.registerBlob_view choice.now ns entry.digest outcome valid fits
      refine ⟨(), ?_⟩
      simp only [exec, Op.fallible, fault, perform, registered]
      rfl

section Creation
variable {tasks : List (Task Api)} {id : Nat} {task next : Task Api}

omit [Protocol] in
theorem created_set (present : tasks[id]? = some task) (other : Nat) (digest : Digest) :
    Created (tasks.set id next) other digest ↔
      if other = id then next.job.frame.map Entry.digest = some digest ∧
        putOutcome next.rest = some .created
      else Created tasks other digest := by
  unfold Created
  split
  · rename_i same
    subst same
    rw [List.getElem?_set_self (List.getElem?_eq_some_iff.mp present).1]
    simp
  · rename_i different
    rw [List.getElem?_set_ne (Ne.symm different)]

omit [Protocol] in
theorem created_spawned (tasks : List (Task Api)) (begun : putOutcome task.rest = none) (id : Nat)
    (digest : Digest) : Created (tasks ++ [task]) id digest ↔ Created tasks id digest := by
  constructor
  · rintro ⟨held, there, named, made⟩
    rcases getElem?_snoc there with old | ⟨-, rfl⟩
    · exact ⟨held, old, named, made⟩
    · rw [begun] at made
      cases made
  · rintro ⟨held, there, named, made⟩
    have before := (List.getElem?_eq_some_iff.mp there).1
    exact ⟨held, by rw [List.getElem?_append_left before]; exact there, named, made⟩

omit [Protocol] [MetadataStore M] in
theorem Exact.same {before state after : ServerState M} (exact : Exact before state tasks)
    (present : tasks[id]? = some task) (blobs : after.blobs = state.blobs)
    (job : next.job = task.job) (put : putOutcome next.rest = some .created ↔
      putOutcome task.rest = some .created)
    (whole : next.aborted = false ∧ ∀ error, next.rest ≠ .done (.stored (.error error))) :
    Exact before after (tasks.set id next) := by
  have created : ∀ other digest, Created (tasks.set id next) other digest ↔
      Created tasks other digest := by
    intro other digest
    rw [created_set present]
    split
    · rename_i same
      subst same
      rw [job, put]
      simp [Created, present]
    · rfl
  refine ⟨?_, ?_, ?_, ?_⟩
  · intro other member
    rcases List.mem_or_eq_of_mem_set member with old | rfl
    · exact exact.whole other old
    · exact whole
  · exact fun other digest made => exact.absent other digest ((created other digest).mp made)
  · exact fun one other digest made made' => exact.once one other digest
      ((created one digest).mp made) ((created other digest).mp made')
  · intro digest absent present
    rw [blobs] at present
    obtain ⟨other, made⟩ := exact.every digest absent present
    exact ⟨other, (created other digest).mpr made⟩

theorem Exact.created {ns : String} {before state : ServerState M} {entry : Entry}
    (exact : Exact before state tasks)
    (tracked : ∀ task ∈ tasks, ∃ entry, StoreTask ns state entry task)
    (within : Objects.Within before.blobs state.blobs) (present : tasks[id]? = some task)
    (storing : StoreTask ns state entry task) (absent : state.blobs entry.digest = none)
    (live : task.aborted = false) :
    Exact before { state with blobs := (state.blobs.put entry.digest entry.payload).1 }
      (tasks.set id { task with rest := registering ns entry.digest .created }) := by
  have frame : task.job.frame.map Entry.digest = some entry.digest := by
    rw [storing.job]
    rfl
  have unmade : ∀ other, ¬ Created tasks other entry.digest := by
    rintro other ⟨held, there, named, made⟩
    obtain ⟨entry', tracks⟩ := tracked held (List.mem_of_getElem? there)
    have stored := tracks.placed (by rw [made]; rfl)
    rw [tracks.job] at named
    have same : entry'.digest = entry.digest := Option.some.inj named
    rw [same, absent] at stored
    cases stored
  have missing : before.blobs entry.digest = none := by
    cases held : before.blobs entry.digest with
    | none => rfl
    | some bytes =>
        rw [within _ _ held] at absent
        cases absent
  have created : ∀ other digest,
      Created (tasks.set id { task with rest := registering ns entry.digest .created })
        other digest ↔ (other = id ∧ digest = entry.digest) ∨ Created tasks other digest := by
    intro other digest
    rw [created_set present]
    split
    · rename_i same
      subst same
      constructor
      · rintro ⟨named, _⟩
        exact .inl ⟨rfl, Option.some.inj (named.symm.trans frame)⟩
      · rintro (⟨_, rfl⟩ | made)
        · exact ⟨frame, rfl⟩
        · obtain ⟨held, there, named, _⟩ := id made
          cases present.symm.trans there
          cases named.symm.trans frame
          exact (unmade _ made).elim
    · rename_i different
      simp [different]
  refine ⟨?_, ?_, ?_, ?_⟩
  · intro other member
    rcases List.mem_or_eq_of_mem_set member with old | rfl
    · exact exact.whole other old
    · exact ⟨live, nofun⟩
  · intro other digest made
    rcases (created other digest).mp made with ⟨_, rfl⟩ | old
    · exact missing
    · exact exact.absent other digest old
  · intro one other digest made made'
    rcases (created one digest).mp made with ⟨rfl, rfl⟩ | old
    · rcases (created other _).mp made' with ⟨rfl, _⟩ | old
      · rfl
      · exact (unmade _ old).elim
    · rcases (created other _).mp made' with ⟨rfl, rfl⟩ | old'
      · exact (unmade _ old).elim
      · exact exact.once one other digest old old'
  · intro digest gone there
    by_cases same : digest = entry.digest
    · exact ⟨id, (created id digest).mpr (.inl ⟨rfl, same⟩)⟩
    · have elsewhere : (state.blobs.put entry.digest entry.payload).1 digest =
          state.blobs digest := Objects.put_other _ _ same
      obtain ⟨other, made⟩ := exact.every digest gone (by rw [← elsewhere]; exact there)
      exact ⟨other, (created other digest).mpr (.inr made)⟩

theorem Exact.step {ns : String} {before state after : ServerState M} {entry : Entry}
    (exact : Exact before state tasks)
    (tracked : ∀ task ∈ tasks, ∃ entry, StoreTask ns state entry task)
    (within : Objects.Within before.blobs state.blobs) (present : tasks[id]? = some task)
    (storing : StoreTask ns state entry task) (step : StoreStep ns state entry task after next)
    (unended : ∀ error, next.rest ≠ .done (.stored (.error error))) :
    Exact before after (tasks.set id next) := by
  have live := (exact.whole task (List.mem_of_getElem? present)).1
  cases step with
  | idle => exact exact.same present rfl rfl Iff.rfl ⟨live, unended⟩
  | failed failure => exact (unended _ rfl).elim
  | lostPut failure => exact (unended _ rfl).elim
  | lostRow failure after valid recorded => exact (unended _ rfl).elim
  | registered outcome after was valid recorded =>
      exact exact.same present (congrArg Prod.fst recorded) rfl (by rw [was]; exact Iff.rfl)
        ⟨live, unended⟩
  | put was =>
      cases held : state.blobs entry.digest with
      | none =>
          have made : (state.blobs.put entry.digest entry.payload).2 = .created := by
            unfold Objects.put
            rw [held]
          rw [made]
          exact exact.created tracked within present storing held live
      | some bytes =>
          have kept : state.blobs.put entry.digest entry.payload =
              (state.blobs, .alreadyExists) := by
            unfold Objects.put
            rw [held]
          rw [kept]
          refine exact.same present rfl rfl ?_ ⟨live, nofun⟩
          rw [was]
          simp [putOutcome, registering, storeFrame]

end Creation

omit [Protocol] in
/-- As many stores run after a step as before, or fewer. -/
theorem running_set {tasks : List (Task Api)} {id : Nat} {task next : Task Api}
    (present : tasks[id]? = some task) (still : next.running = true → task.running = true) :
    (tasks.set id next).countP Task.running ≤ tasks.countP Task.running := by
  induction tasks generalizing id with
  | nil => cases present
  | cons first rest ih =>
      cases id with
      | zero =>
          cases present
          rw [List.set_cons_zero, List.countP_cons, List.countP_cons]
          cases ran : next.running with
          | false => simp
          | true => rw [still ran]
      | succ id =>
          rw [List.set_cons_succ, List.countP_cons, List.countP_cons]
          exact Nat.add_le_add_right (ih present) _

theorem StoreTask.frame {ns : String} {state : ServerState M} {entry : Entry} {task : Task Api}
    {tasks : List (Task Api)} (storing : StoreTask ns state entry task) (member : task ∈ tasks) :
    entry ∈ storedFrames tasks := by
  apply List.mem_filterMap.mpr
  exact ⟨task.job, List.mem_map_of_mem member, by rw [storing.job]; rfl⟩

namespace PackRun

variable {run : PackRun M} {world next : World (server M)}

omit [Protocol] in
theorem storedFrames_set {tasks : List (Task Api)} {id : Nat} {task next : Task Api}
    (present : tasks[id]? = some task) (job : next.job = task.job) :
    storedFrames (tasks.set id next) = storedFrames tasks := by
  rw [storedFrames, Solo.Advanced.jobs_set present job]
  rfl

theorem Stands.stepped (stands : run.Stands world) {id : Nat} {task : Task Api} {choice : Choice}
    (present : world.tasks[id]? = some task) (admitted : run.regime.task choice) :
    run.Stands ⟨((server M).stepTask choice world.state task).1,
      world.tasks.set id ((server M).stepTask choice world.state task).2, world.asked⟩ := by
  have member := List.mem_of_getElem? present
  obtain ⟨entry, storing⟩ := stands.tasks task member
  have step := storing.step stands.valid choice
  have frames : storedFrames (world.tasks.set id
      ((server M).stepTask choice world.state task).2) = storedFrames world.tasks :=
    storedFrames_set present step.job
  have framed := StoreTask.frame storing member
  obtain ⟨blobs, rows⟩ := step.keeps
  refine ⟨step.valid stands.valid, ?_, ?_, ?_, ?_, stands.granted, ?_⟩
  · intro other among
    rcases List.mem_or_eq_of_mem_set among with old | rfl
    · obtain ⟨entry', storing'⟩ := stands.tasks other old
      exact ⟨entry', storing'.later blobs rows⟩
    · exact ⟨entry, step.storing storing⟩
  · simp only [frames]
    exact stands.verified
  · refine le_trans (running_set present ?_) stands.bounded
    intro ran
    cases ended : task.outcome with
    | none =>
        rw [Task.running, ended]
        rfl
    | some out =>
        rw [Solo.stepTask_ended ended, Task.running, ended] at ran
        cases ran
  · simp only [frames]
    exact step.gained stands.gained framed
  · intro calm
    have exact := stands.exact calm
    obtain ⟨⟨sum, receives, initial⟩, _⟩ := stands.verified
    have fits := run.represents calm sum receives entry (initial.subset framed)
    exact exact.step stands.tasks stands.gained.within present storing step
      (storing.step_clean stands.valid (admitted calm) fits (exact.whole task member).2)

theorem Stands.aside (stands : run.Stands world) (step : World.Aside run.regime world next) :
    run.Stands next := by
  cases step with
  | step id task choice present admitted => exact stands.stepped present admitted
  | abort id task present running admitted =>
      have frames : storedFrames (world.tasks.set id { task with aborted := true }) =
          storedFrames world.tasks := storedFrames_set present rfl
      refine ⟨stands.valid, ?_, ?_, ?_, ?_, stands.granted, fun calm => (admitted calm).elim⟩
      · intro other among
        rcases List.mem_or_eq_of_mem_set among with old | rfl
        · exact stands.tasks other old
        · obtain ⟨entry, storing⟩ := stands.tasks task (List.mem_of_getElem? present)
          exact ⟨entry, storing.job, storing.stage, storing.placed, storing.seen⟩
      · simp only [frames]
        exact stands.verified
      · exact le_trans (running_set present fun _ => running) stands.bounded
      · simp only [frames]
        exact stands.gained

theorem Stands.called (stands : run.Stands world) {op : Op} {choice : Choice}
    (allowed : op = .localIo ∨ ∃ permits, op = .acquire permits)
    (admitted : run.regime.main choice) :
    run.Stands (world.called choice op) := by
  have same : ((server M).exec choice op world.state).1 = world.state := by
    rcases allowed with rfl | ⟨permits, rfl⟩
    · exact (exec_state choice .localIo world.state).elim (fun same => same) (by
        rintro ⟨after, value, performed, same⟩
        cases performed
        exact same)
    · rfl
  have called : world.called choice op = ⟨world.state, world.tasks,
      world.asked ++ [⟨op, ((server M).exec choice op world.state).2⟩]⟩ := by
    rw [World.called, same]
  rw [called]
  refine ⟨stands.valid, stands.tasks, stands.verified, stands.bounded, stands.gained, ?_,
    stands.exact⟩
  intro calm permits member
  rcases List.mem_append.mp member with old | new
  · exact stands.granted calm permits old
  · rcases allowed with rfl | ⟨asked, rfl⟩
    · cases List.mem_singleton.mp new
    · have value : ((server M).exec choice (.acquire asked) world.state).2 = .ok true := by
        change (exec choice (.acquire asked) world.state).2 = _
        simp only [exec, Op.fallible, perform, admitted.2 calm]
        rfl
      rw [value] at new
      cases List.mem_singleton.mp new

/-- A store may be started: of the next frame, after it was verified, and while there is
room for it. -/
def Starts (run : PackRun M) (job : Job) (world : World (server M)) : Prop :=
  world.tasks.countP Task.running < run.limit ∧ ∃ entry, job = .store run.ns entry.digest entry.payload ∧
    run.Verified (storedFrames world.tasks ++ [entry])

omit [Protocol] in
theorem storedFrames_append (tasks : List (Task Api)) (ns : String) (entry : Entry)
    (rest : Program Api Out) :
    storedFrames (tasks ++ [⟨.store ns entry.digest entry.payload, rest, false⟩]) =
      storedFrames tasks ++ [entry] := by
  simp [storedFrames, Job.frame]

theorem Stands.spawned (stands : run.Stands world) {job : Job} (starts : run.Starts job world) :
    run.Stands (world.spawned job) := by
  obtain ⟨room, entry, rfl, verified⟩ := starts
  have frames : storedFrames (world.spawned (.store run.ns entry.digest entry.payload)).tasks =
      storedFrames world.tasks ++ [entry] := storedFrames_append _ _ _ _
  refine ⟨stands.valid, ?_, ?_, ?_, ?_, stands.granted, ?_⟩
  · intro task among
    rcases List.mem_append.mp among with old | new
    · exact stands.tasks task old
    · rw [List.mem_singleton.mp new]
      refine ⟨entry, rfl, .begun, fun placed => ?_, fun outcome seen => ?_⟩
      · cases placed
      · cases seen
  · rw [frames]
    exact verified
  · rw [World.spawned, List.countP_append]
    exact Nat.succ_le_of_lt room
  · rw [frames]
    exact stands.gained.more (List.subset_append_left _ _)
  · intro calm
    have exact := stands.exact calm
    have created : ∀ id digest, Created (world.spawned
        (.store run.ns entry.digest entry.payload)).tasks id digest ↔
          Created world.tasks id digest := created_spawned _ rfl
    refine ⟨?_, ?_, ?_, ?_⟩
    · intro task among
      rcases List.mem_append.mp among with old | new
      · exact exact.whole task old
      · rw [List.mem_singleton.mp new]
        refine ⟨rfl, fun error ended => ?_⟩
        cases ended
    · exact fun id digest made => exact.absent id digest ((created id digest).mp made)
    · exact fun id other digest made made' => exact.once id other digest
        ((created id digest).mp made) ((created other digest).mp made')
    · intro digest absent present
      obtain ⟨id, made⟩ := exact.every digest absent present
      exact ⟨id, (created id digest).mpr made⟩

def stores (run : PackRun M) : Solo (server M) where
  regime := run.regime
  Inv := run.Stands
  Calls op _ := op = .localIo ∨ ∃ permits, op = .acquire permits
  Spawns := run.Starts
  Joins _ _ := True
  aside := Stands.aside
  call _ stands allowed admitted := stands.called allowed admitted
  spawn stands starts := stands.spawned starts

end PackRun
end

end MbxCache
