import MbxCache.Concurrent.Gradual
import MbxCache.Server.Footprints
import MbxCache.Server.Integrity
import MbxCache.Server.SpoolErased
import MbxCache.Server.SpoolRuns

namespace MbxCache

open Concurrent

variable [Protocol] {M : Type} [MetadataStore M]

namespace Spool

variable {A : Type} {bounded : Bool}

def uploadJobs : Footprint Api := ⟨fun _ _ => True, fun job => job.detached = true⟩

inductive StepsTo (program : Program Api A) (state : ServerState M) :
    Program Api A → ServerState M → Prop
  | silent : StepsTo program state program state
  | call (choice : Choice) (op : Op) (next : Except Failure op.Value → Program Api A)
      (head : program = .call op next) :
      StepsTo program state (next (MbxCache.exec choice op state).2)
        (MbxCache.exec choice op state).1

theorem StepsTo.split {program next : Program Api A} {state after : ServerState M}
    (steps : StepsTo program state next after) : (next = program ∧ after = state) ∨
      ∃ (choice : Choice) (op : Op) (rest : Except Failure op.Value → Program Api A),
        program = .call op rest ∧ next = rest (MbxCache.exec choice op state).2 ∧
          after = (MbxCache.exec choice op state).1 := by
  cases steps with
  | silent => exact .inl ⟨rfl, rfl⟩
  | call choice op rest head => exact .inr ⟨choice, op, rest, head, rfl, rfl⟩

theorem localIo_steps (choice : Choice) (before done partly : List Lease) (state : ServerState M)
    (next : Except Failure Unit → Program Api A) :
    StepsTo (.call .localIo next) state (next (attempted choice.fault before done partly).2)
      state := by
  have answered : MbxCache.exec choice .localIo state =
      (state, (attempted choice.fault before done partly).2) := by
    simp only [MbxCache.exec, perform, Op.fallible, if_true]
    cases choice.fault <;> rfl
  have step : StepsTo (.call .localIo next) state (next (MbxCache.exec choice .localIo state).2)
      (MbxCache.exec choice .localIo state).1 := .call choice .localIo next rfl
  rw [answered] at step
  exact step

/-- A call under the spool is at most one call once files and permits are forgotten, and a spool
stays bounded or unbounded. -/
theorem exec_steps (choice : SpoolChoice) (op : SpoolOp) (next : op.Value → Program Spooling A)
    (state : SpoolState M) (hand : List Lease) (budget : state.available.isSome = bounded) :
    (Spool.exec choice op (state, hand)).1.1.available.isSome = bounded ∧
      StepsTo (erase bounded (.call op next)) state.server
        (erase bounded (next (Spool.exec choice op (state, hand)).2))
        (Spool.exec choice op (state, hand)).1.1.server := by
  cases op with
  | reserve bytes =>
      have acquires (refused : Bool) (next : Except Failure Bool → Program Api A) :
          StepsTo (.call (.acquire (permitsFor bytes)) next) state.server (next (.ok !refused))
            state.server :=
        .call { choice.choice with refused } (.acquire (permitsFor bytes)) next rfl
      cases available : state.available with
      | none =>
          rw [available] at budget
          cases budget
          simp only [Spool.exec, reserved, available, erase, Option.isSome_none, Bool.not_false,
            if_true]
          exact ⟨trivial, .silent⟩
      | some left =>
          rw [available] at budget
          cases budget
          simp only [Spool.exec, reserved, available, erase, Option.isSome_some, Bool.not_true,
            Bool.false_eq_true, if_false]
          by_cases large : 2 ^ 32 ≤ permitsFor bytes
          · simp only [large, if_true]
            exact ⟨congrArg Option.isSome available, .silent⟩
          · simp only [large, if_false]
            by_cases full : left < permitsFor bytes
            · simp only [full, if_true]
              exact ⟨congrArg Option.isSome available, acquires true _⟩
            · simp only [full, if_false]
              exact ⟨rfl, acquires false _⟩
  | create => exact ⟨budget, localIo_steps choice.choice _ _ _ _ _⟩
  | write bytes => exact ⟨budget, localIo_steps choice.choice _ _ _ _ _⟩
  | flush => exact ⟨budget, localIo_steps choice.choice _ _ _ _ _⟩
  | remove place => exact ⟨budget, .silent⟩
  | release place =>
      refine ⟨?_, .silent⟩
      rw [← budget]
      unfold Spool.exec released
      simp only
      split <;> simp
  | base op => exact ⟨budget, .call choice.choice op _ rfl⟩

def eraseTask (bounded : Bool) (task : Task Spooling) : Task Api :=
  ⟨task.job, erase bounded task.rest, task.aborted⟩

omit [Protocol] in
theorem eraseTask_outcome {task : Task Spooling} {out : Option Out}
    (ended : task.outcome = some out) : (eraseTask bounded task).outcome = some out := by
  obtain ⟨job, rest, aborted⟩ := task
  cases aborted with
  | true => exact ended
  | false =>
      obtain ⟨result, done, rfl⟩ := Option.map_eq_some_iff.mp ended
      obtain rfl := Program.result?_eq done
      rfl

/-- A process does what an owner does, without what the owner holds. -/
structure Shadows (bounded : Bool) (owner : Owner (spoolEstate M) A) (process : Process Api A) :
    Prop where
  main : process.main = erase bounded owner.process.main
  tasks : process.tasks = owner.process.tasks.map (eraseTask bounded)
  dropped : process.dropped = owner.process.dropped
  obeys : ∃ past, process.main.Obeys uploadJobs (fun _ _ => True) past
  detached : ∀ task ∈ owner.process.tasks, task.job.detached = true

theorem idle_move (state : ServerState M) (process : Process Api A) :
    (server M).step state process (.abort process.tasks.length) = (state, process) := by
  simp [Machine.step]

def Followed (bounded : Bool) (state : SpoolState M) (process : Process Api A)
    (after : SpoolState M × Owner (spoolEstate M) A) : Prop :=
  after.1.available.isSome = bounded ∧ ∃ move,
    ((server M).step state.server process move).1 = after.1.server ∧
      Shadows bounded after.2 ((server M).step state.server process move).2

namespace Shadows

variable {state : SpoolState M} {owner : Owner (spoolEstate M) A} {process : Process Api A}

theorem idle (shadows : Shadows bounded owner process) (budget : state.available.isSome = bounded) :
    Followed bounded state process (state, owner) := by
  refine ⟨budget, .abort process.tasks.length, ?_⟩
  rw [idle_move]
  exact ⟨rfl, shadows⟩

theorem stepMain (shadows : Shadows bounded owner process)
    (budget : state.available.isSome = bounded) (live : owner.process.dropped = false)
    (choice : SpoolChoice) :
    Followed bounded state process ((spoolEstate M).stepMain choice state owner) := by
  have main := shadows.main
  have live' : process.dropped = false := shadows.dropped.trans live
  obtain ⟨past, obeys⟩ := shadows.obeys
  unfold Estate.stepMain
  cases head : owner.process.main with
  | done result => exact shadows.idle budget
  | call op next =>
      obtain ⟨budget', steps⟩ := exec_steps choice op next state owner.hand budget
      refine ⟨budget', ?_⟩
      rw [head] at main
      rw [← main] at steps
      rcases steps.split with ⟨same, kept⟩ | ⟨choice', op', rest, head', next', after⟩
      · refine ⟨.abort process.tasks.length, ?_⟩
        rw [idle_move]
        exact ⟨kept.symm, same.symm, shadows.tasks, shadows.dropped, shadows.obeys,
          shadows.detached⟩
      · refine ⟨.main choice', ?_⟩
        rw [head'] at obeys
        simp only [Machine.step, live', Bool.false_eq_true, if_false, Machine.stepMain_call _ head']
        exact ⟨after.symm, next'.symm, shadows.tasks, live.symm, ⟨_, obeys.2 _⟩, shadows.detached⟩
  | spawn job next =>
      rw [head, erase] at main
      rw [main] at obeys
      refine ⟨budget, .main choice.choice, ?_⟩
      simp only [Machine.step, live', Bool.false_eq_true, if_false, Machine.stepMain, main]
      refine ⟨trivial, ?_, ?_, live.symm, ⟨past, obeys.2 _⟩, ?_⟩
      · simp only [shadows.tasks, List.length_map]
      · simp only [shadows.tasks, List.map_append, List.map_cons, List.map_nil, eraseTask,
          jobBody_stands]
      · intro task member
        rcases List.mem_append.mp member with old | new
        · exact shadows.detached task old
        · rw [List.mem_singleton.mp new]
          exact obeys.1
  | join ids next =>
      rw [head, erase] at main
      rw [main] at obeys
      simp only
      split
      next out ended free =>
        split
        next waited =>
          refine ⟨budget, .main choice.choice, ?_⟩
          have ended' : process.tasks[choice.choice.pick]?.bind Task.outcome = some out := by
            obtain ⟨task, found, came⟩ := Option.bind_eq_some_iff.mp ended
            rw [shadows.tasks, List.getElem?_map]
            exact Option.bind_eq_some_iff.mpr
              ⟨_, congrArg (Option.map (eraseTask bounded)) found, eraseTask_outcome came⟩
          have picked : choice.choice.pick ∈ ids := waited
          simp only [Machine.step, live', Bool.false_eq_true, if_false, Machine.stepMain, main,
            ended', picked, if_true]
          exact ⟨trivial, rfl, shadows.tasks, live.symm, ⟨past, obeys _ _⟩, shadows.detached⟩
        next => exact shadows.idle budget
      next => exact shadows.idle budget

/-- A step of a job is at most one step of the job without its files and permits. -/
theorem stepTask (choice : SpoolChoice) (task : Task Spooling) (held : List Lease)
    (budget : state.available.isSome = bounded) :
    let after := (spoolEstate M).stepTask choice state task held
    after.1.1.available.isSome = bounded ∧ after.2.job = task.job ∧
      ((eraseTask bounded after.2 = eraseTask bounded task ∧ after.1.1.server = state.server) ∨
        ∃ choice', (server M).stepTask choice' state.server (eraseTask bounded task) =
          (after.1.1.server, eraseTask bounded after.2)) := by
  obtain ⟨job, rest, aborted⟩ := task
  cases aborted with
  | true => exact ⟨budget, rfl, .inl ⟨rfl, rfl⟩⟩
  | false =>
      cases rest with
      | call op next =>
          obtain ⟨budget', steps⟩ := exec_steps choice op next state held budget
          refine ⟨budget', rfl, ?_⟩
          rcases steps.split with ⟨same, kept⟩ | ⟨choice', op', rest, head, next', after⟩
          · exact .inl ⟨congrArg (Task.mk (I := Api) job · false) same, kept⟩
          · refine .inr ⟨choice', ?_⟩
            simp only [Machine.stepTask, Estate.stepTask, eraseTask, Bool.false_eq_true, if_false,
              head, ← after, ← next']
      | _ => exact ⟨budget, rfl, .inl ⟨rfl, rfl⟩⟩

end Shadows

/-- A turn that cuts a job off does so where the job awaits something. After its last call a store
only lets go of its frame. -/
def AtAwait (bounded : Bool) (owner : Owner (spoolEstate M) A) : Turn SpoolChoice → Prop
  | .move (.abort id) => ∀ task, owner.process.tasks[id]? = some task → task.running = true →
      (eraseTask bounded task).running = true
  | .move _ | .letGo | .letGoJob _ => True

theorem relinquish_server (state : SpoolState M) (hand : List Lease) :
    ((spoolEstate M).relinquish state hand).1.server = state.server ∧
      ((spoolEstate M).relinquish state hand).1.available.isSome = state.available.isSome := by
  cases hand with
  | nil => exact ⟨rfl, rfl⟩
  | cons lease rest =>
      simp only [Estate.relinquish, letGo]
      split
      · exact ⟨rfl, rfl⟩
      · exact ⟨rfl, Option.isSome_map⟩

namespace Shadows

variable {state : SpoolState M} {owner : Owner (spoolEstate M) A} {process : Process Api A}

theorem released (shadows : Shadows bounded owner process)
    (budget : state.available.isSome = bounded) (held : List Lease)
    {after : Owner (spoolEstate M) A} (same : after.process = owner.process) :
    Followed bounded state process (((spoolEstate M).relinquish state held).1, after) := by
  obtain ⟨server, available⟩ := relinquish_server state held
  refine ⟨available.trans budget, .abort process.tasks.length, ?_⟩
  rw [idle_move]
  obtain ⟨main, tasks, dropped, obeys, detached⟩ := shadows
  rw [← same] at main tasks dropped detached
  exact ⟨server.symm, main, tasks, dropped, obeys, detached⟩

theorem task (shadows : Shadows bounded owner process) (id : Nat) :
    process.tasks[id]? = owner.process.tasks[id]?.map (eraseTask bounded) := by
  rw [shadows.tasks, List.getElem?_map]

theorem detached_set (shadows : Shadows bounded owner process) (id : Nat) {changed : Task Spooling}
    (detached : changed.job.detached = true) :
    ∀ task ∈ owner.process.tasks.set id changed, task.job.detached = true := by
  intro task member
  rcases List.mem_or_eq_of_mem_set member with old | rfl
  · exact shadows.detached task old
  · exact detached

theorem moveTask (shadows : Shadows bounded owner process)
    (budget : state.available.isSome = bounded) (id : Nat) (choice : SpoolChoice) :
    Followed bounded state process ((spoolEstate M).step state owner (.move (.task id choice))) := by
  simp only [Estate.step]
  split
  next one held found present =>
    have detached := shadows.detached one (List.mem_of_getElem? found)
    obtain ⟨budget', job, steps⟩ := stepTask choice one held budget
    have stays : (owner.process.halted && !(spoolEstate M).detached one.job) = false := by
      simp [detached]
    have stays' : (process.halted &&
        !(server M).detached (eraseTask bounded one).job) = false := by
      simp [eraseTask, detached]
    have detached' := shadows.detached_set id ((congrArg Job.detached job).trans detached)
    have erased := congrArg (Option.map (eraseTask bounded)) found
    simp only [stays, Bool.false_eq_true, if_false]
    refine ⟨budget', ?_⟩
    rcases steps with ⟨same, kept⟩ | ⟨choice', moved⟩
    · refine ⟨.abort process.tasks.length, ?_⟩
      rw [idle_move]
      refine ⟨kept.symm, shadows.main, ?_, shadows.dropped, shadows.obeys, detached'⟩
      rw [List.map_set, same, set_present ((List.getElem?_map ..).trans erased)]
      exact shadows.tasks
    · refine ⟨.task id choice', ?_⟩
      simp only [Machine.step, shadows.task id, found, Option.map_some, stays',
        Bool.false_eq_true, if_false, moved]
      refine ⟨trivial, shadows.main, ?_, shadows.dropped, shadows.obeys, detached'⟩
      rw [List.map_set, shadows.tasks]
  next => exact shadows.idle budget

theorem moveAbort (shadows : Shadows bounded owner process)
    (budget : state.available.isSome = bounded) {id : Nat}
    (cuts : AtAwait bounded owner (.move (.abort id))) :
    Followed bounded state process ((spoolEstate M).step state owner (.move (.abort id))) := by
  simp only [Estate.step]
  split
  · exact shadows.idle budget
  next one found =>
    split
    next cut =>
      obtain ⟨running, detached⟩ := Bool.and_eq_true_iff.mp cut
      have cut' : ((eraseTask bounded one).running &&
          (server M).detached (eraseTask bounded one).job) = true :=
        Bool.and_eq_true_iff.mpr ⟨cuts one found running, detached⟩
      refine ⟨budget, .abort id, ?_⟩
      simp only [Machine.step, shadows.task id, found, Option.map_some, cut', if_true]
      refine ⟨trivial, shadows.main, ?_, shadows.dropped, shadows.obeys,
        shadows.detached_set id detached⟩
      rw [List.map_set, shadows.tasks]
      rfl
    next => exact shadows.idle budget

theorem turn (shadows : Shadows bounded owner process)
    (budget : state.available.isSome = bounded) (turn : Turn SpoolChoice)
    (cuts : AtAwait bounded owner turn) :
    Followed bounded state process ((spoolEstate M).step state owner turn) := by
  cases turn with
  | move move =>
      cases move with
      | main choice =>
          simp only [Estate.step]
          split
          · exact shadows.idle budget
          next live => exact shadows.stepMain budget (by simpa using live) choice
      | task id choice => exact shadows.moveTask budget id choice
      | abort id => exact shadows.moveAbort budget cuts
      | drop =>
          exact ⟨budget, .drop, rfl, shadows.main, shadows.tasks, rfl, shadows.obeys,
            shadows.detached⟩
  | letGo =>
      simp only [Estate.step]
      split
      · exact shadows.released budget owner.hand rfl
      · exact shadows.idle budget
  | letGoJob id =>
      simp only [Estate.step]
      split
      · split
        next held _ _ _ => exact shadows.released budget _ rfl
        · exact shadows.idle budget
      · exact shadows.idle budget

end Shadows

structure Mirrors (bounded : Bool) (pool : (spoolEstate M).Pool A) (config : Config (server M) A) :
    Prop where
  state : config.state = pool.shared.server
  budget : pool.shared.available.isSome = bounded
  shadows : ∀ (id : Nat) (owner : Owner (spoolEstate M) A), pool.owners[id]? = some owner →
    ∃ process, config.procs id = some process ∧ Shadows bounded owner process
  fresh : ∀ id, pool.owners.length ≤ id → config.procs id = none

end Spool

open Spool

namespace UploadRequest

def request : UploadRequest → Request
  | .blob headers parts body => .putBlob headers parts body
  | .pack headers body => .putBlobPack headers body

theorem program_stands (config : ServerConfig) (upload : UploadRequest) :
    erase config.spoolBudget (upload.program config) = upload.request.handler config := by
  cases upload with
  | blob headers parts body => exact putBlob_stands config headers parts body
  | pack headers body => exact putBlobPack_stands config headers body

theorem obeys (config : ServerConfig) (upload : UploadRequest) :
    (upload.request.handler config).Obeys uploadJobs (fun _ _ => True) [] := by
  refine (upload.request.handler_stays config []).widen (fun _ _ _ => trivial) fun job allowed => ?_
  unfold Request.footprint at allowed
  split at allowed
  · cases job with
    | store ns digest bytes => rfl
    | read ns digest => cases upload <;> cases allowed.1
  · exact allowed.elim

end UploadRequest

namespace SpoolRun

variable {run : SpoolRun M}

/-- The requests that arrive, numbered from `first`. -/
def arrivals (first : Nat) : List (Event UploadRequest SpoolChoice) → List (Nat × Request)
  | [] => []
  | .start upload :: rest => (first, upload.request) :: arrivals (first + 1) rest
  | .turn _ _ :: rest => arrivals first rest

/-- No event cuts a job off elsewhere than at an await. -/
def CutsAtAwait (run : SpoolRun M) (pool : Uploads M) : Event UploadRequest SpoolChoice → Prop
  | .start _ => True
  | .turn id turn => ∀ owner, pool.owners[id]? = some owner → AtAwait run.bounded owner turn

def CutsAtAwaits (run : SpoolRun M) (pool : Uploads M) :
    List (Event UploadRequest SpoolChoice) → Prop
  | [] => True
  | event :: rest => run.CutsAtAwait pool event ∧
      run.CutsAtAwaits (pool.step (UploadRequest.program run.config) event) rest

theorem step_mirrored (agrees : run.config.spoolBudget = run.bounded) {pool : Uploads M}
    {config : Config (MbxCache.server M) (Except ApiError Response)}
    (mirrors : Mirrors run.bounded pool config) (event : Event UploadRequest SpoolChoice)
    (cuts : run.CutsAtAwait pool event) :
    ∃ actions : List (Action Request Choice),
      started actions = arrivals pool.owners.length [event] ∧
        Mirrors run.bounded (pool.step (UploadRequest.program run.config) event)
          (config.run (Request.handler run.config) actions) := by
  cases event with
  | start upload =>
      have vacant := mirrors.fresh pool.owners.length (Nat.le_refl _)
      refine ⟨[.start pool.owners.length upload.request], rfl, ?_⟩
      simp only [Config.run, List.foldl_cons, List.foldl_nil, Config.step, vacant, Estate.Pool.step]
      refine ⟨mirrors.state, mirrors.budget, fun id owner found => ?_, fun id beyond => ?_⟩
      · rcases getElem?_snoc found with old | ⟨rfl, rfl⟩
        · have before := (List.getElem?_eq_some_iff.mp old).1
          simp only [Config.setProc, before.ne, if_false]
          exact mirrors.shadows id owner old
        · have stands := upload.program_stands run.config
          rw [agrees] at stands
          refine ⟨.start (upload.request.handler run.config), ?_, ?_⟩
          · simp only [Config.setProc, if_true]
          · exact ⟨stands.symm, rfl, rfl, ⟨[], upload.obeys run.config⟩,
              fun _ member => absurd member List.not_mem_nil⟩
      · rw [List.length_append, List.length_singleton] at beyond
        have other : id ≠ pool.owners.length := by omega
        simp only [Config.setProc, other, if_false]
        exact mirrors.fresh id (by omega)
  | turn id turn =>
      cases found : pool.owners[id]? with
      | none =>
          refine ⟨[], rfl, ?_⟩
          simp only [Estate.Pool.step, found]
          exact mirrors
      | some owner =>
          obtain ⟨process, present, shadows⟩ := mirrors.shadows id owner found
          obtain ⟨budget, move, server, after⟩ := shadows.turn mirrors.budget turn (cuts owner found)
          refine ⟨[.move id move], rfl, ?_⟩
          simp only [Config.run, List.foldl_cons, List.foldl_nil, Config.step, present,
            Estate.Pool.step, found, mirrors.state]
          refine ⟨server, budget, fun other another there => ?_, fun other beyond => ?_⟩
          · by_cases same : other = id
            · subst same
              have bound := (List.getElem?_eq_some_iff.mp found).1
              rw [List.getElem?_set_self bound] at there
              cases there
              exact ⟨_, if_pos rfl, after⟩
            · rw [List.getElem?_set_ne (Ne.symm same)] at there
              simp only [Config.setProc, same, if_false]
              exact mirrors.shadows other another there
          · rw [List.length_set] at beyond
            have differs : other ≠ id := by
              rintro rfl
              exact absurd (List.getElem?_eq_some_iff.mp found).1 (Nat.not_lt.mpr beyond)
            simp only [Config.setProc, differs, if_false]
            exact mirrors.fresh other beyond

theorem run_mirrored (agrees : run.config.spoolBudget = run.bounded) {pool : Uploads M}
    {config : Config (MbxCache.server M) (Except ApiError Response)}
    (mirrors : Mirrors run.bounded pool config) (events : List (Event UploadRequest SpoolChoice))
    (cuts : run.CutsAtAwaits pool events) :
    ∃ actions : List (Action Request Choice),
      started actions = arrivals pool.owners.length events ∧
        Mirrors run.bounded (Estate.Pool.run (UploadRequest.program run.config) pool events)
          (config.run (Request.handler run.config) actions) := by
  induction events generalizing pool config with
  | nil => exact ⟨[], rfl, mirrors⟩
  | cons event rest ih =>
      obtain ⟨front, first, next⟩ := step_mirrored agrees mirrors event cuts.1
      obtain ⟨back, others, last⟩ := ih next cuts.2
      refine ⟨front ++ back, ?_, ?_⟩
      · rw [Implements.started_append, first, others]
        cases event with
        | start upload =>
            simp only [arrivals, Estate.Pool.step, List.length_append, List.length_singleton]
            rfl
        | turn id turn =>
            simp only [arrivals, List.nil_append]
            congr 1
            simp only [Estate.Pool.step]
            split <;> simp
      · have parts := Config.run_append (M := MbxCache.server M) (Request.handler run.config) config
          front back
        exact (congrArg (Mirrors run.bounded _) parts).mpr last

/-- Uploads under a spool do what they do on the server that knows of no spool: the same requests
arrive, each is where it would be and answers the same, and the objects and rows are the same. -/
theorem spool_runs_match (agrees : run.config.spoolBudget = run.bounded)
    (cuts : run.CutsAtAwaits (run.after []) run.events) :
    ∃ actions : List (Action Request Choice),
      started actions = arrivals 0 run.events ∧
        let config := (Config.initial (MbxCache.server M) (Except ApiError Response)
          run.server).run (Request.handler run.config) actions
        config.state = run.uploads.shared.server ∧
          ∀ (id : Nat) (owner : Owner (spoolEstate M) (Except ApiError Response)) result,
            run.uploads.owners[id]? = some owner → owner.process.answer = some result →
              ∃ process, config.procs id = some process ∧ process.answer = some result := by
  have start : Mirrors run.bounded (run.after [])
      (Config.initial (MbxCache.server M) (Except ApiError Response) run.server) :=
    ⟨rfl, run.budget_isSome, nofun, fun _ _ => rfl⟩
  obtain ⟨actions, same, mirrors⟩ := run_mirrored agrees start run.events cuts
  refine ⟨actions, same, mirrors.state, fun id owner result found answered => ?_⟩
  obtain ⟨process, present, shadows⟩ := mirrors.shadows id owner found
  refine ⟨process, present, ?_⟩
  unfold Process.answer at answered ⊢
  rw [shadows.main, Program.result?_eq answered]
  rfl

/-- Under a spool, too, objects hold what their digests name and rows have their objects. -/
theorem spooled_sound (agrees : run.config.spoolBudget = run.bounded)
    (fresh : run.server = ServerState.initial M)
    (cuts : run.CutsAtAwaits (run.after []) run.events) : run.uploads.shared.server.Sound := by
  obtain ⟨actions, -, state, -⟩ := spool_runs_match agrees cuts
  rw [← state, fresh]
  exact (reached_disciplined run.config actions).inv

end SpoolRun

end MbxCache
