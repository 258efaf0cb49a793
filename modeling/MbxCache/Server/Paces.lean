import MbxCache.Concurrent.Abreast
import MbxCache.Server.Isolation
import MbxCache.Server.PackWaits

namespace MbxCache

open Concurrent Pack

variable [Protocol] {M : Type} [MetadataStore M] {ns : String} {A : Type}

/-- Nothing goes wrong with a move of a request: no operation fails of itself, the spool has
room, what its jobs ask for is done, and none of them is cut off. -/
def Untroubled (state : ServerState M) (process : Process Api A) : Move Choice → Prop
  | .main choice => choice.Clean
  | .task id choice => choice.Clean ∧ ∀ op,
      (server M).carries process (.task id choice) = some (choice, op) →
        ∃ value, (exec choice op state).2 = .ok value
  | .abort _ => False
  | .drop => True

section Reading
variable {state after : ServerState M} {digest : Digest} {task : Task Api} {choice : Choice}

inductive Opening (ns : String) (blobs : Objects) (digest : Digest) : Program Api Out → Prop
  | begun : Opening ns blobs digest (openEntry ns digest)
  | opened (bytes : Bytes) (stored : blobs digest = some bytes) (small : bytes.length < 2 ^ 64)
      (cuts : List Nat) : Opening ns blobs digest
        (.done (.opened (some ⟨UInt64.ofNat bytes.length, ByteStream.opened bytes cuts false⟩)))

structure ReadTask (ns : String) (state : ServerState M) (digest : Digest) (task : Task Api) :
    Prop where
  job : task.job = .read ns digest
  seen : state.Sees ns digest
  live : task.aborted = false
  stage : Opening ns state.blobs digest task.rest

theorem ReadTask.later (reading : ReadTask ns state digest task)
    (grows : ServerState.Grows state after) : ReadTask ns after digest task := by
  refine ⟨reading.job, grows.rows ns digest reading.seen, reading.live, ?_⟩
  have stage := reading.stage
  generalize task.rest = program at stage
  cases stage with
  | begun => exact .begun
  | opened bytes stored small cuts =>
      exact .opened bytes (grows.blobs digest bytes stored) small cuts

theorem ReadTask.step (reading : ReadTask ns state digest task) (sound : state.Sound)
    (clean : choice.Clean) : ((server M).stepTask choice state task).1 = state ∧
      ReadTask ns state digest ((server M).stepTask choice state task).2 := by
  obtain ⟨job, rest, aborted⟩ := task
  obtain ⟨job, seen, rfl, stage⟩ := reading
  cases stage with
  | opened bytes stored small cuts => exact ⟨rfl, job, seen, rfl, .opened bytes stored small cuts⟩
  | begun =>
      obtain ⟨bytes, stored⟩ := Option.isSome_iff_exists.mp (sound.present ns digest seen)
      have length := (sound.named digest bytes stored).1
      have size : UInt64.ofNat bytes.length = digest.size := by rw [length, UInt64.ofNat_toNat]
      have small : bytes.length < 2 ^ 64 := length ▸ digest.size.toNat_lt
      have executed : exec choice (.get digest) state = (state, .ok (some
          ⟨UInt64.ofNat bytes.length, ByteStream.opened bytes choice.cuts false⟩)) := by
        rw [exec_clean clean]
        simp only [perform, Objects.get, stored, Option.map_some, clean.2.1]
      have stepped : (server M).stepTask choice state
          ⟨Job.read ns digest, openEntry ns digest, false⟩ =
          (state, ⟨Job.read ns digest, .done (.opened (some
            ⟨UInt64.ofNat bytes.length, ByteStream.opened bytes choice.cuts false⟩)), false⟩) := by
        simp only [Machine.stepTask, openEntry, Bool.false_eq_true, if_false]
        rw [executed]
        simp only [size, ne_eq, not_true_eq_false, if_false]
      cases job
      refine ⟨congrArg Prod.fst stepped, ?_⟩
      apply (congrArg (ReadTask ns state digest) (congrArg Prod.snd stepped)).mpr
      exact ⟨rfl, seen, rfl, .opened bytes stored small choice.cuts⟩

theorem ReadTask.opened (reading : ReadTask ns state digest task) {out : Option Out}
    (ended : task.outcome = some out) : ∃ bytes cuts, state.blobs digest = some bytes ∧
      bytes.length < 2 ^ 64 ∧ out = some (.opened (some
        ⟨UInt64.ofNat bytes.length, ByteStream.opened bytes cuts false⟩)) := by
  obtain ⟨job, rest, aborted⟩ := task
  obtain ⟨job, seen, rfl, stage⟩ := reading
  cases stage with
  | begun => cases ended
  | opened bytes stored small cuts =>
      cases ended
      exact ⟨bytes, cuts, stored, small, rfl⟩

end Reading

/-- A request other than the upload of a pack, as it is served: it starts no jobs but reads, and
its namespace sees just what it has made of its rows. -/
structure Serving (ns : String) (sight : OwnRows) (state : ServerState M)
    (process : Process Api A) : Prop where
  rows : state.own ns = sight
  tasks : ∀ task ∈ process.tasks, ∃ digest, ReadTask ns state digest task

def singly : Pairing :=
  ⟨fun job => ∃ ns digest, job = .read ns digest, fun ids ids' => ∃ id, ids = [id] ∧ ids' = [id],
    fun _ _ id id' => id = id'⟩

omit [Protocol] in
theorem singly_serves : singly.Serves where
  reads ns digest := ⟨ns, digest, rfl⟩
  one id := ⟨id, rfl, rfl⟩

namespace Serving

variable {sight : OwnRows} {state after : ServerState M} {process : Process Api A}

theorem later (serving : Serving ns sight state process) (grows : ServerState.Grows state after)
    (same : after.own ns = state.own ns) : Serving ns sight after process where
  rows := same.trans serving.rows
  tasks task member := by
    obtain ⟨digest, reading⟩ := serving.tasks task member
    exact ⟨digest, reading.later grows⟩

theorem waits (serving : Serving ns sight state process) (sound : state.Sound)
    {move : Move Choice} (smooth : Untroubled state process move)
    (waits : ¬ (server M).Advances process move) :
    Serving ns sight ((server M).step state process move).1
      ((server M).step state process move).2 := by
  cases move with
  | main choice =>
      rw [Machine.step_waits waits]
      exact serving
  | task id choice =>
      rcases (server M).step_task state process id choice with same | ⟨task, found, _, stepped⟩
      · rw [same]
        exact serving
      · obtain ⟨digest, reading⟩ := serving.tasks task (List.mem_of_getElem? found)
        obtain ⟨same, next⟩ := reading.step sound smooth.1
        rw [stepped]
        simp only
        rw [same]
        refine ⟨serving.rows, fun other member => ?_⟩
        rcases List.mem_or_eq_of_mem_set member with old | rfl
        · exact serving.tasks other old
        · exact ⟨digest, next⟩
  | abort id => exact smooth.elim
  | drop => exact ⟨serving.rows, serving.tasks⟩

theorem spawns (serving : Serving ns sight state process) {job : Job}
    (reads : singly.Starts job) (starts : state.Starts ns job) (main : Program Api A) :
    Serving ns sight state
      { process with main := main, tasks := process.tasks ++ [⟨job, job.body, false⟩] } := by
  refine ⟨serving.rows, fun task member => ?_⟩
  rcases List.mem_append.mp member with old | new
  · exact serving.tasks task old
  · obtain ⟨other, digest, rfl⟩ := reads
    obtain ⟨rfl, seen⟩ := starts
    rw [List.mem_singleton.mp new]
    exact ⟨digest, rfl, seen, rfl, .begun⟩

theorem taken {state' : ServerState M} {process' : Process Api A} (meets : state.Meets state')
    (serving : Serving ns sight state process) (serving' : Serving ns sight state' process')
    (jobs : process.jobs = process'.jobs) {id : Nat} {task task' : Task Api}
    {out out' : Option Out} (found : process.tasks[id]? = some task)
    (found' : process'.tasks[id]? = some task') (ended : task.outcome = some out)
    (ended' : task'.outcome = some out') : Option.Rel Out.Alike out out' := by
  obtain ⟨digest, reading⟩ := serving.tasks task (List.mem_of_getElem? found)
  obtain ⟨digest', reading'⟩ := serving'.tasks task' (List.mem_of_getElem? found')
  have same := Process.jobs_found jobs found found'
  rw [reading.job, reading'.job] at same
  cases same
  obtain ⟨bytes, cuts, stored, small, rfl⟩ := reading.opened ended
  obtain ⟨bytes', cuts', stored', _, rfl⟩ := reading'.opened ended'
  obtain rfl := meets digest bytes bytes' stored stored'
  exact .some (.opened (.some (.opened bytes small cuts cuts')))

theorem settled (serving : Serving ns sight state process) (answered : process.answer.isSome) :
    (server M).Settled process := by
  refine ⟨answered, fun task member detached => ?_⟩
  obtain ⟨digest, reading⟩ := serving.tasks task member
  rw [reading.job] at detached
  cases detached

end Serving

def serving (M A : Type) [MetadataStore M] (ns : String) : Pace (outlook M ns) A Untroubled where
  likeness := likeness singly
  Keeps := Serving ns
  jobs same := same.1
  later keeps grows same := Serving.later keeps grows same
  waits sound keeps smooth waits := Serving.waits keeps sound smooth waits
  spawns keeps _ same starts := Serving.spawns keeps same.2 starts _
  joins keeps _ _ _ _ := ⟨Serving.rows keeps, fun task member => Serving.tasks keeps task member⟩
  calls {sight s s' process process' op op' next next' choice choice'} sound sound' meets keeps
      keeps' _ _ allowed allowed' smooth smooth' alike := by
    have same : ServerState.own s ns = ServerState.own s' ns :=
      (Serving.rows keeps).trans (Serving.rows keeps').symm
    obtain ⟨after, told⟩ := exec_alike sound sound' same meets smooth smooth' alike allowed allowed'
    refine ⟨told, _, ⟨rfl, fun task member => ?_⟩, ⟨after.symm, fun task member => ?_⟩⟩
    · obtain ⟨digest, reading⟩ := Serving.tasks keeps task member
      exact ⟨digest, reading.later ((sharing M).sound choice sound allowed).2⟩
    · obtain ⟨digest, reading⟩ := Serving.tasks keeps' task member
      exact ⟨digest, reading.later ((sharing M).sound choice' sound' allowed').2⟩
  taken meets keeps keeps' jobs _ _ waits member member' found found' ended ended' := by
    obtain ⟨id, rfl, rfl⟩ := waits
    obtain rfl := List.mem_singleton.mp member
    obtain rfl := List.mem_singleton.mp member'
    exact ⟨rfl, Serving.taken meets keeps keeps' jobs found found' ended ended'⟩
  same keeps keeps' _ _ _ := (Serving.rows keeps).trans (Serving.rows keeps').symm
  settled keeps answered := Serving.settled keeps answered

section Loading
variable {state after : ServerState M} {entry : Entry} {task next : Task Api} {digest : Digest}

def Ended (tasks : List (Task Api)) (digest : Digest) : Prop :=
  ∃ task ∈ tasks, task.job.frame.map Entry.digest = some digest ∧ task.outcome.isSome

structure CalmStore (ns : String) (state : ServerState M) (entry : Entry) (task : Task Api) :
    Prop where
  storing : StoreTask ns state entry task
  live : task.aborted = false
  whole : ∀ error, task.rest ≠ .done (.stored (.error error))

namespace CalmStore

theorem later (calm : CalmStore ns state entry task) (grows : ServerState.Grows state after) :
    CalmStore ns after entry task where
  storing := by
    refine calm.storing.later (fun digest present => ?_) grows.rows
    obtain ⟨bytes, held⟩ := Option.isSome_iff_exists.mp present
    exact Option.isSome_iff_exists.mpr ⟨bytes, grows.blobs digest bytes held⟩
  live := calm.live
  whole := calm.whole

theorem outcome (calm : CalmStore ns state entry task) {out : Option Out}
    (ended : task.outcome = some out) : ∃ outcome, out = some (.stored (.ok outcome)) := by
  obtain ⟨job, rest, aborted⟩ := task
  obtain ⟨⟨_, stage, _, _⟩, rfl, whole⟩ := calm
  cases stage with
  | begun => cases ended
  | placed outcome => cases ended
  | ended result =>
      cases ended
      cases result with
      | error error => exact absurd rfl (whole error)
      | ok outcome => exact ⟨outcome, rfl⟩

end CalmStore

theorem StoreStep.grows (step : StoreStep ns state entry task after next) :
    ServerState.Grows state after := by
  have start : Gained ns [entry] state state := (Gained.refl ns state).more (List.nil_subset _)
  have gained := step.gained start (List.mem_singleton_self _)
  refine ⟨gained.within, gained.rows, fun other action result held => ?_⟩
  rw [gained.results]
  exact held

omit [Protocol] in
theorem ended_spawned {tasks : List (Task Api)} (running : task.outcome = none) :
    Ended (tasks ++ [task]) digest ↔ Ended tasks digest := by
  constructor
  · rintro ⟨other, member, named, ends⟩
    rcases List.mem_append.mp member with old | new
    · exact ⟨other, old, named, ends⟩
    · rw [List.mem_singleton.mp new, running] at ends
      cases ends
  · rintro ⟨other, member, named, ends⟩
    exact ⟨other, List.mem_append_left _ member, named, ends⟩

omit [Protocol] in
theorem ended_set {tasks : List (Task Api)} {id : Nat} (present : tasks[id]? = some task)
    (running : task.outcome = none) : Ended (tasks.set id next) digest ↔
      next.job.frame.map Entry.digest = some digest ∧ next.outcome.isSome ∨ Ended tasks digest := by
  have bound := (List.getElem?_eq_some_iff.mp present).1
  constructor
  · rintro ⟨other, member, named, ends⟩
    rcases List.mem_or_eq_of_mem_set member with old | rfl
    · exact .inr ⟨other, old, named, ends⟩
    · exact .inl ⟨named, ends⟩
  · rintro (⟨named, ends⟩ | ⟨other, member, named, ends⟩)
    · exact ⟨next, List.mem_of_getElem? (List.getElem?_set_self bound), named, ends⟩
    · obtain ⟨number, there⟩ := List.mem_iff_getElem?.mp member
      have different : id ≠ number := by
        rintro rfl
        cases present.symm.trans there
        rw [running] at ends
        cases ends
      refine ⟨other, List.mem_of_getElem? (i := number) ?_, named, ends⟩
      rw [List.getElem?_set_ne different, there]

theorem sees_register
    (recorded : after.shown = (state.blobs, state.view.register ns entry.digest)) :
    after.Sees ns digest ↔ digest = entry.digest ∨ state.Sees ns digest := by
  have view : after.view = state.view.register ns entry.digest := congrArg Prod.snd recorded
  rw [ServerState.Sees, view, View.register]
  simp only
  by_cases same : digest = entry.digest
  · rw [same, View.assign_same]
    simp
  · rw [View.assign_other _ _ fun both => same both.2]
    simp [same, ServerState.Sees]

end Loading

/-- The upload of a pack, as it is served: the stores not yet taken may have ended or not, and
the namespace sees what it saw before and what the ended ones have stored. -/
structure Loading (ns : String) (sight : OwnRows) (state : ServerState M)
    (process : Process Api A) : Prop where
  main : ∃ left, process.main.Gathers Op.Local (Job.Stores ns) (fun _ left _ => left = []) left
      process.tasks.length ∧
    ∀ id task, process.tasks[id]? = some task → id ∉ left → task.outcome.isSome
  tasks : ∀ task ∈ process.tasks, ∃ entry, CalmStore ns state entry task
  visible : ∀ digest, state.Sees ns digest ↔
    sight.visible digest = true ∨ Ended process.tasks digest
  result : (state.own ns).result = sight.result
  manifest : (state.own ns).manifest = sight.manifest

def loosely : Pairing :=
  ⟨fun job => ∃ ns digest bytes, job = .store ns digest bytes,
    fun ids ids' => ids.length = ids'.length, fun ids ids' id id' => id ∈ ids ∧ id' ∈ ids'⟩

omit [Protocol] in
theorem loosely_gathers : loosely.Gathers where
  stores ns digest bytes := ⟨ns, digest, bytes, rfl⟩
  length same := same
  none := rfl
  started id same := by
    change _ = _
    rw [List.length_append, List.length_append, same]
  taken {ids ids' id id'} same taken := by
    change (ids.erase id).length = (ids'.erase id').length
    rw [List.length_erase_of_mem taken.1, List.length_erase_of_mem taken.2]
    exact congrArg Nat.pred same

namespace Loading

variable {sight : OwnRows} {state after : ServerState M} {process : Process Api A}

theorem later (loading : Loading ns sight state process) (grows : ServerState.Grows state after)
    (same : after.own ns = state.own ns) : Loading ns sight after process where
  main := loading.main
  tasks task member := by
    obtain ⟨entry, calm⟩ := loading.tasks task member
    exact ⟨entry, calm.later grows⟩
  visible digest := by
    have seen : after.Sees ns digest ↔ state.Sees ns digest := by
      have visible : after.view.visible ns = state.view.visible ns := congrArg OwnRows.visible same
      rw [ServerState.Sees, ServerState.Sees, visible]
    exact seen.trans (loading.visible digest)
  result := (congrArg OwnRows.result same).trans loading.result
  manifest := (congrArg OwnRows.manifest same).trans loading.manifest

theorem stored (loading : Loading ns sight state process) {id : Nat} {task next : Task Api}
    {entry : Entry} (found : process.tasks[id]? = some task) (calm : CalmStore ns state entry task)
    (step : StoreStep ns state entry task after next) (calm' : CalmStore ns after entry next)
    (grows : ServerState.Grows state after) :
    Loading ns sight after { process with tasks := process.tasks.set id next } := by
  obtain ⟨left, gathers, ended⟩ := loading.main
  have tasks : ∀ other ∈ process.tasks.set id next, ∃ entry, CalmStore ns after entry other := by
    intro other member
    rcases List.mem_or_eq_of_mem_set member with old | rfl
    · obtain ⟨entry, calm⟩ := loading.tasks other old
      exact ⟨entry, calm.later grows⟩
    · exact ⟨entry, calm'⟩
  have main : ∀ (stays : task.outcome.isSome → next.outcome.isSome),
      ∃ left, process.main.Gathers Op.Local (Job.Stores ns) (fun _ left _ => left = []) left
        (process.tasks.set id next).length ∧ ∀ other task,
          (process.tasks.set id next)[other]? = some task → other ∉ left → task.outcome.isSome := by
    intro stays
    refine ⟨left, by rwa [List.length_set], fun other held there past => ?_⟩
    by_cases same : id = other
    · subst same
      rw [List.getElem?_set_self (List.getElem?_eq_some_iff.mp found).1] at there
      cases there
      exact stays (ended id task found past)
    · rw [List.getElem?_set_ne same] at there
      exact ended other held there past
  cases step with
  | idle =>
      rw [set_present found]
      exact loading
  | failed failure => exact absurd rfl (calm'.whole _)
  | lostPut failure => exact absurd rfl (calm'.whole _)
  | lostRow failure after valid recorded => exact absurd rfl (calm'.whole _)
  | put was =>
      have running : task.outcome = none := by
        rw [Task.outcome, calm.live, was]
        rfl
      have going : Task.outcome { task with
          rest := registering ns entry.digest (state.blobs.put entry.digest entry.payload).2 } =
            none := by
        rw [Task.outcome, calm.live]
        rfl
      refine ⟨main (fun ends => ?_), tasks, fun digest => ?_, loading.result, loading.manifest⟩
      · rw [running] at ends
        cases ends
      · refine (loading.visible digest).trans (or_congr_right ?_)
        rw [ended_set found running, going]
        simp
  | registered outcome after was valid recorded =>
      have running : task.outcome = none := by
        rw [Task.outcome, calm.live, was]
        rfl
      have ends : Task.outcome { task with rest := .done (.stored (.ok outcome)) } =
          some (some (.stored (.ok outcome))) := by
        rw [Task.outcome, calm.live]
        rfl
      have view : after.view = state.view.register ns entry.digest := congrArg Prod.snd recorded
      refine ⟨main (fun _ => by rw [ends]; rfl), tasks, fun digest => ?_, ?_, ?_⟩
      · rw [sees_register recorded, ended_set found running, ends, loading.visible digest]
        simp only [calm.storing.job, Job.frame, Option.map_some, Option.some.injEq,
          Option.isSome_some, and_true, @eq_comm _ digest]
        exact or_left_comm
      · exact (congrArg (fun view => (View.own view ns).result) view).trans loading.result
      · exact (congrArg (fun view => (View.own view ns).manifest) view).trans loading.manifest

theorem waits (loading : Loading ns sight state process) (sound : state.Sound)
    {move : Move Choice} (smooth : Untroubled state process move)
    (waits : ¬ (server M).Advances process move) :
    Loading ns sight ((server M).step state process move).1
      ((server M).step state process move).2 := by
  cases move with
  | main choice =>
      rw [Machine.step_waits waits]
      exact loading
  | task id choice =>
      rcases (server M).step_task state process id choice with same | ⟨task, found, goes, stepped⟩
      · rw [same]
        exact loading
      · obtain ⟨entry, calm⟩ := loading.tasks task (List.mem_of_getElem? found)
        have step := calm.storing.step sound.valid choice
        have whole := calm.storing.step_answered (fun op next head =>
          smooth.2 op (Machine.carries_task found goes calm.live head choice)) calm.whole
        rw [stepped]
        exact loading.stored found calm step
          ⟨step.storing calm.storing, step.aborted.trans calm.live, whole⟩ step.grows
  | abort id => exact smooth.elim
  | drop => exact ⟨loading.main, loading.tasks, loading.visible, loading.result, loading.manifest⟩

theorem spawns (loading : Loading ns sight state process) {job : Job} {next : Nat → Program Api A}
    (head : process.main = .spawn job next) (starts : state.Starts ns job) :
    Loading ns sight state { process with
      main := next process.tasks.length
      tasks := process.tasks ++ [⟨job, job.body, false⟩] } := by
  obtain ⟨left, gathers, ended⟩ := loading.main
  rw [head] at gathers
  obtain ⟨⟨digest, bytes, rfl⟩, rest⟩ := gathers
  have running : Task.outcome (I := Api)
      ⟨.store ns digest bytes, storeFrame ns digest bytes, false⟩ = none := rfl
  refine ⟨⟨left ++ [process.tasks.length], ?_, ?_⟩, ?_, ?_, loading.result, loading.manifest⟩
  · rw [List.length_append]
    exact rest
  · intro id task there past
    rw [List.mem_append, not_or, List.mem_singleton] at past
    rcases getElem?_snoc there with old | ⟨last, -⟩
    · exact ended id task old past.1
    · exact absurd last past.2
  · intro task member
    rcases List.mem_append.mp member with old | new
    · exact loading.tasks task old
    · rw [List.mem_singleton.mp new]
      refine ⟨⟨digest, bytes⟩, ⟨rfl, .begun, fun put => ?_, fun outcome ends => ?_⟩, rfl,
        fun error ends => ?_⟩
      · cases put
      · cases ends
      · cases ends
  · intro other
    exact (loading.visible other).trans (or_congr_right (ended_spawned running).symm)

theorem joins (loading : Loading ns sight state process) {ids : List Nat}
    {next : Nat → Option Out → Program Api A} (head : process.main = .join ids next) {id : Nat}
    (member : id ∈ ids) {task : Task Api} (found : process.tasks[id]? = some task)
    {out : Option Out} (ends : task.outcome = some out) :
    Loading ns sight state { process with main := next id out } := by
  obtain ⟨left, gathers, ended⟩ := loading.main
  rw [head] at gathers
  refine ⟨⟨left.erase id, gathers.2.2 id member out, fun other held there past => ?_⟩,
    loading.tasks, loading.visible, loading.result, loading.manifest⟩
  by_cases same : other = id
  · subst same
    cases found.symm.trans there
    rw [ends]
    rfl
  · exact ended other held there fun present => past ((List.mem_erase_of_ne same).mpr present)

theorem calls (loading : Loading ns sight state process) {op : Op}
    {next : Except Failure op.Value → Program Api A} (head : process.main = .call op next) :
    op.Local ∧ ∀ value asked,
      Loading ns sight state { process with main := next value, asked := asked } := by
  obtain ⟨left, gathers, ended⟩ := loading.main
  rw [head] at gathers
  exact ⟨gathers.1, fun value asked => ⟨⟨left, gathers.2 value, ended⟩, loading.tasks,
    loading.visible, loading.result, loading.manifest⟩⟩

theorem ended (loading : Loading ns sight state process) (answered : process.answer.isSome) :
    ∀ task ∈ process.tasks, task.outcome.isSome := by
  obtain ⟨left, gathers, ended⟩ := loading.main
  obtain ⟨result, answer⟩ := Option.isSome_iff_exists.mp answered
  rw [Program.result?_eq answer] at gathers
  intro task member
  obtain ⟨id, there⟩ := List.mem_iff_getElem?.mp member
  refine ended id task there ?_
  rw [gathers]
  exact List.not_mem_nil

theorem settled (loading : Loading ns sight state process) (answered : process.answer.isSome) :
    (server M).Settled process :=
  ⟨answered, fun task member _ => loading.ended answered task member⟩

theorem same {state' : ServerState M} {process' : Process Api A}
    (loading : Loading ns sight state process) (loading' : Loading ns sight state' process')
    (jobs : process.jobs = process'.jobs) (answered : process.answer.isSome)
    (answered' : process'.answer.isSome) : state.own ns = state'.own ns := by
  have all : ∀ {process : Process Api A} (_ : ∀ task ∈ process.tasks, task.outcome.isSome) digest,
      Ended process.tasks digest ↔
        ∃ job ∈ process.jobs, job.frame.map Entry.digest = some digest := by
    intro process ends digest
    constructor
    · rintro ⟨task, member, named, _⟩
      exact ⟨task.job, List.mem_map_of_mem member, named⟩
    · rintro ⟨_, member, named⟩
      obtain ⟨task, there, rfl⟩ := List.mem_map.mp member
      exact ⟨task, there, named, ends task there⟩
  have visible : (state.own ns).visible = (state'.own ns).visible := by
    funext digest
    apply Bool.eq_iff_iff.mpr
    refine (loading.visible digest).trans (Iff.trans ?_ (loading'.visible digest).symm)
    rw [all (loading.ended answered), all (loading'.ended answered'), jobs]
  have result := loading.result.trans loading'.result.symm
  have manifest := loading.manifest.trans loading'.manifest.symm
  generalize state.own ns = own, state'.own ns = own' at visible result manifest
  cases own
  cases own'
  cases visible
  cases result
  cases manifest
  rfl

end Loading

theorem exec_local {op : Op} (asks : op.Local) {choice choice' : Choice} (clean : choice.Clean)
    (clean' : choice'.Clean) (state state' : ServerState M) :
    (exec choice op state).1 = state ∧ (exec choice' op state').1 = state' ∧
      Op.Told op op (exec choice op state).2 (exec choice' op state').2 := by
  rw [exec_clean clean, exec_clean clean']
  rcases asks with rfl | ⟨permits, rfl⟩
  · exact ⟨rfl, rfl, .same _ (by simp) _⟩
  · refine ⟨rfl, rfl, ?_⟩
    simp only [perform, clean.2.2, clean'.2.2]
    exact .same _ (by simp) _

def loading (M A : Type) [MetadataStore M] (ns : String) : Pace (outlook M ns) A Untroubled where
  likeness := likeness loosely
  Keeps := Loading ns
  jobs same := same.1
  later keeps grows same := Loading.later keeps grows same
  waits sound keeps smooth waits := Loading.waits keeps sound smooth waits
  spawns keeps head _ starts := Loading.spawns keeps head starts
  joins keeps head member found ends := Loading.joins keeps head member found ends
  calls {sight s s' process process' op op' next next' choice choice'} _ _ _ keeps keeps' head head'
      _ _ smooth smooth' alike := by
    obtain ⟨asks, rest⟩ := Loading.calls keeps head
    obtain ⟨_, rest'⟩ := Loading.calls keeps' head'
    cases alike with
    | same op =>
        obtain ⟨kept, kept', told⟩ := exec_local asks smooth smooth' s s'
        refine ⟨told, sight, ?_, ?_⟩
        · rw [kept]
          exact rest _ _
        · rw [kept']
          exact rest' _ _
    | register other digest stored stored' =>
        rcases asks with wrong | ⟨permits, wrong⟩
        · cases wrong
        · cases wrong
  taken _ keeps keeps' _ _ _ _ member member' found found' ends ends' := by
    obtain ⟨entry, calm⟩ := Loading.tasks keeps _ (List.mem_of_getElem? found)
    obtain ⟨entry', calm'⟩ := Loading.tasks keeps' _ (List.mem_of_getElem? found')
    obtain ⟨outcome, rfl⟩ := calm.outcome ends
    obtain ⟨outcome', rfl⟩ := calm'.outcome ends'
    exact ⟨⟨member, member'⟩, .some (.stored outcome outcome')⟩
  same keeps keeps' jobs answered answered' := Loading.same keeps keeps' jobs answered answered'
  settled keeps answered := Loading.settled keeps answered

end MbxCache
