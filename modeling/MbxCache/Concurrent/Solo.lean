import Mathlib.Logic.Relation
import MbxCache.Concurrent.Logic

namespace MbxCache.Concurrent

variable {I : Interface} {A B : Type}

structure World (M : Machine I) where
  state : M.State
  tasks : List (Task I)
  asked : List (Asked I)

/-- The choices its surroundings may make for a process and for its jobs, and whether
jobs may be cut off. -/
structure Regime (M : Machine I) where
  main : M.Choice → Prop
  task : M.Choice → Prop
  aborts : Prop

namespace Regime

variable {M : Machine I}

def Admits (R : Regime M) : Move M.Choice → Prop
  | .main choice => R.main choice
  | .task _ choice => R.task choice
  | .abort _ => R.aborts
  | .drop => True

end Regime

namespace World

variable {M : Machine I}

def of (state : M.State) (process : Process I A) : World M := ⟨state, process.tasks, process.asked⟩

def called (world : World M) (choice : M.Choice) (op : I.Op) : World M :=
  ⟨(M.exec choice op world.state).1, world.tasks,
    world.asked ++ [⟨op, (M.exec choice op world.state).2⟩]⟩

def spawned (world : World M) (job : I.Job) : World M :=
  ⟨world.state, world.tasks ++ [⟨job, M.body job, false⟩], world.asked⟩

inductive Aside (R : Regime M) (world : World M) : World M → Prop
  | step (id : Nat) (task : Task I) (choice : M.Choice) (present : world.tasks[id]? = some task)
      (admitted : R.task choice) :
      Aside R world ⟨(M.stepTask choice world.state task).1,
        world.tasks.set id (M.stepTask choice world.state task).2, world.asked⟩
  | abort (id : Nat) (task : Task I) (present : world.tasks[id]? = some task)
      (running : task.running = true) (admitted : R.aborts) :
      Aside R world ⟨world.state, world.tasks.set id { task with aborted := true }, world.asked⟩

end World

/-- What a process by itself keeps true, and what it may do when. -/
structure Solo (M : Machine I) where
  regime : Regime M
  Inv : World M → Prop
  Calls : I.Op → World M → Prop
  Spawns : I.Job → World M → Prop
  Joins : List Nat → World M → Prop
  aside : ∀ {world next}, Inv world → World.Aside regime world next → Inv next
  call : ∀ {world op} choice, Inv world → Calls op world → regime.main choice →
    Inv (world.called choice op)
  spawn : ∀ {world job}, Inv world → Spawns job world → Inv (world.spawned job)

namespace Solo

variable {M : Machine I} (D : Solo M)

def Meanwhile (world next : World M) : Prop :=
  Relation.ReflTransGen (World.Aside D.regime) world next

def logic : Logic I {world : World M // D.Inv world} where
  Later world next := D.Meanwhile world.1 next.1
  Calls op world := D.Calls op world.1
  Called op world value next := ∃ choice, D.regime.main choice ∧
    next.1 = world.1.called choice op ∧ value = (M.exec choice op world.1.state).2
  Spawns job world := D.Spawns job world.1
  Spawned job world id next := id = world.1.tasks.length ∧ next.1 = world.1.spawned job
  Joins ids world := D.Joins ids world.1
  Joined ids world id out next := next = world ∧ id ∈ ids ∧
    ∃ task, world.1.tasks[id]? = some task ∧ task.outcome = some out
  refl _ := .refl
  trans := .trans

def Safe (p : Program I A) (post : A → {world : World M // D.Inv world} → Prop)
    (world : {world : World M // D.Inv world}) : Prop := D.logic.Safe p post world

def Holds (post : A → {world : World M // D.Inv world} → Prop)
    (config : M.State × Process I A) : Prop :=
  ∃ inv : D.Inv (World.of config.1 config.2), D.Safe config.2.main post ⟨_, inv⟩

variable {D}

theorem Holds.aside {post : A → {world : World M // D.Inv world} → Prop} {state state' : M.State}
    {process process' : Process I A} (holds : D.Holds post (state, process))
    (same : process'.main = process.main)
    (step : World.Aside D.regime (World.of state process) (World.of state' process')) :
    D.Holds post (state', process') := by
  obtain ⟨inv, safe⟩ := holds
  refine ⟨D.aside inv step, ?_⟩
  simp only [same]
  exact Logic.Safe.later safe (.single step)

theorem Holds.stepMain {post : A → {world : World M // D.Inv world} → Prop} {state : M.State}
    {process : Process I A} (holds : D.Holds post (state, process)) {choice : M.Choice}
    (admitted : D.regime.main choice) : D.Holds post (M.stepMain choice state process) := by
  obtain ⟨inv, safe⟩ := holds
  unfold Machine.stepMain
  cases head : process.main with
  | done result => exact ⟨inv, safe⟩
  | call op next =>
      simp only [head] at safe
      obtain ⟨allowed, rest⟩ := safe _ .refl
      exact ⟨D.call choice inv allowed admitted,
        rest _ ⟨_, D.call choice inv allowed admitted⟩ ⟨choice, admitted, rfl, rfl⟩⟩
  | spawn job next =>
      simp only [head] at safe
      obtain ⟨allowed, rest⟩ := safe _ .refl
      exact ⟨D.spawn inv allowed, rest _ ⟨_, D.spawn inv allowed⟩ ⟨rfl, rfl⟩⟩
  | join ids next =>
      have waiting := safe
      simp only [head] at waiting
      obtain ⟨_, rest⟩ := waiting _ .refl
      simp only
      split
      · rename_i out ended
        obtain ⟨task, present, outcome⟩ := Option.bind_eq_some_iff.mp ended
        split
        · rename_i member
          exact ⟨inv, rest _ _ ⟨_, inv⟩ ⟨rfl, member, task, present, outcome⟩⟩
        · exact ⟨inv, safe⟩
      · exact ⟨inv, safe⟩

theorem Holds.step {post : A → {world : World M // D.Inv world} → Prop} {state : M.State}
    {process : Process I A} (holds : D.Holds post (state, process)) {move : Move M.Choice}
    (admitted : D.regime.Admits move) : D.Holds post (M.step state process move) := by
  cases move with
  | main choice =>
      simp only [Machine.step]
      split
      · exact holds
      · exact holds.stepMain admitted
  | task id choice =>
      simp only [Machine.step]
      split
      · exact holds
      · rename_i task present
        split
        · exact holds
        · exact holds.aside rfl (.step id task choice present admitted)
  | abort id =>
      simp only [Machine.step]
      split
      · exact holds
      · rename_i task present
        split
        · rename_i cut
          exact holds.aside rfl (.abort id task present (Bool.and_eq_true_iff.mp cut).1 admitted)
        · exact holds
  | drop => exact holds

theorem Holds.run {post : A → {world : World M // D.Inv world} → Prop} {state : M.State}
    {process : Process I A} (holds : D.Holds post (state, process))
    {moves : List (Move M.Choice)} (admitted : ∀ move ∈ moves, D.regime.Admits move) :
    D.Holds post (M.run state process moves) := by
  induction moves generalizing state process with
  | nil => exact holds
  | cons first rest ih =>
      exact ih (holds.step (admitted first List.mem_cons_self))
        fun move member => admitted move (List.mem_cons_of_mem _ member)

/-- The answer of a process meets what its program promises. -/
theorem Holds.answer {post : A → {world : World M // D.Inv world} → Prop}
    {config : M.State × Process I A} (holds : D.Holds post config) {result : A}
    (answered : config.2.answer = some result) :
    ∃ inv : D.Inv (World.of config.1 config.2), post result ⟨_, inv⟩ := by
  obtain ⟨inv, safe⟩ := holds
  simp only [Program.result?_eq answered] at safe
  exact ⟨inv, safe _ .refl⟩

theorem Holds.asks {post : A → {world : World M // D.Inv world} → Prop}
    {config : M.State × Process I A} (holds : D.Holds post config) {op : I.Op}
    {next : I.Val op → Program I A} (head : config.2.main = .call op next) :
    D.Calls op (World.of config.1 config.2) := by
  obtain ⟨inv, safe⟩ := holds
  simp only [head] at safe
  exact (safe _ .refl).1

theorem Holds.waits {post : A → {world : World M // D.Inv world} → Prop}
    {config : M.State × Process I A} (holds : D.Holds post config) {ids : List Nat}
    {next : Nat → Option I.Out → Program I A} (head : config.2.main = .join ids next) :
    D.Joins ids (World.of config.1 config.2) := by
  obtain ⟨inv, safe⟩ := holds
  simp only [head] at safe
  exact (safe _ .refl).1

theorem Meanwhile.length {world next : World M} (later : D.Meanwhile world next) :
    next.tasks.length = world.tasks.length := by
  induction later with
  | refl => rfl
  | tail _ step ih =>
      cases step with
      | step id task choice present admitted => exact List.length_set.trans ih
      | abort id task present running admitted => exact List.length_set.trans ih

/-- What may become of started jobs: they stay what they are, and an ended one stays as it
ended. -/
structure Advanced (tasks later : List (Task I)) : Prop where
  length : later.length = tasks.length
  jobs : later.map Task.job = tasks.map Task.job
  ended : ∀ (id : Nat) (task : Task I) (out : Option I.Out), tasks[id]? = some task →
    task.outcome = some out → ∃ task', later[id]? = some task' ∧ task'.outcome = some out

namespace Advanced

theorem refl (tasks : List (Task I)) : Advanced tasks tasks where
  length := rfl
  jobs := rfl
  ended _ task _ present outcome := ⟨task, present, outcome⟩

theorem trans {first second third : List (Task I)} (one : Advanced first second)
    (other : Advanced second third) : Advanced first third where
  length := other.length.trans one.length
  jobs := other.jobs.trans one.jobs
  ended id task out present outcome := by
    obtain ⟨task', present', outcome'⟩ := one.ended id task out present outcome
    exact other.ended id task' out present' outcome'

theorem jobs_set {tasks : List (Task I)} {id : Nat} {task task' : Task I}
    (present : tasks[id]? = some task) (job : task'.job = task.job) :
    (tasks.set id task').map Task.job = tasks.map Task.job := by
  apply List.ext_getElem?
  intro other
  by_cases same : other = id
  · subst same
    have bound := (List.getElem?_eq_some_iff.mp present).1
    rw [List.getElem?_map, List.getElem?_map, List.getElem?_set_self bound, present]
    exact congrArg some job
  · rw [List.getElem?_map, List.getElem?_map, List.getElem?_set_ne (Ne.symm same)]

theorem set {tasks : List (Task I)} {id : Nat} {task task' : Task I}
    (present : tasks[id]? = some task) (job : task'.job = task.job)
    (ended : ∀ out, task.outcome = some out → task'.outcome = some out) :
    Advanced tasks (tasks.set id task') where
  length := List.length_set
  jobs := jobs_set present job
  ended other held out there outcome := by
    by_cases same : other = id
    · subst same
      rw [present] at there
      cases there
      exact ⟨task', List.getElem?_set_self (List.getElem?_eq_some_iff.mp present).1,
        ended out outcome⟩
    · exact ⟨held, by rw [List.getElem?_set_ne (Ne.symm same)]; exact there, outcome⟩

end Advanced

theorem stepTask_ended {choice : M.Choice} {state : M.State} {task : Task I} {out : Option I.Out}
    (outcome : task.outcome = some out) : M.stepTask choice state task = (state, task) := by
  unfold Machine.stepTask
  unfold Task.outcome at outcome
  cases cut : task.aborted with
  | true => simp
  | false =>
      rw [cut, if_neg Bool.false_ne_true] at outcome
      rw [if_neg Bool.false_ne_true]
      cases rest : task.rest with
      | call op next =>
          rw [rest] at outcome
          cases outcome
      | _ => rfl

theorem stepTask_job (choice : M.Choice) (state : M.State) (task : Task I) :
    (M.stepTask choice state task).2.job = task.job := by
  unfold Machine.stepTask
  split
  · rfl
  · split <;> rfl

/-- The process itself has asked nothing meanwhile, and its jobs have only gone on. -/
theorem Meanwhile.advanced {world next : World M} (later : D.Meanwhile world next) :
    next.asked = world.asked ∧ Advanced world.tasks next.tasks := by
  induction later with
  | refl => exact ⟨rfl, .refl _⟩
  | tail _ step ih =>
      obtain ⟨asked, advanced⟩ := ih
      cases step with
      | step id task choice present admitted =>
          refine ⟨asked, advanced.trans (.set present (stepTask_job choice _ task) ?_)⟩
          intro out outcome
          rw [stepTask_ended outcome]
          exact outcome
      | abort id task present running admitted =>
          refine ⟨asked, advanced.trans (.set present rfl ?_)⟩
          intro out outcome
          rw [Task.running, outcome] at running
          cases running

section Rules
variable {world : {world : World M // D.Inv world}}
  {post : A → {world : World M // D.Inv world} → Prop}

theorem Safe.mono {p : Program I A} {weaker : A → {world : World M // D.Inv world} → Prop}
    (safe : D.Safe p post world) (implied : ∀ result after, post result after →
      weaker result after) : D.Safe p weaker world :=
  Logic.Safe.mono safe implied

theorem Safe.bind {p : Program I B} {next : B → Program I A}
    {mid : B → {world : World M // D.Inv world} → Prop} (first : D.Safe p mid world)
    (rest : ∀ result after, mid result after → D.Safe (next result) post after) :
    D.Safe (p.bind next) post world :=
  Logic.Safe.seq first rest

theorem Safe.done {result : A}
    (holds : ∀ after, D.Meanwhile world.1 after.1 → post result after) :
    D.Safe (.done result) post world := holds

theorem Safe.call {op : I.Op} {next : I.Val op → Program I A}
    (allowed : ∀ before : {world : World M // D.Inv world}, D.Meanwhile world.1 before.1 →
      D.Calls op before.1)
    (rest : ∀ (before after : {world : World M // D.Inv world}) choice,
      D.Meanwhile world.1 before.1 → D.regime.main choice →
      after.1 = before.1.called choice op →
      D.Safe (next (M.exec choice op before.1.state).2) post after) :
    D.Safe (.call op next) post world := by
  intro before later
  refine ⟨allowed before later, fun value after called => ?_⟩
  obtain ⟨choice, admitted, same, rfl⟩ := called
  exact rest before after choice later admitted same

theorem Safe.spawn {job : I.Job} {next : Nat → Program I A}
    (allowed : ∀ before : {world : World M // D.Inv world}, D.Meanwhile world.1 before.1 →
      D.Spawns job before.1)
    (rest : ∀ before after : {world : World M // D.Inv world}, D.Meanwhile world.1 before.1 →
      after.1 = before.1.spawned job → D.Safe (next before.1.tasks.length) post after) :
    D.Safe (.spawn job next) post world := by
  intro before later
  refine ⟨allowed before later, fun id after spawned => ?_⟩
  obtain ⟨rfl, same⟩ := spawned
  exact rest before after later same

theorem Safe.join {ids : List Nat} {next : Nat → Option I.Out → Program I A}
    (allowed : ∀ before : {world : World M // D.Inv world}, D.Meanwhile world.1 before.1 →
      D.Joins ids before.1)
    (rest : ∀ (before : {world : World M // D.Inv world}) id task out,
      D.Meanwhile world.1 before.1 → id ∈ ids → before.1.tasks[id]? = some task →
      task.outcome = some out → D.Safe (next id out) post before) :
    D.Safe (.join ids next) post world := by
  intro before later
  refine ⟨allowed before later, fun id out after joined => ?_⟩
  obtain ⟨rfl, member, task, present, outcome⟩ := joined
  exact rest after id task out later member present outcome

end Rules

end Solo
end MbxCache.Concurrent
