import Mathlib.Data.List.Basic

/-! Programs as trees of awaits, and the processes that run them. -/

namespace MbxCache.Concurrent

theorem getElem?_snoc {α : Type} {items : List α} {last found : α} {id : Nat}
    (present : (items ++ [last])[id]? = some found) :
    items[id]? = some found ∨ (id = items.length ∧ found = last) := by
  have within := (List.getElem?_eq_some_iff.mp present).1
  rw [List.length_append, List.length_singleton] at within
  rcases Nat.lt_succ_iff_lt_or_eq.mp within with before | same
  · rw [List.getElem?_append_left before] at present
    exact .inl present
  · rw [same, List.getElem?_concat_length] at present
    exact .inr ⟨same, (Option.some.inj present).symm⟩

theorem set_present {α : Type} {items : List α} {item : α} {id : Nat}
    (present : items[id]? = some item) : items.set id item = items := by
  obtain ⟨bound, rfl⟩ := List.getElem?_eq_some_iff.mp present
  exact List.set_getElem_self bound

/-- What programs may ask for, the jobs they may start, and what a job comes to. -/
structure Interface where
  Op : Type
  Val : Op → Type
  Job : Type
  Out : Type

/-- A program up to its next await: it asks its surroundings for a value, starts a
job, or waits for one of some jobs to end. A job may end without a result. -/
inductive Program (I : Interface) (A : Type) : Type
  | done (result : A)
  | call (op : I.Op) (next : I.Val op → Program I A)
  | spawn (job : I.Job) (next : Nat → Program I A)
  | join (ids : List Nat) (next : Nat → Option I.Out → Program I A)

namespace Program

variable {I : Interface} {A B C : Type}

protected def bind : Program I A → (A → Program I B) → Program I B
  | .done result, f => f result
  | .call op next, f => .call op fun value => (next value).bind f
  | .spawn job next, f => .spawn job fun id => (next id).bind f
  | .join ids next, f => .join ids fun id out => (next id out).bind f

instance : Monad (Program I) where
  pure := .done
  bind := Program.bind

@[simp] theorem pure_eq (result : A) : (pure result : Program I A) = .done result := rfl

@[simp] theorem bind_eq (p : Program I A) (f : A → Program I B) : p >>= f = p.bind f := rfl

@[simp] theorem bind_done (result : A) (f : A → Program I B) :
    (Program.done result).bind f = f result := rfl

theorem bind_pure (p : Program I A) : p.bind .done = p := by
  induction p with
  | done result => rfl
  | call op next ih => exact congrArg (Program.call op) (funext ih)
  | spawn job next ih => exact congrArg (Program.spawn job) (funext ih)
  | join ids next ih =>
      exact congrArg (Program.join ids) (funext fun id => funext fun out => ih id out)

theorem bind_assoc (p : Program I A) (f : A → Program I B) (g : B → Program I C) :
    (p.bind f).bind g = p.bind fun result => (f result).bind g := by
  induction p with
  | done result => rfl
  | call op next ih => exact congrArg (Program.call op) (funext ih)
  | spawn job next ih => exact congrArg (Program.spawn job) (funext ih)
  | join ids next ih =>
      exact congrArg (Program.join ids) (funext fun id => funext fun out => ih id out)

def bindOk {ε : Type} (p : Program I (Except ε A)) (next : A → Program I (Except ε B)) :
    Program I (Except ε B) :=
  p.bind fun result =>
    match result with
    | .error error => .done (.error error)
    | .ok value => next value

def result? : Program I A → Option A
  | .done result => some result
  | _ => none

theorem result?_eq {p : Program I A} {result : A} (ended : p.result? = some result) :
    p = .done result := by
  cases p <;> cases ended
  rfl

/-- Run a program alone, with `exec` answering. A program that starts or awaits
jobs is not one that runs alone. -/
def runAlone {S : Type} (exec : (op : I.Op) → S → S × I.Val op) : Program I A → S → S × Option A
  | .done result, state => (state, some result)
  | .call op next, state => (next (exec op state).2).runAlone exec (exec op state).1
  | .spawn _ _, state => (state, none)
  | .join _ _, state => (state, none)

def Always (post : A → Prop) : Program I A → Prop
  | .done result => post result
  | .call _ next => ∀ value, (next value).Always post
  | .spawn _ next => ∀ id, (next id).Always post
  | .join _ next => ∀ id out, (next id out).Always post

theorem Always.all {post : A → Prop} (holds : ∀ result, post result) (p : Program I A) :
    p.Always post := by
  induction p with
  | done result => exact holds result
  | call op next ih => exact ih
  | spawn job next ih => exact ih
  | join ids next ih => exact ih

theorem Always.mono {p : Program I A} {post weaker : A → Prop} (always : p.Always post)
    (weaken : ∀ result, post result → weaker result) : p.Always weaker := by
  induction p with
  | done result => exact weaken result always
  | call op next ih => exact fun value => ih value (always value)
  | spawn job next ih => exact fun id => ih id (always id)
  | join ids next ih => exact fun id out => ih id out (always id out)

theorem Always.bind {p : Program I A} {f : A → Program I B} {post : B → Prop}
    (always : p.Always fun result => (f result).Always post) : (p.bind f).Always post := by
  induction p with
  | done result => exact always
  | call op next ih => exact fun value => ih value (always value)
  | spawn job next ih => exact fun id => ih id (always id)
  | join ids next ih => exact fun id out => ih id out (always id out)

theorem Always.bind_congr {p : Program I A} {f g : A → Program I B} {post : A → Prop}
    (always : p.Always post) (same : ∀ result, post result → f result = g result) :
    p.bind f = p.bind g := by
  induction p with
  | done result => exact same result always
  | call op next ih => exact congrArg (Program.call op) (funext fun value => ih value (always value))
  | spawn job next ih => exact congrArg (Program.spawn job) (funext fun id => ih id (always id))
  | join ids next ih =>
      exact congrArg (Program.join ids)
        (funext fun id => funext fun out => ih id out (always id out))

end Program

/-- What runs programs: a shared state, the choices left to the surroundings at
each step, and the bodies of jobs. A detached job outlives the process that
started it. -/
structure Machine (I : Interface) where
  State : Type
  Choice : Type
  exec : Choice → (op : I.Op) → State → State × I.Val op
  pick : Choice → Nat
  body : I.Job → Program I I.Out
  detached : I.Job → Bool

structure Task (I : Interface) where
  job : I.Job
  rest : Program I I.Out
  aborted : Bool

namespace Task

variable {I : Interface}

def outcome (task : Task I) : Option (Option I.Out) :=
  if task.aborted then some none else task.rest.result?.map some

def running (task : Task I) : Bool := task.outcome.isNone

end Task

structure Asked (I : Interface) where
  op : I.Op
  value : I.Val op

structure Process (I : Interface) (A : Type) where
  main : Program I A
  tasks : List (Task I)
  asked : List (Asked I)
  dropped : Bool

namespace Process

variable {I : Interface} {A : Type}

def start (main : Program I A) : Process I A := ⟨main, [], [], false⟩

def halted (process : Process I A) : Bool := process.dropped || process.main.result?.isSome

def answer (process : Process I A) : Option A := process.main.result?

end Process

inductive Move (Choice : Type)
  | main (choice : Choice)
  | task (id : Nat) (choice : Choice)
  | abort (id : Nat)
  | drop

namespace Machine

variable {I : Interface} {A : Type} (M : Machine I)

def stepMain (choice : M.Choice) (state : M.State) (process : Process I A) :
    M.State × Process I A :=
  match process.main with
  | .done _ => (state, process)
  | .call op next =>
      ((M.exec choice op state).1, { process with
        main := next (M.exec choice op state).2
        asked := process.asked ++ [⟨op, (M.exec choice op state).2⟩] })
  | .spawn job next =>
      (state, { process with
        main := next process.tasks.length
        tasks := process.tasks ++ [⟨job, M.body job, false⟩] })
  | .join ids next =>
      match process.tasks[M.pick choice]?.bind Task.outcome with
      | some out =>
          if M.pick choice ∈ ids then (state, { process with main := next (M.pick choice) out })
          else (state, process)
      | none => (state, process)

theorem stepMain_call {choice : M.Choice} {state : M.State} {process : Process I A} {op : I.Op}
    {next : I.Val op → Program I A} (head : process.main = .call op next) :
    M.stepMain choice state process =
      ((M.exec choice op state).1, { process with
        main := next (M.exec choice op state).2
        asked := process.asked ++ [⟨op, (M.exec choice op state).2⟩] }) := by
  unfold stepMain
  rw [head]

theorem stepMain_done {choice : M.Choice} {state : M.State} {process : Process I A} {result : A}
    (head : process.main = .done result) : M.stepMain choice state process = (state, process) := by
  unfold stepMain
  rw [head]

/-- A job takes its next step. Jobs do nothing but call. -/
def stepTask (choice : M.Choice) (state : M.State) (task : Task I) : M.State × Task I :=
  if task.aborted then (state, task)
  else
    match task.rest with
    | .call op next =>
        ((M.exec choice op state).1, { task with rest := next (M.exec choice op state).2 })
    | _ => (state, task)

def step (state : M.State) (process : Process I A) : Move M.Choice → M.State × Process I A
  | .main choice => if process.dropped then (state, process) else M.stepMain choice state process
  | .task id choice =>
      match process.tasks[id]? with
      | none => (state, process)
      | some task =>
          if process.halted && !M.detached task.job then (state, process)
          else
            ((M.stepTask choice state task).1, { process with
              tasks := process.tasks.set id (M.stepTask choice state task).2 })
  | .abort id =>
      match process.tasks[id]? with
      | none => (state, process)
      | some task =>
          if task.running && M.detached task.job then
            (state, { process with tasks := process.tasks.set id { task with aborted := true } })
          else (state, process)
  | .drop => (state, { process with dropped := true })

def run (state : M.State) (process : Process I A) (moves : List (Move M.Choice)) :
    M.State × Process I A :=
  moves.foldl (fun config move => M.step config.1 config.2 move) (state, process)

end Machine
end MbxCache.Concurrent
