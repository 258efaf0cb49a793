import MbxCache.Concurrent.Alike
import MbxCache.Concurrent.Solo

namespace MbxCache.Concurrent

variable {I : Interface} {A Req Who : Type}

def Process.jobs (process : Process I A) : List I.Job := process.tasks.map Task.job

theorem Process.jobs_found {process process' : Process I A} (same : process.jobs = process'.jobs)
    {id : Nat} {task task' : Task I} (found : process.tasks[id]? = some task)
    (found' : process'.tasks[id]? = some task') : task.job = task'.job := by
  have at_id := congrArg (·[id]?) same
  simp only [jobs, List.getElem?_map, found, found', Option.map_some, Option.some.injEq] at at_id
  exact at_id

namespace Machine

variable (M : Machine I)

inductive Advances (process : Process I A) : Move M.Choice → Prop
  | call (choice : M.Choice) (op : I.Op) (next : I.Val op → Program I A)
      (live : process.dropped = false) (head : process.main = .call op next) :
      Advances process (.main choice)
  | spawn (choice : M.Choice) (job : I.Job) (next : Nat → Program I A)
      (live : process.dropped = false) (head : process.main = .spawn job next) :
      Advances process (.main choice)
  | join (choice : M.Choice) (ids : List Nat) (next : Nat → Option I.Out → Program I A)
      (task : Task I) (out : Option I.Out) (live : process.dropped = false)
      (head : process.main = .join ids next) (member : M.pick choice ∈ ids)
      (found : process.tasks[M.pick choice]? = some task) (ended : task.outcome = some out) :
      Advances process (.main choice)

structure Settled (process : Process I A) : Prop where
  answered : process.answer.isSome
  ended : ∀ task ∈ process.tasks, M.detached task.job = true → task.outcome.isSome

variable {M} {state : M.State} {process : Process I A} {move : Move M.Choice}

theorem Advances.unanswered (advances : M.Advances process move) : process.answer = none := by
  cases advances with
  | call choice op next live head => rw [Process.answer, head]; rfl
  | spawn choice job next live head => rw [Process.answer, head]; rfl
  | join choice ids next task out live head => rw [Process.answer, head]; rfl

theorem step_waits {choice : M.Choice} (waits : ¬ M.Advances process (.main choice)) :
    M.step state process (.main choice) = (state, process) := by
  cases live : process.dropped with
  | true => simp only [step, live, if_true]
  | false =>
      simp only [step, live, Bool.false_eq_true, if_false]
      unfold stepMain
      cases head : process.main with
      | done result => rfl
      | call op next => exact absurd (.call choice op next live head) waits
      | spawn job next => exact absurd (.spawn choice job next live head) waits
      | join ids next =>
          simp only
          split
          · rename_i out ended
            obtain ⟨task, found, ended⟩ := Option.bind_eq_some_iff.mp ended
            split
            · rename_i member
              exact absurd (.join choice ids next task out live head member found ended) waits
            · rfl
          · rfl

variable (M state process) in
theorem step_task (id : Nat) (choice : M.Choice) :
    M.step state process (.task id choice) = (state, process) ∨ ∃ task,
      process.tasks[id]? = some task ∧ (process.halted && !M.detached task.job) = false ∧
      M.step state process (.task id choice) = ((M.stepTask choice state task).1,
        { process with tasks := process.tasks.set id (M.stepTask choice state task).2 }) := by
  simp only [step]
  split
  · exact .inl rfl
  · rename_i task found
    split
    · exact .inl rfl
    · rename_i goes
      exact .inr ⟨task, found, by simpa using goes, rfl⟩

theorem carries_task {id : Nat} {task : Task I} (found : process.tasks[id]? = some task)
    (goes : (process.halted && !M.detached task.job) = false) (live : task.aborted = false)
    {op : I.Op} {next : I.Val op → Program I I.Out} (head : task.rest = .call op next)
    (choice : M.Choice) : M.carries process (.task id choice) = some (choice, op) := by
  simp only [carries, found, goes, live, head, Bool.or_false, Bool.false_eq_true, if_false]

theorem step_waiting (waits : ¬ M.Advances process move) :
    (M.step state process move).2.main = process.main ∧
      (M.step state process move).2.jobs = process.jobs := by
  cases move with
  | main choice =>
      rw [step_waits waits]
      exact ⟨rfl, rfl⟩
  | task id choice =>
      rcases M.step_task state process id choice with same | ⟨task, found, _, stepped⟩
      · rw [same]
        exact ⟨rfl, rfl⟩
      · rw [stepped]
        exact ⟨rfl, Solo.Advanced.jobs_set found (Solo.stepTask_job choice state task)⟩
  | abort id =>
      simp only [step]
      split
      · exact ⟨rfl, rfl⟩
      · rename_i task found
        split
        · exact ⟨rfl, Solo.Advanced.jobs_set found rfl⟩
        · exact ⟨rfl, rfl⟩
  | drop => exact ⟨rfl, rfl⟩

theorem Settled.step (settled : M.Settled process) :
    (M.step state process move).1 = state ∧ M.Settled (M.step state process move).2 := by
  have halted : process.halted = true := by
    rw [Process.halted, ← Process.answer, settled.answered, Bool.or_true]
  cases move with
  | main choice =>
      have waits : ¬ M.Advances process (.main choice) := by
        intro advances
        have answered := settled.answered
        rw [advances.unanswered] at answered
        cases answered
      rw [step_waits waits]
      exact ⟨rfl, settled⟩
  | task id choice =>
      rcases M.step_task state process id choice with same | ⟨task, found, goes, stepped⟩
      · rw [same]
        exact ⟨rfl, settled⟩
      · have detached : M.detached task.job = true := by
          rw [halted, Bool.true_and, Bool.not_eq_false'] at goes
          exact goes
        obtain ⟨out, ended⟩ := Option.isSome_iff_exists.mp
          (settled.ended task (List.mem_of_getElem? found) detached)
        rw [stepped, Solo.stepTask_ended ended, set_present found]
        exact ⟨rfl, settled⟩
  | abort id =>
      simp only [Machine.step]
      split
      · exact ⟨rfl, settled⟩
      · rename_i task found
        split
        · rename_i goes
          rw [Bool.and_eq_true] at goes
          have ended := settled.ended task (List.mem_of_getElem? found) goes.2
          rw [Task.running, Option.isNone_iff_eq_none] at goes
          rw [goes.1] at ended
          cases ended
        · exact ⟨rfl, settled⟩
  | drop => exact ⟨rfl, settled.answered, settled.ended⟩

theorem step_call {choice : M.Choice} {op : I.Op} {next : I.Val op → Program I A}
    (live : process.dropped = false) (head : process.main = .call op next) :
    M.step state process (.main choice) = ((M.exec choice op state).1, { process with
      main := next (M.exec choice op state).2
      asked := process.asked ++ [⟨op, (M.exec choice op state).2⟩] }) := by
  simp only [step, live, Bool.false_eq_true, if_false, stepMain]
  rw [head]

theorem step_spawn {choice : M.Choice} {job : I.Job} {next : Nat → Program I A}
    (live : process.dropped = false) (head : process.main = .spawn job next) :
    M.step state process (.main choice) = (state, { process with
      main := next process.tasks.length
      tasks := process.tasks ++ [⟨job, M.body job, false⟩] }) := by
  simp only [step, live, Bool.false_eq_true, if_false, stepMain]
  rw [head]

theorem step_join {choice : M.Choice} {ids : List Nat} {next : Nat → Option I.Out → Program I A}
    {task : Task I} {out : Option I.Out} (live : process.dropped = false)
    (head : process.main = .join ids next) (member : M.pick choice ∈ ids)
    (found : process.tasks[M.pick choice]? = some task) (ended : task.outcome = some out) :
    M.step state process (.main choice) =
      (state, { process with main := next (M.pick choice) out }) := by
  simp only [step, live, Bool.false_eq_true, if_false, stepMain]
  rw [head]
  simp only [found, Option.bind_some, ended, member, if_true]

end Machine

def arrivals {Choice : Type} (mine : Nat → Bool) (actions : List (Action Req Choice)) :
    List (Nat × Req) :=
  actions.filterMap fun
    | .start pid request => if mine pid then some (pid, request) else none
    | .move _ _ => none

variable {M : Machine I} {discipline : Discipline M Who} {who : Who}

/-- Each request under a marked number arrives when all before it have been answered. -/
def OneAtATime (handler : Req → Program I A) (mine : Nat → Bool) (state : M.State)
    (actions : List (Action Req M.Choice)) : Prop :=
  ∀ front pid request back, actions = front ++ .start pid request :: back → mine pid = true →
    ∀ other process, mine other = true →
      ((Config.initial M A state).run handler front).procs other = some process →
      process.answer.isSome

section Answers
variable {handler : Req → Program I A} {state : M.State} {actions : List (Action Req M.Choice)}
  {pid : Nat} {process : Process I A}

theorem Config.answer_stays
    (found : ((Config.initial M A state).run handler actions).procs pid = some process)
    (answered : process.answer.isSome) (more : List (Action Req M.Choice)) :
    ∃ later, ((Config.initial M A state).run handler (actions ++ more)).procs pid = some later ∧
      later.answer = process.answer := by
  induction more using List.reverseRecOn with
  | nil => exact ⟨process, by rwa [List.append_nil], rfl⟩
  | append_singleton more action ih =>
      obtain ⟨before, present, same⟩ := ih
      rw [← List.append_assoc, Config.run_snoc]
      by_cases about : pid = action.pid
      · cases action with
        | start started request =>
            obtain rfl : pid = started := about
            refine ⟨before, ?_, same⟩
            simp only [Config.step, present]
        | move moved move =>
            obtain rfl : pid = moved := about
            have waits : ¬ M.Advances before move := by
              intro advances
              rw [← same, advances.unanswered] at answered
              cases answered
            refine ⟨(M.step ((Config.initial M A state).run handler (actions ++ more)).state before
              move).2, ?_, ?_⟩
            · simp only [Config.step, present]
              exact if_pos rfl
            · rw [Process.answer, (Machine.step_waiting waits).1]
              exact same
      · exact ⟨before, (Config.step_other handler _ action about).trans present, same⟩

theorem Config.answers_at_once {request : Req} {result : A}
    (at_once : handler request = .done result) (started : served actions pid = some request) :
    (((Config.initial M A state).run handler actions).procs pid).bind Process.answer =
      some result := by
  obtain ⟨front, action, back, rfl, arrives, before⟩ := List.findSome?_eq_some_iff.mp started
  have free : ((Config.initial M A state).run handler front).procs pid = none := by
    have none : served front pid = none := List.findSome?_eq_none_iff.mpr before
    have running := Config.run_procs handler state front pid
    rw [none] at running
    simpa using running
  cases action with
  | move moved move => cases arrives
  | start other request' =>
      simp only [Action.request] at arrives
      split at arrives
      · rename_i same
        subst same
        cases arrives
        have found : ((Config.initial M A state).run handler
            (front ++ [.start other request])).procs other = some (.start (.done result)) := by
          rw [Config.run_snoc]
          simp [Config.step, free, Config.setProc, at_once]
        obtain ⟨later, present, answer⟩ := Config.answer_stays found rfl back
        rw [List.append_cons, present]
        exact answer
      · cases arrives

end Answers

theorem Discipline.Follows.starts {process : Process I A}
    {promise : A → {s : M.State // discipline.Inv s} → Prop} {s : {s : M.State // discipline.Inv s}}
    (follows : discipline.Follows who process promise s) {job : I.Job}
    {next : Nat → Program I A} (head : process.main = .spawn job next) :
    discipline.Starts who job s.1 := by
  have safe := follows.main
  rw [head] at safe
  exact (safe s (discipline.refl s.1)).1

/-- How a request is followed in two pools while it is served. `Keeps sight state process` says
how the process, and what its party sees by now, come from `sight`, which the party saw in both
pools at the last step they both took: the jobs may have gone on since, in each pool its own way. -/
structure Pace (perspective : Perspective discipline who) (A : Type)
    (Smooth : M.State → Process I A → Move M.Choice → Prop) where
  likeness : Likeness I
  Keeps : perspective.Sight → M.State → Process I A → Prop
  jobs : ∀ {job job'}, likeness.Jobs job job' → job = job'
  later : ∀ {sight s t process}, Keeps sight s process → discipline.Rely s t →
    perspective.sight t = perspective.sight s → Keeps sight t process
  waits : ∀ {sight s process move}, discipline.Inv s → Keeps sight s process →
    Smooth s process move → ¬ M.Advances process move →
    Keeps sight (M.step s process move).1 (M.step s process move).2
  spawns : ∀ {sight s process job next}, Keeps sight s process →
    process.main = .spawn job next → likeness.Jobs job job → discipline.Starts who job s →
    Keeps sight s { process with
      main := next process.tasks.length
      tasks := process.tasks ++ [⟨job, M.body job, false⟩] }
  joins : ∀ {sight s process ids next id task out}, Keeps sight s process →
    process.main = .join ids next → id ∈ ids → process.tasks[id]? = some task →
    task.outcome = some out → Keeps sight s { process with main := next id out }
  calls : ∀ {sight s s' process process' op op' next next' choice choice'},
    discipline.Inv s → discipline.Inv s' → perspective.Meets s s' →
    Keeps sight s process → Keeps sight s' process' →
    process.main = .call op next → process'.main = .call op' next' →
    discipline.Allowed who op s → discipline.Allowed who op' s' →
    Smooth s process (.main choice) → Smooth s' process' (.main choice') →
    likeness.Ops op op' →
    likeness.Answers op op' (M.exec choice op s).2 (M.exec choice' op' s').2 ∧
      ∃ sight',
        Keeps sight' (M.exec choice op s).1 { process with
          main := next (M.exec choice op s).2
          asked := process.asked ++ [⟨op, (M.exec choice op s).2⟩] } ∧
        Keeps sight' (M.exec choice' op' s').1 { process' with
          main := next' (M.exec choice' op' s').2
          asked := process'.asked ++ [⟨op', (M.exec choice' op' s').2⟩] }
  taken : ∀ {sight s s' process process' ids ids' next next' id id' task task' out out'},
    perspective.Meets s s' → Keeps sight s process → Keeps sight s' process' →
    process.jobs = process'.jobs → process.main = .join ids next →
    process'.main = .join ids' next' → likeness.Waits ids ids' → id ∈ ids → id' ∈ ids' →
    process.tasks[id]? = some task → process'.tasks[id']? = some task' →
    task.outcome = some out → task'.outcome = some out' →
    likeness.Takes ids ids' id id' ∧ Option.Rel likeness.Outs out out'
  same : ∀ {sight s s' process process'}, Keeps sight s process → Keeps sight s' process' →
    process.jobs = process'.jobs → process.answer.isSome → process'.answer.isSome →
    perspective.sight s = perspective.sight s'
  settled : ∀ {sight s process}, Keeps sight s process → process.answer.isSome →
    M.Settled process

structure Tandem (perspective : Perspective discipline who) (handler : Req → Program I A)
    (serves : Req → Who) (post : Req → A → A → Prop) where
  Smooth : M.State → Process I A → Move M.Choice → Prop
  pace : Req → Pace perspective A Smooth
  alike : ∀ request, serves request = who →
    (handler request).Alike (pace request).likeness (post request) (handler request)
  begins : ∀ {request} state, serves request = who →
    (pace request).Keeps (perspective.sight state) state (.start (handler request))

namespace Tandem

variable {perspective : Perspective discipline who} {handler : Req → Program I A}
  {serves : Req → Who} {post : Req → A → A → Prop}
  (tandem : Tandem perspective handler serves post)

structure Along (request : Req) (one other : M.State × Process I A) : Prop where
  main : one.2.main.Alike (tandem.pace request).likeness (post request) other.2.main
  jobs : one.2.jobs = other.2.jobs
  keeps : ∃ sight, (tandem.pace request).Keeps sight one.1 one.2 ∧
    (tandem.pace request).Keeps sight other.1 other.2

namespace Along

variable {tandem} {request : Req}

theorem answers {one other : M.State × Process I A} (along : tandem.Along request one other) :
    Option.Rel (post request) one.2.answer other.2.answer := along.main.result

theorem answered {one other : M.State × Process I A} (along : tandem.Along request one other) :
    one.2.answer.isSome = other.2.answer.isSome := by
  have answers := along.answers
  generalize one.2.answer = answer, other.2.answer = answer' at answers
  cases answers <;> rfl

theorem settled {one other : M.State × Process I A} (along : tandem.Along request one other)
    (answered : one.2.answer.isSome) : M.Settled one.2 ∧ M.Settled other.2 ∧
      perspective.sight one.1 = perspective.sight other.1 := by
  have answered' := along.answered ▸ answered
  obtain ⟨sight, keeps, keeps'⟩ := along.keeps
  exact ⟨(tandem.pace _).settled keeps answered, (tandem.pace _).settled keeps' answered',
    (tandem.pace _).same keeps keeps' along.jobs answered answered'⟩

variable {s s' : {s : M.State // discipline.Inv s}} {process process' : Process I A}
  {promise : A → {s : M.State // discipline.Inv s} → Prop} {move move' : Move M.Choice}

theorem both (along : tandem.Along request (s.1, process) (s'.1, process'))
    (meets : perspective.Meets s.1 s'.1) (follows : discipline.Follows who process promise s)
    (follows' : discipline.Follows who process' promise s')
    (smooth : tandem.Smooth s.1 process move) (smooth' : tandem.Smooth s'.1 process' move')
    (advances : M.Advances process move) (advances' : M.Advances process' move') :
    tandem.Along request (M.step s.1 process move) (M.step s'.1 process' move') := by
  obtain ⟨main, jobs, sight, keeps, keeps'⟩ := along
  simp only at main jobs keeps keeps'
  cases advances with
  | call choice op next live head =>
      cases advances' with
      | call choice' op' next' live' head' =>
          rw [head, head'] at main
          obtain ⟨told, sight', kept, kept'⟩ := (tandem.pace _).calls s.2 s'.2 meets keeps keeps'
            head head' (follows.about (.main next live head))
            (follows'.about (.main next' live' head')) smooth smooth' main.1
          rw [Machine.step_call live head, Machine.step_call live' head']
          exact ⟨main.2 _ _ told, jobs, sight', kept, kept'⟩
      | spawn choice' job' next' live' head' =>
          rw [head, head'] at main
          exact main.elim
      | join choice' ids' next' task' out' live' head' member' found' ended' =>
          rw [head, head'] at main
          exact main.elim
  | spawn choice job next live head =>
      cases advances' with
      | call choice' op' next' live' head' =>
          rw [head, head'] at main
          exact main.elim
      | spawn choice' job' next' live' head' =>
          rw [head, head'] at main
          obtain rfl := (tandem.pace _).jobs main.1
          have length : process.tasks.length = process'.tasks.length := by
            have lengths := congrArg List.length jobs
            rwa [Process.jobs, Process.jobs, List.length_map, List.length_map] at lengths
          rw [Machine.step_spawn live head, Machine.step_spawn live' head']
          refine ⟨?_, ?_, sight, (tandem.pace _).spawns keeps head main.1 (follows.starts head),
            (tandem.pace _).spawns keeps' head' main.1 (follows'.starts head')⟩
          · rw [← length]
            exact main.2 _
          · simp only [Process.jobs, List.map_append] at jobs ⊢
            rw [jobs]
      | join choice' ids' next' task' out' live' head' member' found' ended' =>
          rw [head, head'] at main
          exact main.elim
  | join choice ids next task out live head member found ended =>
      cases advances' with
      | call choice' op' next' live' head' =>
          rw [head, head'] at main
          exact main.elim
      | spawn choice' job' next' live' head' =>
          rw [head, head'] at main
          exact main.elim
      | join choice' ids' next' task' out' live' head' member' found' ended' =>
          rw [head, head'] at main
          obtain ⟨takes, outs⟩ := (tandem.pace _).taken meets keeps keeps' jobs head head' main.1
            member member' found found' ended ended'
          rw [Machine.step_join live head member found ended,
            Machine.step_join live' head' member' found' ended']
          exact ⟨main.2 _ _ _ _ takes outs, jobs, sight,
            (tandem.pace _).joins keeps head member found ended,
            (tandem.pace _).joins keeps' head' member' found' ended'⟩

end Along

section Pools
variable {tandem} (mine : Nat → Bool) (state : M.State)

abbrev after (_ : Tandem perspective handler serves post) (state : M.State)
    (actions : List (Action Req M.Choice)) : Config M A :=
  (Config.initial M A state).run handler actions

variable (tandem) in
/-- A process of the party in two runs: in neither, answered alike in both, or the one that is
being served. -/
inductive Pair (one other : List (Action Req M.Choice)) (current : Option Nat) (pid : Nat) : Prop
  | absent (free : (tandem.after state one).procs pid = none)
      (free' : (tandem.after state other).procs pid = none)
  | rested (past : current ≠ some pid) (request : Req) (process process' : Process I A)
      (started : served one pid = some request) (started' : served other pid = some request)
      (found : (tandem.after state one).procs pid = some process)
      (found' : (tandem.after state other).procs pid = some process')
      (settled : M.Settled process) (settled' : M.Settled process')
      (answers : Option.Rel (post request) process.answer process'.answer)
  | going (request : Req) (process process' : Process I A)
      (started : served one pid = some request) (started' : served other pid = some request)
      (found : (tandem.after state one).procs pid = some process)
      (found' : (tandem.after state other).procs pid = some process')
      (now : current = some pid)
      (along : tandem.Along request ((tandem.after state one).state, process)
        ((tandem.after state other).state, process'))

variable (tandem) in
/-- Two runs that have come equally far with the requests of the party. -/
structure Abreast (one other : List (Action Req M.Choice)) (current : Option Nat) : Prop where
  pairs : ∀ pid, mine pid = true → tandem.Pair state one other current pid
  serving : ∀ pid, current = some pid →
    mine pid = true ∧ ((tandem.after state one).procs pid).isSome
  same : current = none → perspective.sight (tandem.after state one).state =
    perspective.sight (tandem.after state other).state

variable (tandem) in
structure Idles (one : List (Action Req M.Choice)) (action : Action Req M.Choice)
    (current : Option Nat) : Prop where
  absent : ∀ pid, mine pid = true → (tandem.after state one).procs pid = none →
    (tandem.after state (one ++ [action])).procs pid = none
  present : ∀ pid request process, mine pid = true → served one pid = some request →
    (tandem.after state one).procs pid = some process →
    ∃ later, (tandem.after state (one ++ [action])).procs pid = some later ∧
      later.main = process.main ∧ later.jobs = process.jobs ∧
      (M.Settled process → M.Settled later) ∧
      (current = some pid → ∀ sight,
        (tandem.pace request).Keeps sight (tandem.after state one).state process →
        (tandem.pace request).Keeps sight (tandem.after state (one ++ [action])).state later)
  same : current = none → perspective.sight (tandem.after state (one ++ [action])).state =
    perspective.sight (tandem.after state one).state

variable {mine state} {one other : List (Action Req M.Choice)} {action : Action Req M.Choice}
  {current : Option Nat}

theorem served_of_running {pid : Nat} {process : Process I A}
    (found : (tandem.after state one).procs pid = some process) :
    ∃ request, served one pid = some request := by
  have running := Config.run_procs handler state one pid
  rw [found] at running
  exact Option.isSome_iff_exists.mp running.symm

theorem Abreast.left (abreast : tandem.Abreast mine state one other current)
    (idles : tandem.Idles mine state one action current) :
    tandem.Abreast mine state (one ++ [action]) other current where
  pairs pid own := by
    cases abreast.pairs pid own with
    | absent free free' => exact .absent (idles.absent pid own free) free'
    | rested past request process process' started started' found found' settled settled' answers =>
        obtain ⟨later, present, main, _, rests, _⟩ :=
          idles.present pid request process own started found
        refine .rested past request later process' (served_append started _) started' present found'
          (rests settled) settled' ?_
        rw [Process.answer, main]
        exact answers
    | going request process process' started started' found found' now along =>
        obtain ⟨later, present, main, jobs, _, keeps⟩ :=
          idles.present pid request process own started found
        obtain ⟨sight, kept, kept'⟩ := along.keeps
        exact .going request later process' (served_append started _) started' present found' now
          ⟨main ▸ along.main, jobs.trans along.jobs, sight, keeps now sight kept, kept'⟩
  serving pid now := by
    obtain ⟨own, running⟩ := abreast.serving pid now
    obtain ⟨process, found⟩ := Option.isSome_iff_exists.mp running
    obtain ⟨request, started⟩ := served_of_running found
    obtain ⟨later, present, _⟩ := idles.present pid request process own started found
    exact ⟨own, Option.isSome_iff_exists.mpr ⟨later, present⟩⟩
  same none := (idles.same none).trans (abreast.same none)

theorem Abreast.right (abreast : tandem.Abreast mine state one other current)
    (idles : tandem.Idles mine state other action current) :
    tandem.Abreast mine state one (other ++ [action]) current where
  pairs pid own := by
    cases abreast.pairs pid own with
    | absent free free' => exact .absent free (idles.absent pid own free')
    | rested past request process process' started started' found found' settled settled' answers =>
        obtain ⟨later, present, main, _, rests, _⟩ :=
          idles.present pid request process' own started' found'
        refine .rested past request process later started (served_append started' _) found present
          settled (rests settled') ?_
        rw [Process.answer, Process.answer, main]
        exact answers
    | going request process process' started started' found found' now along =>
        obtain ⟨later, present, main, jobs, _, keeps⟩ :=
          idles.present pid request process' own started' found'
        obtain ⟨sight, kept, kept'⟩ := along.keeps
        exact .going request process later started (served_append started' _) found present now
          ⟨main ▸ along.main, along.jobs.trans jobs.symm, sight, kept, keeps now sight kept'⟩
  serving := abreast.serving
  same none := (abreast.same none).trans (idles.same none).symm

namespace Idles

theorem outside (service : Service discipline handler serves) (inv : discipline.Inv state)
    (owns : Owns serves who mine (one ++ [action])) (outside : mine action.pid = false) :
    tandem.Idles mine state one action current := by
  have keeps := service.run inv one
  have same := perspective.outside_step keeps owns outside
  have others : ∀ pid, mine pid = true →
      (tandem.after state (one ++ [action])).procs pid = (tandem.after state one).procs pid := by
    intro pid own
    rw [after, Config.run_snoc]
    apply Config.step_other
    rintro rfl
    rw [outside] at own
    cases own
  refine ⟨fun pid own free => (others pid own).trans free, ?_, fun _ => same⟩
  intro pid request process own _ found
  exact ⟨process, (others pid own).trans found, rfl, rfl, id, fun _ sight kept =>
    (tandem.pace _).later kept (service.step keeps action).2 same⟩

theorem again {pid : Nat} {request : Req} {process : Process I A}
    (taken : (tandem.after state one).procs pid = some process) :
    tandem.Idles mine state one (.start pid request) current := by
  have unchanged : tandem.after state (one ++ [.start pid request]) = tandem.after state one := by
    rw [after, Config.run_snoc]
    simp only [Config.step, taken]
  refine ⟨fun _ _ free => unchanged ▸ free, ?_, fun _ => unchanged ▸ rfl⟩
  intro pid request process _ _ found
  rw [unchanged]
  exact ⟨process, found, rfl, rfl, id, fun _ _ kept => kept⟩

theorem waits (service : Service discipline handler serves) (inv : discipline.Inv state)
    {pid : Nat} {move : Move M.Choice}
    (rests : ∀ process, (tandem.after state one).procs pid = some process →
      current = some pid ∨ M.Settled process)
    (smooth : ∀ process, (tandem.after state one).procs pid = some process →
      tandem.Smooth (tandem.after state one).state process move)
    (waits : ∀ process, (tandem.after state one).procs pid = some process →
      ¬ M.Advances process move) :
    tandem.Idles mine state one (.move pid move) current := by
  have sound := (service.run inv one).inv
  cases taken : (tandem.after state one).procs pid with
  | none =>
      have unchanged : tandem.after state (one ++ [.move pid move]) = tandem.after state one := by
        rw [after, Config.run_snoc]
        simp only [Config.step, taken]
      refine ⟨fun _ _ free => unchanged ▸ free, ?_, fun _ => unchanged ▸ rfl⟩
      intro other request process _ _ found
      rw [unchanged]
      exact ⟨process, found, rfl, rfl, id, fun _ _ kept => kept⟩
  | some process =>
      have moved : tandem.after state (one ++ [.move pid move]) =
          ⟨(M.step (tandem.after state one).state process move).1,
            (tandem.after state one).setProc pid
              (M.step (tandem.after state one).state process move).2⟩ := by
        rw [after, Config.run_snoc]
        simp only [Config.step, taken]
      refine ⟨?_, ?_, ?_⟩
      · intro other _ free
        rw [moved]
        simp only [Config.setProc]
        split
        · rename_i same
          rw [same, taken] at free
          cases free
        · exact free
      · intro other request process' _ _ found
        rw [moved]
        simp only [Config.setProc]
        by_cases same : other = pid
        · subst same
          cases taken.symm.trans found
          obtain ⟨main, jobs⟩ := Machine.step_waiting (waits process taken)
          exact ⟨_, if_pos rfl, main, jobs, fun settled => settled.step.2, fun _ sight kept =>
            (tandem.pace _).waits sound kept (smooth process taken) (waits process taken)⟩
        · refine ⟨process', (if_neg same).trans found, rfl, rfl, id, fun now sight kept => ?_⟩
          have settled := (rests process taken).resolve_left fun here =>
            same (Option.some.inj (now.symm.trans here))
          rw [settled.step.1]
          exact kept
      · intro none
        have settled := (rests process taken).resolve_left
          (none ▸ Option.some_ne_none pid ∘ Eq.symm)
        rw [moved]
        exact congrArg perspective.sight settled.step.1

end Idles

/-- When the party's processes have all answered, they have settled, and it sees the same. -/
theorem Abreast.rest (abreast : tandem.Abreast mine state one other current)
    (answered : ∀ pid process, mine pid = true → (tandem.after state one).procs pid = some process →
      process.answer.isSome) :
    perspective.sight (tandem.after state one).state =
        perspective.sight (tandem.after state other).state ∧
      ∀ pid next, mine pid = true → next ≠ some pid → tandem.Pair state one other next pid := by
  constructor
  · cases now : current with
    | none => exact abreast.same now
    | some pid =>
        obtain ⟨own, running⟩ := abreast.serving pid now
        cases abreast.pairs pid own with
        | absent free free' =>
            rw [free] at running
            cases running
        | rested past => exact absurd now past
        | going request process process' started started' found found' now along =>
            exact (along.settled (answered pid process own found)).2.2
  · intro pid next own different
    cases abreast.pairs pid own with
    | absent free free' => exact .absent free free'
    | rested past request process process' started started' found found' settled settled' answers =>
        exact .rested different request process process' started started' found found' settled
          settled' answers
    | going request process process' started started' found found' now along =>
        obtain ⟨settled, settled', _⟩ := along.settled (answered pid process own found)
        exact .rested different request process process' started started' found found' settled
          settled' along.answers

theorem Pair.elsewhere {action action' : Action Req M.Choice} {pid : Nat}
    (pair : tandem.Pair state one other current pid) (past : current ≠ some pid)
    (different : pid ≠ action.pid) (different' : pid ≠ action'.pid) :
    tandem.Pair state (one ++ [action]) (other ++ [action']) current pid := by
  have kept : (tandem.after state (one ++ [action])).procs pid =
      (tandem.after state one).procs pid := by
    rw [after, Config.run_snoc]
    exact Config.step_other handler _ action different
  have kept' : (tandem.after state (other ++ [action'])).procs pid =
      (tandem.after state other).procs pid := by
    rw [after, Config.run_snoc]
    exact Config.step_other handler _ action' different'
  cases pair with
  | absent free free' => exact .absent (kept.trans free) (kept'.trans free')
  | rested _ request process process' started started' found found' settled settled' answers =>
      exact .rested past request process process' (served_append started _)
        (served_append started' _) (kept.trans found) (kept'.trans found') settled settled' answers
  | going request process process' started started' found found' now along =>
      exact absurd now past

theorem Abreast.starts {pid : Nat} {request : Req}
    (abreast : tandem.Abreast mine state one other current) (own : mine pid = true)
    (served : serves request = who)
    (answered : ∀ pid process, mine pid = true → (tandem.after state one).procs pid = some process →
      process.answer.isSome)
    (free : (tandem.after state one).procs pid = none)
    (free' : (tandem.after state other).procs pid = none) :
    tandem.Abreast mine state (one ++ [.start pid request]) (other ++ [.start pid request])
      (some pid) := by
  obtain ⟨same, pairs⟩ := abreast.rest answered
  have arrived : ∀ {actions : List (Action Req M.Choice)},
      (tandem.after state actions).procs pid = none →
      tandem.after state (actions ++ [.start pid request]) = ⟨(tandem.after state actions).state,
        (tandem.after state actions).setProc pid (.start (handler request))⟩ := by
    intro actions free
    rw [after, Config.run_snoc]
    simp only [Config.step, free]
  have found : ∀ {actions : List (Action Req M.Choice)},
      (tandem.after state actions).procs pid = none →
      (tandem.after state (actions ++ [.start pid request])).procs pid =
        some (.start (handler request)) := by
    intro actions free
    rw [arrived free]
    exact if_pos rfl
  refine ⟨?_, ?_, fun none => by cases none⟩
  · intro number mine
    by_cases this : number = pid
    · subst this
      refine .going request _ _ (served_fresh free request) (served_fresh free' request)
        (found free) (found free') rfl ?_
      rw [arrived free, arrived free']
      refine ⟨tandem.alike request served, rfl, _, tandem.begins _ served, ?_⟩
      simp only
      rw [same]
      exact tandem.begins _ served
    · have past : some pid ≠ some number := fun equal => this (Option.some.inj equal).symm
      exact (pairs number (some pid) mine past).elsewhere past this this
  · rintro number now
    cases now
    rw [found free]
    exact ⟨own, rfl⟩

theorem Abreast.moves (service : Service discipline handler serves) (inv : discipline.Inv state)
    (owns : Owns serves who mine one) (abreast : tandem.Abreast mine state one other current)
    (meets : perspective.Meets (tandem.after state one).state (tandem.after state other).state)
    {pid pid' : Nat} {process process' : Process I A} {move move' : Move M.Choice}
    (own : mine pid = true) (own' : mine pid' = true)
    (found : (tandem.after state one).procs pid = some process)
    (found' : (tandem.after state other).procs pid' = some process')
    (smooth : tandem.Smooth (tandem.after state one).state process move)
    (smooth' : tandem.Smooth (tandem.after state other).state process' move')
    (advances : M.Advances process move) (advances' : M.Advances process' move') :
    tandem.Abreast mine state (one ++ [.move pid move]) (other ++ [.move pid' move']) current := by
  have now' : current = some pid' := by
    cases abreast.pairs pid' own' with
    | absent free free' =>
        rw [free'] at found'
        cases found'
    | rested _ _ _ _ _ _ _ present' _ settled' =>
        cases present'.symm.trans found'
        have answered := settled'.answered
        rw [advances'.unanswered] at answered
        cases answered
    | going _ _ _ _ _ _ _ now => exact now
  cases abreast.pairs pid own with
  | absent free free' =>
      rw [free] at found
      cases found
  | rested _ _ _ _ _ _ present _ settled =>
      cases present.symm.trans found
      have answered := settled.answered
      rw [advances.unanswered] at answered
      cases answered
  | going request _ _ started started' present present' now along =>
      obtain rfl : pid = pid' := Option.some.inj (now.symm.trans now')
      cases present.symm.trans found
      cases present'.symm.trans found'
      obtain ⟨_, ⟨_, known, rfl⟩, follows⟩ := (service.run inv one).follows pid process found
      obtain ⟨_, ⟨_, known', rfl⟩, follows'⟩ := (service.run inv other).follows pid process' found'
      cases started.symm.trans known
      cases started'.symm.trans known'
      rw [(owns pid request started).mp own] at follows follows'
      have stepped := along.both meets follows follows' smooth smooth' advances advances'
      have moved : ∀ {actions : List (Action Req M.Choice)} {process : Process I A}
          {move : Move M.Choice}, (tandem.after state actions).procs pid = some process →
          tandem.after state (actions ++ [.move pid move]) =
            ⟨(M.step (tandem.after state actions).state process move).1,
              (tandem.after state actions).setProc pid
                (M.step (tandem.after state actions).state process move).2⟩ := by
        intro actions process move found
        rw [after, Config.run_snoc]
        simp only [Config.step, found]
      refine ⟨?_, ?_, fun none => absurd (now.symm.trans none) (Option.some_ne_none pid)⟩
      · intro number mine
        by_cases this : number = pid
        · subst this
          refine .going request _ _ (served_append started _) (served_append started' _)
            (by rw [moved found]; exact if_pos rfl) (by rw [moved found']; exact if_pos rfl) now ?_
          rw [moved found, moved found']
          exact stepped
        · have past : current ≠ some number :=
            fun equal => this (Option.some.inj (equal.symm.trans now))
          exact (abreast.pairs number mine).elsewhere past this this
      · intro number here
        obtain rfl := Option.some.inj (now.symm.trans here)
        refine ⟨own, ?_⟩
        rw [moved found]
        simp [Config.setProc]

variable (tandem mine state) in
/-- A run in which the party's requests come one at a time, and nothing happens to them that
may not. -/
structure Orderly (actions : List (Action Req M.Choice)) : Prop where
  owns : Owns serves who mine actions
  smooth : ∀ front pid move back process, actions = front ++ .move pid move :: back →
    mine pid = true → (tandem.after state front).procs pid = some process →
    tandem.Smooth (tandem.after state front).state process move
  turns : OneAtATime handler mine state actions

variable (tandem mine state) in
inductive Onward (front : List (Action Req M.Choice)) : Action Req M.Choice → Prop
  | arrives (pid : Nat) (request : Req) (own : mine pid = true) : Onward front (.start pid request)
  | moves (pid : Nat) (move : Move M.Choice) (process : Process I A) (own : mine pid = true)
      (found : (tandem.after state front).procs pid = some process)
      (advances : M.Advances process move) : Onward front (.move pid move)

theorem idles_or_onward (service : Service discipline handler serves) (inv : discipline.Inv state)
    {front back : List (Action Req M.Choice)}
    (orderly : tandem.Orderly mine state (front ++ action :: back))
    (rests : ∀ pid process, mine pid = true → (tandem.after state front).procs pid = some process →
      current = some pid ∨ M.Settled process) :
    (tandem.Idles mine state front action current ∧
      arrivals mine (action :: back) = arrivals mine back) ∨
      tandem.Onward mine state front action := by
  cases own : mine action.pid with
  | false =>
      have owns : Owns serves who mine (front ++ [action] ++ back) := by simpa using orderly.owns
      refine .inl ⟨.outside service inv owns.front own, ?_⟩
      cases action with
      | start pid request =>
          rw [arrivals, List.filterMap_cons_none]
          · rfl
          · exact if_neg (by simpa [Action.pid] using own)
      | move pid move => rfl
  | true =>
      cases action with
      | start pid request => exact .inr (.arrives pid request own)
      | move pid move =>
          by_cases advances : ∃ process, (tandem.after state front).procs pid = some process ∧
              M.Advances process move
          · obtain ⟨process, found, advances⟩ := advances
            exact .inr (.moves pid move process own found advances)
          · refine .inl ⟨.waits service inv (fun process => rests pid process own)
              (fun process => orderly.smooth front pid move back process rfl own)
              fun process found steps => advances ⟨process, found, steps⟩, rfl⟩

theorem Abreast.rests (abreast : tandem.Abreast mine state one other current) {pid : Nat}
    (own : mine pid = true) :
    (∀ process, (tandem.after state one).procs pid = some process →
      current = some pid ∨ M.Settled process) ∧
    ∀ process, (tandem.after state other).procs pid = some process →
      current = some pid ∨ M.Settled process := by
  cases abreast.pairs pid own with
  | absent free free' =>
      refine ⟨fun _ found => ?_, fun _ found => ?_⟩
      · cases free.symm.trans found
      · cases free'.symm.trans found
  | rested _ _ _ _ _ _ present present' settled settled' =>
      refine ⟨fun _ found => ?_, fun _ found => ?_⟩
      · cases present.symm.trans found
        exact .inr settled
      · cases present'.symm.trans found
        exact .inr settled'
  | going _ _ _ _ _ _ _ now => exact ⟨fun _ _ => .inl now, fun _ _ => .inl now⟩

theorem Abreast.answered (abreast : tandem.Abreast mine state one other current) {pid : Nat}
    (own : mine pid = true) {process process' : Process I A}
    (found : (tandem.after state one).procs pid = some process)
    (found' : (tandem.after state other).procs pid = some process') :
    process.answer.isSome = process'.answer.isSome := by
  cases abreast.pairs pid own with
  | absent free free' => cases free.symm.trans found
  | rested _ _ _ _ _ _ present present' settled settled' =>
      cases present.symm.trans found
      cases present'.symm.trans found'
      rw [settled.answered, settled'.answered]
  | going _ _ _ _ _ present present' _ along =>
      cases present.symm.trans found
      cases present'.symm.trans found'
      exact along.answered

theorem Abreast.present (abreast : tandem.Abreast mine state one other current) {pid : Nat}
    (own : mine pid = true) : ((tandem.after state one).procs pid).isSome =
      ((tandem.after state other).procs pid).isSome := by
  cases abreast.pairs pid own with
  | absent free free' => rw [free, free']
  | rested _ _ _ _ _ _ present present' => rw [present, present']; rfl
  | going _ _ _ _ _ present present' => rw [present, present']; rfl

theorem Abreast.agree (abreast : tandem.Abreast mine state one other current) {pid : Nat}
    {request : Req} {more : List (Action Req M.Choice)} (own : mine pid = true)
    (started : served (one ++ more) pid = some request) {process process' : Process I A}
    (found : (tandem.after state one).procs pid = some process)
    (found' : (tandem.after state other).procs pid = some process') :
    Option.Rel (post request) process.answer process'.answer := by
  cases abreast.pairs pid own with
  | absent free free' => cases free.symm.trans found
  | rested _ known _ _ begun _ present present' _ _ answers =>
      cases present.symm.trans found
      cases present'.symm.trans found'
      cases (served_append begun more).symm.trans started
      exact answers
  | going known _ _ begun _ present present' _ along =>
      cases present.symm.trans found
      cases present'.symm.trans found'
      cases (served_append begun more).symm.trans started
      exact along.answers

theorem Abreast.onward (service : Service discipline handler serves) (inv : discipline.Inv state)
    {front back front' back' : List (Action Req M.Choice)} {action' : Action Req M.Choice}
    (orderly : tandem.Orderly mine state (front ++ action :: back))
    (orderly' : tandem.Orderly mine state (front' ++ action' :: back'))
    (abreast : tandem.Abreast mine state front front' current)
    (meets : perspective.Meets (tandem.after state front).state (tandem.after state front').state)
    (same : arrivals mine (action :: back) = arrivals mine (action' :: back'))
    (onward : tandem.Onward mine state front action)
    (onward' : tandem.Onward mine state front' action') :
    (∃ next, tandem.Abreast mine state (front ++ [action]) (front' ++ [action']) next) ∧
      arrivals mine back = arrivals mine back' := by
  cases onward with
  | arrives pid request own =>
      have answered := orderly.turns front pid request back rfl own
      cases onward' with
      | arrives pid' request' own' =>
          simp only [arrivals, List.filterMap_cons, own, own', if_true, List.cons.injEq,
            Prod.mk.injEq] at same
          obtain ⟨⟨rfl, rfl⟩, rest⟩ := same
          refine ⟨?_, rest⟩
          cases taken : (tandem.after state front).procs pid with
          | none =>
              have present := abreast.present own
              rw [taken] at present
              have free' : (tandem.after state front').procs pid = none := by
                simpa using present.symm
              have known := orderly.owns pid request (by
                rw [List.append_cons]
                exact served_append (served_fresh taken request) back)
              exact ⟨some pid, abreast.starts own (known.mp own) answered taken free'⟩
          | some process =>
              have present := abreast.present own
              rw [taken] at present
              obtain ⟨process', taken'⟩ := Option.isSome_iff_exists.mp present.symm
              exact ⟨current, (abreast.left (.again taken)).right (.again taken')⟩
      | moves pid' move' process' own' found' advances' =>
          have running := abreast.present own'
          rw [found'] at running
          obtain ⟨process, found⟩ := Option.isSome_iff_exists.mp running
          have some := abreast.answered own' found found'
          rw [answered pid' process own' found, advances'.unanswered] at some
          cases some
  | moves pid move process own found advances =>
      cases onward' with
      | arrives pid' request' own' =>
          have answered' := orderly'.turns front' pid' request' back' rfl own'
          have running := abreast.present own
          rw [found] at running
          obtain ⟨process', found'⟩ := Option.isSome_iff_exists.mp running.symm
          have some := abreast.answered own found found'
          rw [answered' pid process' own found', advances.unanswered] at some
          cases some
      | moves pid' move' process' own' found' advances' =>
          refine ⟨⟨current, ?_⟩, same⟩
          exact abreast.moves service inv orderly.owns.front meets own own' found found'
            (orderly.smooth front pid move back process rfl own found)
            (orderly'.smooth front' pid' move' back' process' rfl own' found') advances advances'

/-- Two orderly runs with the same requests of the party can be followed abreast until one of
them is over. -/
theorem Abreast.run (service : Service discipline handler serves) (inv : discipline.Inv state)
    {front back front' back' : List (Action Req M.Choice)}
    (orderly : tandem.Orderly mine state (front ++ back))
    (orderly' : tandem.Orderly mine state (front' ++ back'))
    (meets : perspective.Meets (tandem.after state (front ++ back)).state
      (tandem.after state (front' ++ back')).state)
    (abreast : tandem.Abreast mine state front front' current)
    (same : arrivals mine back = arrivals mine back') :
    ∃ stop rest stop' rest' last, front ++ back = stop ++ rest ∧ front' ++ back' = stop' ++ rest' ∧
      (rest = [] ∨ rest' = []) ∧ tandem.Abreast mine state stop stop' last := by
  induction length : back.length + back'.length using Nat.strongRecOn
    generalizing front back front' back' current with
  | ind length ih =>
      subst length
      cases back with
      | nil => exact ⟨front, [], front', back', current, rfl, rfl, .inl rfl, abreast⟩
      | cons action back =>
          rcases idles_or_onward service inv orderly fun pid process own =>
            (abreast.rests own).1 process with ⟨idles, quiet⟩ | onward
          · rw [List.append_cons] at orderly meets ⊢
            exact ih _ (by simp only [List.length_cons]; omega) orderly orderly' meets
              (abreast.left idles) (quiet ▸ same) rfl
          · cases back' with
            | nil => exact ⟨front, action :: back, front', [], current, rfl, rfl, .inr rfl, abreast⟩
            | cons action' back' =>
                rcases idles_or_onward service inv orderly' fun pid process own =>
                  (abreast.rests own).2 process with ⟨idles, quiet⟩ | onward'
                · rw [List.append_cons front'] at orderly' meets ⊢
                  exact ih _ (by simp only [List.length_cons]; omega) orderly orderly' meets
                    (abreast.right idles) (same.trans quiet) rfl
                · obtain ⟨⟨next, forward⟩, left⟩ := abreast.onward service inv orderly orderly'
                    (perspective.sooner (service.later inv front _) (service.later inv front' _)
                      meets) same onward onward'
                  rw [List.append_cons front] at orderly meets ⊢
                  rw [List.append_cons front'] at orderly' meets ⊢
                  exact ih _ (by simp only [List.length_cons]; omega) orderly orderly' meets forward
                    left rfl

/-- In two orderly runs with the same requests of the party, its requests are answered alike. -/
theorem answers_agree (service : Service discipline handler serves) (inv : discipline.Inv state)
    (orderly : tandem.Orderly mine state one) (orderly' : tandem.Orderly mine state other)
    (meets : perspective.Meets (tandem.after state one).state (tandem.after state other).state)
    (same : arrivals mine one = arrivals mine other) {pid : Nat} {request : Req}
    {answer answer' : A} (own : mine pid = true) (started : served one pid = some request)
    (answered : ((tandem.after state one).procs pid).bind Process.answer = some answer)
    (answered' : ((tandem.after state other).procs pid).bind Process.answer = some answer') :
    post request answer answer' := by
  have start : tandem.Abreast mine state [] [] none :=
    ⟨fun _ _ => .absent rfl rfl, fun _ now => absurd now (Option.some_ne_none _ ∘ Eq.symm),
      fun _ => rfl⟩
  have whole : tandem.Orderly mine state ([] ++ one) := orderly
  have whole' : tandem.Orderly mine state ([] ++ other) := orderly'
  obtain ⟨stop, rest, stop', rest', last, whole, whole', finished, abreast⟩ :=
    start.run service inv whole whole' meets same
  simp only [List.nil_append] at whole whole'
  subst whole whole'
  obtain ⟨process, found, ended⟩ := Option.bind_eq_some_iff.mp answered
  obtain ⟨process', found', ended'⟩ := Option.bind_eq_some_iff.mp answered'
  have both : ∃ early early', (tandem.after state stop).procs pid = some early ∧
      (tandem.after state stop').procs pid = some early' ∧ early.answer.isSome := by
    rcases finished with rfl | rfl
    · rw [List.append_nil] at found
      have running := abreast.present own
      rw [found] at running
      obtain ⟨early', present'⟩ := Option.isSome_iff_exists.mp running.symm
      exact ⟨process, early', found, present', Option.isSome_of_eq_some ended⟩
    · rw [List.append_nil] at found'
      have running := abreast.present own
      rw [found'] at running
      obtain ⟨early, present⟩ := Option.isSome_iff_exists.mp running
      refine ⟨early, process', present, found', ?_⟩
      rw [abreast.answered own present found', ended']
      rfl
  obtain ⟨early, early', present, present', answers⟩ := both
  have agree := abreast.agree own started present present'
  obtain ⟨_, there, same⟩ := Config.answer_stays present answers rest
  obtain ⟨_, there', same'⟩ :=
    Config.answer_stays present' (abreast.answered own present present' ▸ answers) rest'
  cases found.symm.trans there
  cases found'.symm.trans there'
  rw [← same, ← same', ended, ended'] at agree
  cases agree with
  | some agree => exact agree

end Pools
end Tandem
end MbxCache.Concurrent
