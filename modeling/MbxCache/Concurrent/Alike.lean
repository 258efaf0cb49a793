import Mathlib.Data.List.Forall2
import Mathlib.Data.Option.Basic
import MbxCache.Concurrent.Footprint

namespace MbxCache.Concurrent

variable {I : Interface} {A B C D Req : Type}

/-- When two programs do alike: which of their calls and jobs correspond, what those come to,
and which ended jobs they take when both wait. -/
structure Likeness (I : Interface) where
  Ops : I.Op → I.Op → Prop
  Answers : (one other : I.Op) → I.Val one → I.Val other → Prop
  Jobs : I.Job → I.Job → Prop
  Outs : I.Out → I.Out → Prop
  Waits : List Nat → List Nat → Prop
  Takes : List Nat → List Nat → Nat → Nat → Prop

/-- Two programs that do alike as long as they are answered alike. -/
def Program.Alike (L : Likeness I) (post : A → B → Prop) : Program I A → Program I B → Prop
  | .done result, .done other => post result other
  | .call op next, .call op' next' => L.Ops op op' ∧
      ∀ value value', L.Answers op op' value value' → (next value).Alike L post (next' value')
  | .spawn job next, .spawn job' next' => L.Jobs job job' ∧
      ∀ id, (next id).Alike L post (next' id)
  | .join ids next, .join ids' next' => L.Waits ids ids' ∧
      ∀ id id' out out', L.Takes ids ids' id id' → Option.Rel L.Outs out out' →
        (next id out).Alike L post (next' id' out')
  | _, _ => False

namespace Program.Alike

variable {L : Likeness I} {p : Program I A} {q : Program I B} {post weaker : A → B → Prop}

theorem mono (alike : p.Alike L post q) (implied : ∀ one other, post one other → weaker one other) :
    p.Alike L weaker q := by
  induction p generalizing q with
  | done result =>
      cases q with
      | done other => exact implied result other alike
      | _ => exact alike.elim
  | call op next ih =>
      cases q with
      | call op' next' =>
          exact ⟨alike.1, fun value value' told => ih value (alike.2 value value' told)⟩
      | _ => exact alike.elim
  | spawn job next ih =>
      cases q with
      | spawn job' next' => exact ⟨alike.1, fun id => ih id (alike.2 id)⟩
      | _ => exact alike.elim
  | join ids next ih =>
      cases q with
      | join ids' next' =>
          exact ⟨alike.1, fun id id' out out' taken ended =>
            ih id out (alike.2 id id' out out' taken ended)⟩
      | _ => exact alike.elim

theorem bind {next : A → Program I C} {next' : B → Program I D} {final : C → D → Prop}
    (first : p.Alike L post q)
    (rest : ∀ one other, post one other → (next one).Alike L final (next' other)) :
    (p.bind next).Alike L final (q.bind next') := by
  induction p generalizing q with
  | done result =>
      cases q with
      | done other => exact rest result other first
      | _ => exact first.elim
  | call op more ih =>
      cases q with
      | call op' more' =>
          exact ⟨first.1, fun value value' told => ih value (first.2 value value' told)⟩
      | _ => exact first.elim
  | spawn job more ih =>
      cases q with
      | spawn job' more' => exact ⟨first.1, fun id => ih id (first.2 id)⟩
      | _ => exact first.elim
  | join ids more ih =>
      cases q with
      | join ids' more' =>
          exact ⟨first.1, fun id id' out out' taken ended =>
            ih id out (first.2 id id' out out' taken ended)⟩
      | _ => exact first.elim

theorem result (alike : p.Alike L post q) : Option.Rel post p.result? q.result? := by
  cases p <;> cases q <;> first | exact alike.elim | exact .none | exact .some alike

end Program.Alike

structure Task.Alike (L : Likeness I) (one other : Task I) : Prop where
  job : L.Jobs one.job other.job
  rest : one.rest.Alike L L.Outs other.rest
  aborted : one.aborted = other.aborted

theorem Task.Alike.outcome {L : Likeness I} {one other : Task I} (alike : Task.Alike L one other) :
    Option.Rel (Option.Rel L.Outs) one.outcome other.outcome := by
  unfold Task.outcome
  rw [alike.aborted]
  split
  · exact .some .none
  · have ended := alike.rest.result
    generalize one.rest.result? = out, other.rest.result? = out' at ended
    cases ended with
    | some ended => exact .some (.some ended)
    | none => exact .none

theorem Task.Alike.running {L : Likeness I} {one other : Task I} (alike : Task.Alike L one other) :
    one.running = other.running := by
  have ended := alike.outcome
  unfold Task.running
  generalize one.outcome = out, other.outcome = out' at ended
  cases ended <;> rfl

structure Process.Alike (L : Likeness I) (post : A → B → Prop) (one : Process I A)
    (other : Process I B) : Prop where
  main : one.main.Alike L post other.main
  tasks : List.Forall₂ (Task.Alike L) one.tasks other.tasks
  dropped : one.dropped = other.dropped

namespace Process.Alike

variable {L : Likeness I} {post : A → B → Prop} {one : Process I A} {other : Process I B}

theorem found (alike : one.Alike L post other) (id : Nat) :
    (one.tasks[id]? = none ∧ other.tasks[id]? = none) ∨ ∃ task task',
      one.tasks[id]? = some task ∧ other.tasks[id]? = some task' ∧ Task.Alike L task task' := by
  have tasks := alike.tasks
  generalize one.tasks = list, other.tasks = list' at tasks
  induction tasks generalizing id with
  | nil => exact .inl ⟨rfl, rfl⟩
  | cons first _ ih =>
      cases id with
      | zero => exact .inr ⟨_, _, rfl, rfl, first⟩
      | succ id => exact ih id

theorem halted (alike : one.Alike L post other) : one.halted = other.halted := by
  have ended := alike.main.result
  unfold Process.halted
  rw [alike.dropped]
  generalize one.main.result? = result, other.main.result? = result' at ended
  cases ended <;> rfl

theorem setTask (alike : one.Alike L post other) (id : Nat) {task task' : Task I}
    (like : Task.Alike L task task') :
    Process.Alike L post { one with tasks := one.tasks.set id task }
      { other with tasks := other.tasks.set id task' } where
  main := alike.main
  tasks := by
    have tasks := alike.tasks
    generalize one.tasks = list, other.tasks = list' at tasks
    induction tasks generalizing id with
    | nil => exact .nil
    | cons first rest ih =>
        cases id with
        | zero => exact .cons like rest
        | succ id => exact .cons first (ih id)
  dropped := alike.dropped

end Process.Alike

inductive Move.Alike {Choice : Type} (choices : Choice → Choice → Prop) :
    Move Choice → Move Choice → Prop
  | main {choice choice' : Choice} (alike : choices choice choice') :
      Alike choices (.main choice) (.main choice')
  | task (id : Nat) {choice choice' : Choice} (alike : choices choice choice') :
      Alike choices (.task id choice) (.task id choice')
  | abort (id : Nat) : Alike choices (.abort id) (.abort id)
  | drop : Alike choices .drop .drop

inductive Action.Alike {Choice : Type} (choices : Choice → Choice → Prop) :
    Action Req Choice → Action Req Choice → Prop
  | start (pid : Nat) (request : Req) : Alike choices (.start pid request) (.start pid request)
  | move (pid : Nat) {move move' : Move Choice} (alike : Move.Alike choices move move') :
      Alike choices (.move pid move) (.move pid move')

def Action.pid {Choice : Type} : Action Req Choice → Nat
  | .start pid _ => pid
  | .move pid _ => pid

/-- What one party sees of the shared state, which the others leave alone. Two pools may be
required to meet, which they do as soon as they do later. -/
structure Perspective {M : Machine I} {Who : Type} (discipline : Discipline M Who) (who : Who) where
  Sight : Type
  sight : M.State → Sight
  Meets : M.State → M.State → Prop
  sooner : ∀ {s s' t t'}, discipline.Rely s t → discipline.Rely s' t' → Meets t t' → Meets s s'
  outside : ∀ {other op s} choice, discipline.Inv s → discipline.Allowed other op s →
    other ≠ who → sight (M.exec choice op s).1 = sight s

/-- What the party itself does to what it sees, and is told of it, depends on nothing else. -/
structure Coupling {M : Machine I} {Who : Type} (discipline : Discipline M Who) (L : Likeness I)
    (who : Who) extends Perspective discipline who where
  Choices : M.Choice → M.Choice → Prop
  picks : ∀ {choice choice'}, Choices choice choice' → M.pick choice = M.pick choice'
  waits : ∀ {ids ids'}, L.Waits ids ids' → ids = ids'
  takes : ∀ {ids id}, id ∈ ids → L.Takes ids ids id id
  detached : ∀ {job job'}, L.Jobs job job' → M.detached job = M.detached job'
  bodies : ∀ {job job'}, L.Jobs job job' → (M.body job).Alike L L.Outs (M.body job')
  inside : ∀ {op op' s s' choice choice'}, discipline.Inv s → discipline.Inv s' → Meets s s' →
    discipline.Allowed who op s → discipline.Allowed who op' s' → sight s = sight s' →
    L.Ops op op' → Choices choice choice' →
    sight (M.exec choice op s).1 = sight (M.exec choice' op' s').1 ∧
      L.Answers op op' (M.exec choice op s).2 (M.exec choice' op' s').2

namespace Coupling

variable {M : Machine I} {Who : Type} {discipline : Discipline M Who} {L : Likeness I} {who : Who}
  (coupling : Coupling discipline L who) {post : A → A → Prop}

def Keeps (post : A → A → Prop) (one other : M.State × Process I A) : Prop :=
  coupling.sight one.1 = coupling.sight other.1 ∧ one.2.Alike L post other.2

structure Level (s s' : {s : M.State // discipline.Inv s}) : Prop where
  same : coupling.sight s.1 = coupling.sight s'.1
  meets : coupling.Meets s.1 s'.1

variable {coupling} {s s' : {s : M.State // discipline.Inv s}}

theorem Level.call (level : coupling.Level s s') {op op' : I.Op} {next : I.Val op → Program I A}
    {next' : I.Val op' → Program I B} {result : A → B → Prop}
    (alike : (Program.call op next).Alike L result (.call op' next'))
    (allowed : discipline.Allowed who op s.1) (allowed' : discipline.Allowed who op' s'.1)
    {choice choice' : M.Choice} (choices : coupling.Choices choice choice') :
    coupling.sight (M.exec choice op s.1).1 = coupling.sight (M.exec choice' op' s'.1).1 ∧
      (next (M.exec choice op s.1).2).Alike L result (next' (M.exec choice' op' s'.1).2) := by
  obtain ⟨same, told⟩ := coupling.inside s.2 s'.2 level.meets allowed allowed' level.same alike.1
    choices
  exact ⟨same, alike.2 _ _ told⟩

variable {process process' : Process I A}
  {promise : A → {s : M.State // discipline.Inv s} → Prop}

theorem Level.stepMain (level : coupling.Level s s') (alike : process.Alike L post process')
    (follows : discipline.Follows who process promise s)
    (follows' : discipline.Follows who process' promise s')
    (live : process.dropped = false) {choice choice' : M.Choice}
    (choices : coupling.Choices choice choice') :
    coupling.Keeps post (M.stepMain choice s.1 process) (M.stepMain choice' s'.1 process') := by
  have main := alike.main
  unfold Machine.stepMain
  cases head : process.main with
  | done result =>
      cases head' : process'.main with
      | done other => exact ⟨level.same, alike⟩
      | _ =>
          rw [head, head'] at main
          exact main.elim
  | call op next =>
      cases head' : process'.main with
      | call op' next' =>
          rw [head, head'] at main
          obtain ⟨same, more⟩ := level.call main (follows.about (.main next live head))
            (follows'.about (.main next' (alike.dropped.symm.trans live) head')) choices
          exact ⟨same, more, alike.tasks, alike.dropped⟩
      | _ =>
          rw [head, head'] at main
          exact main.elim
  | spawn job next =>
      cases head' : process'.main with
      | spawn job' next' =>
          rw [head, head'] at main
          refine ⟨level.same, ?_, ?_, alike.dropped⟩
          · rw [← alike.tasks.length_eq]
            exact main.2 _
          · exact List.rel_append alike.tasks
              (.cons ⟨main.1, coupling.bodies main.1, rfl⟩ .nil)
      | _ =>
          rw [head, head'] at main
          exact main.elim
  | join ids next =>
      cases head' : process'.main with
      | join ids' next' =>
          rw [head, head'] at main
          obtain rfl := coupling.waits main.1
          rw [← coupling.picks choices]
          simp only
          rcases alike.found (M.pick choice) with
            ⟨none, none'⟩ | ⟨task, task', found, found', like⟩
          · rw [none, none']
            exact ⟨level.same, alike⟩
          · rw [found, found', Option.bind_some, Option.bind_some]
            have ended := like.outcome
            generalize task.outcome = out, task'.outcome = out' at ended
            cases ended with
            | none => exact ⟨level.same, alike⟩
            | some ended =>
                simp only
                split
                · rename_i member
                  exact ⟨level.same, main.2 _ _ _ _ (coupling.takes member) ended, alike.tasks,
                    alike.dropped⟩
                · exact ⟨level.same, alike⟩
      | _ =>
          rw [head, head'] at main
          exact main.elim

theorem Level.stepTask (level : coupling.Level s s') {task task' : Task I}
    (like : Task.Alike L task task')
    (about : ∀ op next, task.aborted = false → task.rest = .call op next →
      discipline.Allowed who op s.1)
    (about' : ∀ op next, task'.aborted = false → task'.rest = .call op next →
      discipline.Allowed who op s'.1)
    {choice choice' : M.Choice} (choices : coupling.Choices choice choice') :
    coupling.sight (M.stepTask choice s.1 task).1 =
        coupling.sight (M.stepTask choice' s'.1 task').1 ∧
      Task.Alike L (M.stepTask choice s.1 task).2 (M.stepTask choice' s'.1 task').2 := by
  obtain ⟨job, rest, aborted⟩ := task
  obtain ⟨job', rest', aborted'⟩ := task'
  obtain rfl : aborted = aborted' := like.aborted
  cases aborted with
  | true => exact ⟨level.same, like⟩
  | false =>
      have same := like.rest
      cases rest <;> cases rest' <;>
        first
        | exact same.elim
        | exact ⟨level.same, like⟩
        | skip
      obtain ⟨seen, more⟩ := level.call same (about _ _ rfl rfl) (about' _ _ rfl rfl) choices
      exact ⟨seen, like.job, more, rfl⟩

/-- One move of each of two processes that do alike. -/
theorem Level.step (level : coupling.Level s s') (alike : process.Alike L post process')
    (follows : discipline.Follows who process promise s)
    (follows' : discipline.Follows who process' promise s')
    {move move' : Move M.Choice} (moves : Move.Alike coupling.Choices move move') :
    coupling.Keeps post (M.step s.1 process move) (M.step s'.1 process' move') := by
  cases moves with
  | main choices =>
      simp only [Machine.step]
      rw [← alike.dropped]
      split
      · exact ⟨level.same, alike⟩
      · rename_i live
        exact level.stepMain alike follows follows' (Bool.not_eq_true _ ▸ live) choices
  | task id choices =>
      simp only [Machine.step]
      rw [← alike.halted]
      rcases alike.found id with ⟨none, none'⟩ | ⟨task, task', found, found', like⟩
      · rw [none, none']
        exact ⟨level.same, alike⟩
      · rw [found, found']
        simp only
        rw [← coupling.detached like.job]
        split
        · exact ⟨level.same, alike⟩
        · rename_i kept
          have kept : (process.halted && !M.detached task.job) = false := by simpa using kept
          have kept' : (process'.halted && !M.detached task'.job) = false := by
            rw [← alike.halted, ← coupling.detached like.job]
            exact kept
          obtain ⟨same, more⟩ := level.stepTask like
            (fun op next live head => follows.about
              (.task task next (List.mem_of_getElem? found) live kept head))
            (fun op next live head => follows'.about
              (.task task' next (List.mem_of_getElem? found') live kept' head)) choices
          exact ⟨same, alike.setTask id more⟩
  | abort id =>
      simp only [Machine.step]
      rcases alike.found id with ⟨none, none'⟩ | ⟨task, task', found, found', like⟩
      · rw [none, none']
        exact ⟨level.same, alike⟩
      · rw [found, found']
        simp only
        rw [← coupling.detached like.job, ← like.running]
        split
        · exact ⟨level.same, alike.setTask id ⟨like.job, like.rest, rfl⟩⟩
        · exact ⟨level.same, alike⟩
  | drop => exact ⟨level.same, alike.main, alike.tasks, rfl⟩

end Coupling

section Pools
variable {M : Machine I} {Who : Type} {discipline : Discipline M Who}

theorem Machine.carries_about {process : Process I A} {move : Move M.Choice} {choice : M.Choice}
    {op : I.Op} (carried : M.carries process move = some (choice, op)) :
    Config.About M process op := by
  cases move with
  | main choice =>
      simp only [Machine.carries] at carried
      split at carried
      · cases carried
      · rename_i live
        split at carried
        · rename_i op next head
          cases carried
          exact .main next (by simpa using live) head
        · cases carried
  | task id choice =>
      simp only [Machine.carries] at carried
      split at carried
      · cases carried
      · rename_i task found
        split at carried
        · cases carried
        · rename_i kept
          simp only [Bool.or_eq_true, not_or, Bool.not_eq_true] at kept
          split at carried
          · rename_i op next head
            cases carried
            exact .task task next (List.mem_of_getElem? found) kept.2 kept.1 head
          · cases carried
  | abort id => cases carried
  | drop => cases carried

variable {handler : Req → Program I A} {serves : Req → Who} {state : M.State}
  {actions : List (Action Req M.Choice)} {action : Action Req M.Choice}

theorem served_fresh {pid : Nat}
    (free : ((Config.initial M A state).run handler actions).procs pid = none) (request : Req) :
    served (actions ++ [.start pid request]) pid = some request := by
  have none := Config.run_procs handler state actions pid
  rw [free] at none
  have fresh : served actions pid = Option.none := by simpa using none.symm
  rw [served, List.findSome?_append, ← served, fresh]
  simp [Action.request]

structure Service (discipline : Discipline M Who) (handler : Req → Program I A)
    (serves : Req → Who) : Prop where
  covers : discipline.Covers
  safe : ∀ request s, discipline.Safe (serves request) (handler request) (fun _ _ => True) s

abbrev Service.Keeps (discipline : Discipline M Who) (handler : Req → Program I A)
    (serves : Req → Who) (state : M.State) (actions : List (Action Req M.Choice)) : Prop :=
  Discipline.Disciplined discipline (fun _ _ => True)
    (fun pid party => ∃ request, served actions pid = some request ∧ serves request = party)
    ((Config.initial M A state).run handler actions)

namespace Service

theorem step (service : Service discipline handler serves)
    (keeps : Service.Keeps discipline handler serves state actions)
    (action : Action Req M.Choice) :
    Service.Keeps discipline handler serves state (actions ++ [action]) ∧
      discipline.Rely ((Config.initial M A state).run handler actions).state
        ((Config.initial M A state).run handler (actions ++ [action])).state := by
  have later : Discipline.Disciplined discipline (fun _ _ => True)
      (fun pid party => ∃ request, served (actions ++ [action]) pid = some request ∧
        serves request = party) ((Config.initial M A state).run handler actions) := by
    refine ⟨keeps.inv, fun pid process found => ?_⟩
    obtain ⟨party, ⟨request, started, same⟩, follows⟩ := keeps.follows pid process found
    exact ⟨party, ⟨request, served_append started _, same⟩, follows⟩
  rw [Service.Keeps, Config.run_snoc]
  cases action with
  | start pid request =>
      cases taken : ((Config.initial M A state).run handler actions).procs pid with
      | some process =>
          simp only [Config.step, taken]
          exact ⟨later, discipline.refl _⟩
      | none =>
          apply later.step service.covers
          intro pid' request' same
          cases same
          exact ⟨serves request, ⟨request, served_fresh taken request, rfl⟩, service.safe request⟩
  | move pid move =>
      apply later.step service.covers
      intro pid' request' same
      cases same

theorem run (service : Service discipline handler serves) (inv : discipline.Inv state)
    (actions : List (Action Req M.Choice)) :
    Service.Keeps discipline handler serves state actions := by
  induction actions using List.reverseRecOn with
  | nil => exact .initial inv
  | append_singleton actions action ih => exact (service.step ih action).1

theorem later (service : Service discipline handler serves) (inv : discipline.Inv state)
    (front back : List (Action Req M.Choice)) :
    discipline.Rely ((Config.initial M A state).run handler front).state
      ((Config.initial M A state).run handler (front ++ back)).state := by
  induction back using List.reverseRecOn with
  | nil =>
      rw [List.append_nil]
      exact discipline.refl _
  | append_singleton back action ih =>
      rw [← List.append_assoc]
      exact discipline.trans ih (service.step (service.run inv (front ++ back)) action).2

end Service

/-- Two runs in which the processes marked make the same moves in the same order, with anything
else between them. -/
inductive Interleaved {Choice : Type} (mine : Nat → Bool) (choices : Choice → Choice → Prop) :
    List (Action Req Choice) → List (Action Req Choice) → Prop
  | nil : Interleaved mine choices [] []
  | left {one other : List (Action Req Choice)} {action : Action Req Choice}
      (runs : Interleaved mine choices one other) (outside : mine action.pid = false) :
      Interleaved mine choices (one ++ [action]) other
  | right {one other : List (Action Req Choice)} {action : Action Req Choice}
      (runs : Interleaved mine choices one other) (outside : mine action.pid = false) :
      Interleaved mine choices one (other ++ [action])
  | both {one other : List (Action Req Choice)} {action action' : Action Req Choice}
      (runs : Interleaved mine choices one other) (inside : mine action.pid = true)
      (alike : Action.Alike choices action action') :
      Interleaved mine choices (one ++ [action]) (other ++ [action'])

theorem forall₂_last {R : A → B → Prop} {one : List A} {other : List B} {a : A} {b : B}
    (related : List.Forall₂ R (one ++ [a]) (other ++ [b])) :
    List.Forall₂ R one other ∧ R a b := by
  have reversed := List.rel_reverse related
  simp only [List.reverse_append, List.reverse_singleton, List.singleton_append,
    List.forall₂_cons] at reversed
  refine ⟨?_, reversed.1⟩
  simpa using List.rel_reverse reversed.2

theorem Interleaved.of_filter {Choice : Type} {mine : Nat → Bool}
    {choices : Choice → Choice → Prop} {one other : List (Action Req Choice)}
    (same : List.Forall₂ (Action.Alike choices) (one.filter (mine ·.pid))
      (other.filter (mine ·.pid))) : Interleaved mine choices one other := by
  induction one using List.reverseRecOn generalizing other with
  | nil =>
      induction other using List.reverseRecOn with
      | nil => exact .nil
      | append_singleton other action ih =>
          have none := List.forall₂_nil_left_iff.mp same
          rw [List.filter_append, List.append_eq_nil_iff] at none
          refine .right (ih ?_) ?_
          · rw [none.1]
            exact .nil
          · simpa using none.2
  | append_singleton one action ih =>
      cases own : mine action.pid with
      | false =>
          refine .left (ih ?_) own
          simpa [List.filter_append, own] using same
      | true =>
          rw [List.filter_append, List.filter_cons_of_pos (by exact own), List.filter_nil] at same
          induction other using List.reverseRecOn with
          | nil =>
              have length := same.length_eq
              simp at length
          | append_singleton other action' ih' =>
              cases own' : mine action'.pid with
              | false =>
                  refine .right (ih' ?_) own'
                  simpa [List.filter_append, own'] using same
              | true =>
                  rw [List.filter_append, List.filter_cons_of_pos (by exact own'),
                    List.filter_nil] at same
                  obtain ⟨before, alike⟩ := forall₂_last same
                  exact .both (ih before) own alike

def Owns {Choice : Type} (serves : Req → Who) (who : Who) (mine : Nat → Bool)
    (actions : List (Action Req Choice)) : Prop :=
  ∀ pid request, served actions pid = some request → (mine pid = true ↔ serves request = who)

theorem Owns.front {Choice : Type} {who : Who} {mine : Nat → Bool}
    {actions back : List (Action Req Choice)} (owns : Owns serves who mine (actions ++ back)) :
    Owns serves who mine actions :=
  fun pid request started => owns pid request (served_append started back)

theorem Config.step_other (handler : Req → Program I A) (config : Config M A)
    (action : Action Req M.Choice) {pid : Nat} (other : pid ≠ action.pid) :
    (config.step handler action).procs pid = config.procs pid := by
  cases action with
  | start started request =>
      simp only [step]
      split
      · rfl
      · exact if_neg other
  | move moved move =>
      simp only [step]
      split
      · rfl
      · exact if_neg other

theorem served_other {Choice : Type} (actions : List (Action Req Choice))
    (action : Action Req Choice) {pid : Nat} (other : pid ≠ action.pid) :
    served (actions ++ [action]) pid = served actions pid := by
  rw [served, List.findSome?_append, ← served]
  cases action with
  | start started request =>
      have different : started ≠ pid := Ne.symm other
      simp [Action.request, different]
  | move moved move => simp [Action.request]

theorem Perspective.outside_step {who : Who} {mine : Nat → Bool}
    (perspective : Perspective discipline who)
    (keeps : Service.Keeps discipline handler serves state actions)
    (owns : Owns serves who mine (actions ++ [action])) (outside : mine action.pid = false) :
    perspective.sight ((Config.initial M A state).run handler (actions ++ [action])).state =
      perspective.sight ((Config.initial M A state).run handler actions).state := by
  rw [Config.run_snoc, Config.step_state]
  cases action with
  | start pid request => rfl
  | move pid move =>
      cases carried : ((Config.initial M A state).run handler actions).carries
          (.move pid move) with
      | none => rfl
      | some call =>
          obtain ⟨process, found, inner⟩ := Option.bind_eq_some_iff.mp carried
          obtain ⟨⟨choice, op⟩, made, rfl⟩ := Option.map_eq_some_iff.mp inner
          obtain ⟨party, ⟨request, started, rfl⟩, follows⟩ := keeps.follows pid process found
          apply perspective.outside choice keeps.inv (follows.about (Machine.carries_about made))
          intro same
          have own := (owns pid request (served_append started _)).mpr same
          exact Bool.false_ne_true (outside.symm.trans own)

namespace Coupling

variable {L : Likeness I} {who : Who} (coupling : Coupling discipline L who)
  {post : Req → A → A → Prop} {mine : Nat → Bool}

inductive Twin (post : Req → A → A → Prop) (one other : List (Action Req M.Choice))
    (pool pool' : Config M A) (pid : Nat) : Prop
  | absent (free : pool.procs pid = none) (free' : pool'.procs pid = none)
  | present (request : Req) (process process' : Process I A)
      (started : served one pid = some request) (started' : served other pid = some request)
      (found : pool.procs pid = some process) (found' : pool'.procs pid = some process')
      (alike : process.Alike L (post request) process')

structure Twins (post : Req → A → A → Prop) (mine : Nat → Bool)
    (one other : List (Action Req M.Choice)) (pool pool' : Config M A) : Prop where
  same : coupling.sight pool.state = coupling.sight pool'.state
  procs : ∀ pid, mine pid = true → Twin (L := L) post one other pool pool' pid

variable {coupling}

theorem Twin.keep {one other one' other' : List (Action Req M.Choice)}
    {pool pool' next next' : Config M A} {pid : Nat}
    (twin : Twin (L := L) post one other pool pool' pid)
    (procs : next.procs pid = pool.procs pid) (procs' : next'.procs pid = pool'.procs pid)
    (served : served one' pid = served one pid)
    (served' : Concurrent.served other' pid = Concurrent.served other pid) :
    Twin (L := L) post one' other' next next' pid := by
  cases twin with
  | absent free free' => exact .absent (procs.trans free) (procs'.trans free')
  | present request process process' started started' found found' alike =>
      exact .present request process process' (served.trans started) (served'.trans started')
        (procs.trans found) (procs'.trans found') alike

theorem Twins.moved {one other : List (Action Req M.Choice)} {action action' : Action Req M.Choice}
    {pool pool' : Config M A} (twins : coupling.Twins post mine one other pool pool')
    (pid : action'.pid = action.pid)
    (same : coupling.sight (pool.step handler action).state =
      coupling.sight (pool'.step handler action').state)
    (twin : Twin (L := L) post (one ++ [action]) (other ++ [action']) (pool.step handler action)
      (pool'.step handler action') action.pid) :
    coupling.Twins post mine (one ++ [action]) (other ++ [action']) (pool.step handler action)
      (pool'.step handler action') where
  same := same
  procs other own := by
    by_cases about : other = action.pid
    · exact about ▸ twin
    · have about' : other ≠ action'.pid := pid.symm ▸ about
      exact (twins.procs other own).keep (pool.step_other handler action about)
        (pool'.step_other handler action' about') (served_other _ action about)
        (served_other _ action' about')

theorem Twins.both {one other : List (Action Req M.Choice)} {action action' : Action Req M.Choice}
    (alike : ∀ request, serves request = who →
      (handler request).Alike L (post request) (handler request))
    (keeps : Service.Keeps discipline handler serves state one)
    (keeps' : Service.Keeps discipline handler serves state other)
    (owns : Owns serves who mine (one ++ [action]))
    (meets : coupling.Meets ((Config.initial M A state).run handler one).state
      ((Config.initial M A state).run handler other).state)
    (twins : coupling.Twins post mine one other ((Config.initial M A state).run handler one)
      ((Config.initial M A state).run handler other))
    (inside : mine action.pid = true) (like : Action.Alike coupling.Choices action action') :
    coupling.Twins post mine (one ++ [action]) (other ++ [action'])
      ((Config.initial M A state).run handler (one ++ [action]))
      ((Config.initial M A state).run handler (other ++ [action'])) := by
  rw [Config.run_snoc, Config.run_snoc]
  have level : coupling.Level ⟨_, keeps.inv⟩ ⟨_, keeps'.inv⟩ := ⟨twins.same, meets⟩
  cases like with
  | start pid request =>
      apply twins.moved rfl
      · simp only [Config.step]
        split <;> split <;> exact twins.same
      cases twins.procs pid inside with
      | absent free free' =>
          have first := served_fresh free request
          have first' := served_fresh free' request
          refine .present request (.start (handler request)) (.start (handler request)) first
            first' ?_ ?_ ⟨alike request ((owns pid request first).mp inside), .nil, rfl⟩
          · simp [Config.step, free, Config.setProc, Action.pid]
          · simp [Config.step, free', Config.setProc, Action.pid]
      | present request process process' started started' found found' like =>
          refine .present request process process' (served_append started _)
            (served_append started' _) ?_ ?_ like
          · simp [Config.step, found, Action.pid]
          · simp [Config.step, found', Action.pid]
  | @move pid move move' moves =>
      cases twins.procs pid inside with
      | absent free free' =>
          refine twins.moved ?_ ?_ (.absent ?_ ?_)
          · rfl
          · simp only [Config.step]
            rw [free, free']
            exact twins.same
          · simp only [Config.step]
            rw [free]
            exact free
          · simp only [Config.step]
            rw [free']
            exact free'
      | present request process process' started started' found found' like =>
          have mine := (owns.front pid request started).mp inside
          obtain ⟨_, ⟨_, known, rfl⟩, follows⟩ := keeps.follows pid process found
          obtain ⟨_, ⟨_, known', rfl⟩, follows'⟩ := keeps'.follows pid process' found'
          cases started.symm.trans known
          cases started'.symm.trans known'
          rw [mine] at follows follows'
          obtain ⟨same, more⟩ := level.step like follows follows' moves
          refine twins.moved ?_ ?_ (.present request _ _ (served_append started _)
            (served_append started' _) ?_ ?_ more)
          · rfl
          · simp only [Config.step]
            rw [found, found']
            exact same
          · simp only [Config.step]
            rw [found]
            exact if_pos rfl
          · simp only [Config.step]
            rw [found']
            exact if_pos rfl

theorem Twins.outside {one other one' other' : List (Action Req M.Choice)}
    {pool pool' next next' : Config M A} (twins : coupling.Twins post mine one other pool pool')
    (same : coupling.sight next.state = coupling.sight pool.state)
    (same' : coupling.sight next'.state = coupling.sight pool'.state)
    (kept : ∀ pid, mine pid = true → next.procs pid = pool.procs pid ∧
      served one' pid = served one pid)
    (kept' : ∀ pid, mine pid = true → next'.procs pid = pool'.procs pid ∧
      served other' pid = served other pid) :
    coupling.Twins post mine one' other' next next' where
  same := same.trans (twins.same.trans same'.symm)
  procs pid own := (twins.procs pid own).keep (kept pid own).1 (kept' pid own).1 (kept pid own).2
    (kept' pid own).2

/-- Two runs that only differ outside the party look the same to it, and its processes do
alike in them. -/
theorem twins_run (service : Service discipline handler serves) (inv : discipline.Inv state)
    (alike : ∀ request, serves request = who →
      (handler request).Alike L (post request) (handler request))
    {one other : List (Action Req M.Choice)} (runs : Interleaved mine coupling.Choices one other)
    (owns : Owns serves who mine one) (owns' : Owns serves who mine other)
    (meets : coupling.Meets ((Config.initial M A state).run handler one).state
      ((Config.initial M A state).run handler other).state) :
    coupling.Twins post mine one other ((Config.initial M A state).run handler one)
      ((Config.initial M A state).run handler other) := by
  induction runs with
  | nil => exact ⟨rfl, fun pid _ => .absent rfl rfl⟩
  | @left one other action runs outside ih =>
      have keeps := service.run inv one
      have met := coupling.sooner (service.step keeps action).2 (discipline.refl _) meets
      apply (ih owns.front owns' met).outside (coupling.outside_step keeps owns outside) rfl
      · intro pid own
        have different : pid ≠ action.pid := fun same => by
          rw [same, outside] at own
          cases own
        rw [Config.run_snoc]
        exact ⟨Config.step_other handler _ action different, served_other one action different⟩
      · exact fun pid own => ⟨rfl, rfl⟩
  | @right one other action runs outside ih =>
      have keeps := service.run inv other
      have met := coupling.sooner (discipline.refl _) (service.step keeps action).2 meets
      apply (ih owns owns'.front met).outside rfl (coupling.outside_step keeps owns' outside)
      · exact fun pid own => ⟨rfl, rfl⟩
      · intro pid own
        have different : pid ≠ action.pid := fun same => by
          rw [same, outside] at own
          cases own
        rw [Config.run_snoc]
        exact ⟨Config.step_other handler _ action different, served_other other action different⟩
  | @both one other action action' runs inside like ih =>
      have keeps := service.run inv one
      have keeps' := service.run inv other
      have met :=
        coupling.sooner (service.step keeps action).2 (service.step keeps' action').2 meets
      exact Twins.both alike keeps keeps' owns met (ih owns.front owns'.front met) inside like

end Coupling
end Pools
end MbxCache.Concurrent
