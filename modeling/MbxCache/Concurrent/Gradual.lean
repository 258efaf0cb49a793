import MbxCache.Concurrent.Footprint

/-! Machines whose calls take several steps, and the machines of single steps they implement. -/

namespace MbxCache.Concurrent

variable {I : Interface} {A Req : Type}

structure Caller where
  pid : Nat
  job : Option Nat
  deriving DecidableEq, Repr

/-- What runs programs whose calls take several steps: `goes` is a step after which a call is
still under way, and `exec` its last one. Other things happen aside. -/
structure Gradual (I : Interface) where
  State : Type
  Choice : Type
  Aside : Type
  goes : Caller → Choice → I.Op → State → Option State
  exec : Caller → Choice → (op : I.Op) → State → State × I.Val op
  aside : Aside → State → State
  pick : Choice → Nat
  body : I.Job → Program I I.Out
  detached : I.Job → Bool

inductive Happening (Req Choice Aside : Type)
  | action (action : Action Req Choice)
  | aside (aside : Aside)

def Move.by {Choice : Type} (pid : Nat) : Move Choice → Move (Caller × Choice)
  | .main choice => .main (⟨pid, none⟩, choice)
  | .task id choice => .task id (⟨pid, some id⟩, choice)
  | .abort id => .abort id
  | .drop => .drop

namespace Gradual

variable (G : Gradual I)

def machine : Machine I where
  State := G.State
  Choice := Caller × G.Choice
  exec choice := G.exec choice.1 choice.2
  pick choice := G.pick choice.2
  body := G.body
  detached := G.detached

def going (state : G.State) (process : Process I A) (pid : Nat) (move : Move G.Choice) :
    Option G.State :=
  (G.machine.carries process (move.by pid)).bind fun call =>
    G.goes call.1.1 call.1.2 call.2 state

def step (handler : Req → Program I A) (config : Config G.machine A) :
    Happening Req G.Choice G.Aside → Config G.machine A
  | .action (.start pid request) => config.step handler (.start pid request)
  | .action (.move pid move) =>
      match (config.procs pid).bind fun process => G.going config.state process pid move with
      | some state => { config with state }
      | none => config.step handler (.move pid (move.by pid))
  | .aside aside => { config with state := G.aside aside config.state }

def run (handler : Req → Program I A) (config : Config G.machine A)
    (events : List (Happening Req G.Choice G.Aside)) : Config G.machine A :=
  events.foldl (G.step handler) config

theorem run_append (handler : Req → Program I A) (config : Config G.machine A)
    (front back : List (Happening Req G.Choice G.Aside)) :
    G.run handler config (front ++ back) = G.run handler (G.run handler config front) back :=
  List.foldl_append

end Gradual

def started {Choice : Type} (actions : List (Action Req Choice)) : List (Nat × Req) :=
  actions.filterMap fun action =>
    match action with
    | .start pid request => some (pid, request)
    | .move _ _ => none

def Happening.action? {Choice Aside : Type} :
    Happening Req Choice Aside → Option (Action Req Choice)
  | .action step => some step
  | .aside _ => none

/-- The last step of a call is a call, all steps before it and what happens aside show nothing. -/
structure Implements (G : Gradual I) (M : Machine I) (Shows : G.State → M.State → Prop) :
    Prop where
  goes : ∀ {state after : G.State} {seen : M.State} {caller : Caller} {choice : G.Choice}
    {op : I.Op}, Shows state seen → G.goes caller choice op state = some after → Shows after seen
  exec : ∀ {state : G.State} {seen : M.State} {caller : Caller} {choice : G.Choice} {op : I.Op},
    Shows state seen → G.goes caller choice op state = none →
      ∃ other, (M.exec other op seen).2 = (G.exec caller choice op state).2 ∧
        Shows (G.exec caller choice op state).1 (M.exec other op seen).1
  aside : ∀ {state : G.State} {seen : M.State} (aside : G.Aside), Shows state seen →
    Shows (G.aside aside state) seen
  pick : ∀ index, ∃ choice, M.pick choice = index
  body : M.body = G.body
  detached : M.detached = G.detached

structure Matches {G : Gradual I} {M : Machine I} (Shows : G.State → M.State → Prop)
    (config : Config G.machine A) (seen : Config M A) : Prop where
  state : Shows config.state seen.state
  procs : seen.procs = config.procs

theorem Matches.setProc {G : Gradual I} {M : Machine I} {Shows : G.State → M.State → Prop}
    {config : Config G.machine A} {seen : Config M A} (same : Matches Shows config seen) (pid : Nat)
    (process : Process I A) : seen.setProc pid process = config.setProc pid process := by
  funext other
  simp only [Config.setProc, same.procs]

namespace Implements

variable {G : Gradual I} {M : Machine I} {Shows : G.State → M.State → Prop}
  (implements : Implements G M Shows) {state : G.State} {seen : M.State}
include implements

theorem stepMain (shown : Shows state seen) (process : Process I A) (caller : Caller)
    (choice : G.Choice) (last : ∀ op next, process.main = .call op next →
      G.goes caller choice op state = none) :
    ∃ other, (M.stepMain other seen process).2 =
        (G.machine.stepMain (caller, choice) state process).2 ∧
      Shows (G.machine.stepMain (caller, choice) state process).1
        (M.stepMain other seen process).1 := by
  obtain ⟨other, same⟩ := implements.pick (G.pick choice)
  have picked : G.machine.pick (caller, choice) = M.pick other := same.symm
  cases head : process.main with
  | done result =>
      refine ⟨other, ?_⟩
      simp only [Machine.stepMain, head]
      exact ⟨trivial, shown⟩
  | call op next =>
      obtain ⟨other, value, after⟩ := implements.exec shown (last op next head)
      refine ⟨other, ?_⟩
      simp only [Machine.stepMain, head, Gradual.machine, value]
      exact ⟨trivial, after⟩
  | spawn job next =>
      refine ⟨other, ?_⟩
      simp only [Machine.stepMain, head, Gradual.machine, implements.body]
      exact ⟨trivial, shown⟩
  | join ids next =>
      refine ⟨other, ?_⟩
      cases taken : process.tasks[M.pick other]?.bind Task.outcome with
      | none =>
          simp only [Machine.stepMain, head, picked, taken]
          exact ⟨trivial, shown⟩
      | some out =>
          simp only [Machine.stepMain, head, picked, taken]
          split <;> exact ⟨rfl, shown⟩

theorem stepTask (shown : Shows state seen) (task : Task I) (caller : Caller) (choice : G.Choice)
    (last : ∀ op next, task.aborted = false → task.rest = .call op next →
      G.goes caller choice op state = none) :
    ∃ other, (M.stepTask other seen task).2 =
        (G.machine.stepTask (caller, choice) state task).2 ∧
      Shows (G.machine.stepTask (caller, choice) state task).1 (M.stepTask other seen task).1 := by
  obtain ⟨other, -⟩ := implements.pick 0
  cases aborted : task.aborted with
  | true =>
      refine ⟨other, ?_⟩
      simp only [Machine.stepTask, aborted, if_true]
      exact ⟨trivial, shown⟩
  | false =>
      cases head : task.rest with
      | call op next =>
          obtain ⟨other, value, after⟩ := implements.exec shown (last op next aborted head)
          refine ⟨other, ?_⟩
          simp only [Machine.stepTask, aborted, head, Gradual.machine, value]
          exact ⟨rfl, after⟩
      | _ =>
          refine ⟨other, ?_⟩
          simp only [Machine.stepTask, aborted, head]
          exact ⟨rfl, shown⟩

theorem move (shown : Shows state seen) (process : Process I A) (pid : Nat) (move : Move G.Choice)
    (last : G.going state process pid move = none) :
    ∃ other, (M.step seen process other).2 = (G.machine.step state process (move.by pid)).2 ∧
      Shows (G.machine.step state process (move.by pid)).1 (M.step seen process other).1 := by
  cases move with
  | main choice =>
      cases dropped : process.dropped with
      | true =>
          obtain ⟨other, -⟩ := implements.pick 0
          refine ⟨.main other, ?_⟩
          simp only [Machine.step, Move.by, dropped, if_true]
          exact ⟨trivial, shown⟩
      | false =>
          have ends (op : I.Op) (next : I.Val op → Program I A)
              (head : process.main = .call op next) :
              G.goes ⟨pid, none⟩ choice op state = none := by
            simpa [Gradual.going, Move.by, Machine.carries, dropped, head] using last
          obtain ⟨other, same⟩ := implements.stepMain shown process ⟨pid, none⟩ choice ends
          refine ⟨.main other, ?_⟩
          simp only [Machine.step, Move.by, dropped]
          exact same
  | task id choice =>
      cases found : process.tasks[id]? with
      | none =>
          obtain ⟨other, -⟩ := implements.pick 0
          refine ⟨.task id other, ?_⟩
          simp only [Machine.step, Move.by, found]
          exact ⟨trivial, shown⟩
      | some task =>
          cases halted : process.halted && !M.detached task.job with
          | true =>
              obtain ⟨other, -⟩ := implements.pick 0
              refine ⟨.task id other, ?_⟩
              rw [implements.detached] at halted
              simp only [Machine.step, Move.by, found, Gradual.machine, implements.detached, halted,
                if_true]
              exact ⟨trivial, shown⟩
          | false =>
              rw [implements.detached] at halted
              have ends (op : I.Op) (next : I.Val op → Program I I.Out)
                  (going : task.aborted = false) (head : task.rest = .call op next) :
                  G.goes ⟨pid, some id⟩ choice op state = none := by
                simpa [Gradual.going, Move.by, Machine.carries, found, Gradual.machine, halted,
                  going, head] using last
              obtain ⟨other, same, after⟩ :=
                implements.stepTask shown task ⟨pid, some id⟩ choice ends
              refine ⟨.task id other, ?_⟩
              have halted' : (process.halted && !G.machine.detached task.job) = false := halted
              simp only [Machine.step, Move.by, found, implements.detached, halted, halted',
                Bool.false_eq_true, if_false, same]
              exact ⟨trivial, after⟩
  | abort id =>
      refine ⟨.abort id, ?_⟩
      cases found : process.tasks[id]? with
      | none =>
          simp only [Machine.step, Move.by, found]
          exact ⟨trivial, shown⟩
      | some task =>
          have detached : M.detached = G.machine.detached := implements.detached
          simp only [Machine.step, Move.by, found, detached]
          cases task.running && G.machine.detached task.job <;> exact ⟨rfl, shown⟩
  | drop => exact ⟨.drop, rfl, shown⟩

omit implements in
theorem start (handler : Req → Program I A) {config : Config G.machine A} {shown : Config M A}
    (same : Matches Shows config shown) (pid : Nat) (request : Req) :
    Matches Shows (config.step handler (.start pid request))
      (shown.step handler (.start pid request)) := by
  simp only [Config.step, same.procs]
  split
  · exact same
  · exact ⟨same.state, same.setProc pid _⟩

omit implements in
theorem started_append {Choice : Type} (front back : List (Action Req Choice)) :
    started (front ++ back) = started front ++ started back := List.filterMap_append

theorem step (handler : Req → Program I A) {config : Config G.machine A} {shown : Config M A}
    (same : Matches Shows config shown) (event : Happening Req G.Choice G.Aside) :
    ∃ actions : List (Action Req M.Choice),
      started actions = started ([event].filterMap Happening.action?) ∧
        Matches Shows (G.step handler config event) (shown.run handler actions) := by
  cases event with
  | aside aside => exact ⟨[], rfl, implements.aside aside same.state, same.procs⟩
  | action action =>
      cases action with
      | start pid request => exact ⟨[.start pid request], rfl, start handler same pid request⟩
      | move pid move =>
          cases found : config.procs pid with
          | none =>
              refine ⟨[], rfl, ?_⟩
              simp only [Gradual.step, found, Option.bind_none, Config.step]
              exact same
          | some process =>
              cases going : G.going config.state process pid move with
              | some after =>
                  refine ⟨[], rfl, ?_⟩
                  obtain ⟨call, -, goes⟩ := Option.bind_eq_some_iff.mp going
                  simp only [Gradual.step, found, Option.bind_some, going]
                  exact ⟨implements.goes same.state goes, same.procs⟩
              | none =>
                  obtain ⟨other, process', after⟩ :=
                    implements.move same.state process pid move going
                  refine ⟨[.move pid other], rfl, ?_⟩
                  have present : shown.procs pid = some process := by rw [same.procs, found]
                  simp only [Gradual.step, found, Option.bind_some, going, Config.run,
                    List.foldl_cons, List.foldl_nil, Config.step, present]
                  exact ⟨after, process' ▸ same.setProc pid _⟩

/-- Every run is a run over what is shown, with the same processes and the same arrivals. -/
theorem run (handler : Req → Program I A) {config : Config G.machine A} {shown : Config M A}
    (same : Matches Shows config shown) (events : List (Happening Req G.Choice G.Aside)) :
    ∃ actions : List (Action Req M.Choice),
      started actions = started (events.filterMap Happening.action?) ∧
        Matches Shows (G.run handler config events) (shown.run handler actions) := by
  induction events generalizing config shown with
  | nil => exact ⟨[], rfl, same⟩
  | cons event rest ih =>
      obtain ⟨front, first, next⟩ := implements.step handler same event
      obtain ⟨back, others, last⟩ := ih next
      refine ⟨front ++ back, ?_, ?_⟩
      · rw [started_append, first, others, ← started_append, ← List.filterMap_append]
        rfl
      · rw [Config.run_append]
        exact last

end Implements
end MbxCache.Concurrent
