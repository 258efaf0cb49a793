import MbxCache.Concurrent.Solo

namespace MbxCache.Concurrent

variable {I : Interface} {A B : Type}

def Program.Plain : Program I A → Prop
  | .done _ => True
  | .call _ next => ∀ value, (next value).Plain
  | .spawn _ _ => False
  | .join _ _ => False

/-- Of `count` jobs started so far, a program always waits for some, and for no others. -/
def Program.Waits (post : A → Nat → Prop) : Program I A → Nat → Prop
  | .done result, count => post result count
  | .call _ next, count => ∀ value, (next value).Waits post count
  | .spawn _ next, count => (next count).Waits post (count + 1)
  | .join ids next, count =>
      (∃ id ∈ ids, id < count) ∧ ∀ id ∈ ids, ∀ out, (next id out).Waits post count

namespace Program.Waits

variable {post weaker : A → Nat → Prop} {p : Program I A} {count : Nat}

theorem mono (waits : p.Waits post count)
    (implied : ∀ result later, post result later → weaker result later) :
    p.Waits weaker count := by
  induction p generalizing count with
  | done result => exact implied result count waits
  | call op next ih => exact fun value => ih value (waits value)
  | spawn job next ih => exact ih count waits
  | join ids next ih => exact ⟨waits.1, fun id member out => ih id out (waits.2 id member out)⟩

theorem bind {next : A → Program I B} {final : B → Nat → Prop} (first : p.Waits post count)
    (rest : ∀ result later, post result later → (next result).Waits final later) :
    (p.bind next).Waits final count := by
  induction p generalizing count with
  | done result => exact rest result count first
  | call op more ih => exact fun value => ih value (first value)
  | spawn job more ih => exact ih count first
  | join ids more ih => exact ⟨first.1, fun id member out => ih id out (first.2 id member out)⟩

theorem bindOk {ε : Type} {p : Program I (Except ε A)} {post : Except ε A → Nat → Prop}
    {next : A → Program I (Except ε B)} {count : Nat} (first : p.Waits post count)
    (rest : ∀ value later, post (.ok value) later → (next value).Waits (fun _ _ => True) later) :
    (p.bindOk next).Waits (fun _ _ => True) count := by
  apply bind first
  intro result later holds
  cases result with
  | error error => trivial
  | ok value => exact rest value later holds

end Program.Waits

theorem Program.Plain.waits {p : Program I A} (plain : p.Plain) (count : Nat) :
    p.Waits (fun _ later => later = count) count := by
  induction p with
  | done result => rfl
  | call op next ih => exact fun value => ih value (plain value)
  | spawn job next _ => exact plain.elim
  | join ids next _ => exact plain.elim

theorem Program.Plain.bind {p : Program I A} {next : A → Program I B} (plain : p.Plain)
    (rest : ∀ result, (next result).Plain) : (p.bind next).Plain := by
  induction p with
  | done result => exact rest result
  | call op more ih => exact fun value => ih value (plain value)
  | spawn job more _ => exact plain.elim
  | join ids more _ => exact plain.elim

theorem Program.Plain.bindOk {ε : Type} {p : Program I (Except ε A)}
    {next : A → Program I (Except ε B)} (plain : p.Plain) (rest : ∀ value, (next value).Plain) :
    (p.bindOk next).Plain := by
  apply plain.bind
  intro result
  cases result with
  | error error => trivial
  | ok value => exact rest value

def Program.Only (calls : I.Op → Prop) : Program I A → Prop
  | .done _ => True
  | .call op next => calls op ∧ ∀ value, (next value).Only calls
  | .spawn _ _ => False
  | .join _ _ => False

theorem Program.Only.bind {calls : I.Op → Prop} {p : Program I A} {next : A → Program I B}
    (only : p.Only calls) (rest : ∀ result, (next result).Only calls) :
    (p.bind next).Only calls := by
  induction p with
  | done result => exact rest result
  | call op more ih => exact ⟨only.1, fun value => ih value (only.2 value)⟩
  | spawn job more _ => exact only.elim
  | join ids more _ => exact only.elim

theorem Program.Only.bindOk {ε : Type} {calls : I.Op → Prop} {p : Program I (Except ε A)}
    {next : A → Program I (Except ε B)} (only : p.Only calls)
    (rest : ∀ value, (next value).Only calls) : (p.bindOk next).Only calls := by
  apply only.bind
  intro result
  cases result with
  | error error => trivial
  | ok value => exact rest value

/-- Of `count` jobs started so far, a program has not taken those left yet. It only waits for
such jobs, and makes only some calls and starts only some jobs. -/
def Program.Gathers (calls : I.Op → Prop) (jobs : I.Job → Prop)
    (post : A → List Nat → Nat → Prop) : Program I A → List Nat → Nat → Prop
  | .done result, left, count => post result left count
  | .call op next, left, count =>
      calls op ∧ ∀ value, (next value).Gathers calls jobs post left count
  | .spawn job next, left, count =>
      jobs job ∧ (next count).Gathers calls jobs post (left ++ [count]) (count + 1)
  | .join ids next, left, count =>
      (∃ id, id ∈ ids) ∧ (∀ id ∈ ids, id ∈ left) ∧
        ∀ id ∈ ids, ∀ out, (next id out).Gathers calls jobs post (left.erase id) count

namespace Program.Gathers

variable {calls : I.Op → Prop} {jobs : I.Job → Prop} {post weaker : A → List Nat → Nat → Prop}
  {p : Program I A} {left : List Nat} {count : Nat}

theorem mono (gathers : p.Gathers calls jobs post left count)
    (implied : ∀ result left count, post result left count → weaker result left count) :
    p.Gathers calls jobs weaker left count := by
  induction p generalizing left count with
  | done result => exact implied result left count gathers
  | call op next ih => exact ⟨gathers.1, fun value => ih value (gathers.2 value)⟩
  | spawn job next ih => exact ⟨gathers.1, ih count gathers.2⟩
  | join ids next ih =>
      exact ⟨gathers.1, gathers.2.1, fun id member out => ih id out (gathers.2.2 id member out)⟩

theorem bind {next : A → Program I B} {final : B → List Nat → Nat → Prop}
    (first : p.Gathers calls jobs post left count)
    (rest : ∀ result left count, post result left count →
      (next result).Gathers calls jobs final left count) :
    (p.bind next).Gathers calls jobs final left count := by
  induction p generalizing left count with
  | done result => exact rest result left count first
  | call op more ih => exact ⟨first.1, fun value => ih value (first.2 value)⟩
  | spawn job more ih => exact ⟨first.1, ih count first.2⟩
  | join ids more ih =>
      exact ⟨first.1, first.2.1, fun id member out => ih id out (first.2.2 id member out)⟩

theorem waits (gathers : p.Gathers calls jobs post left count) (started : ∀ id ∈ left, id < count) :
    p.Waits (fun _ _ => True) count := by
  induction p generalizing left count with
  | done result => trivial
  | call op next ih => exact fun value => ih value (gathers.2 value) started
  | spawn job next ih =>
      apply ih count gathers.2
      intro id member
      rcases List.mem_append.mp member with old | new
      · exact Nat.lt_succ_of_lt (started id old)
      · rw [List.mem_singleton.mp new]
        exact Nat.lt_succ_self count
  | join ids next ih =>
      obtain ⟨⟨id, member⟩, within, rest⟩ := gathers
      refine ⟨⟨id, member, started id (within id member)⟩, fun id member out => ?_⟩
      exact ih id out (rest id member out) fun other kept =>
        started other (List.mem_of_mem_erase kept)

end Program.Gathers

theorem Program.Only.gathers {calls : I.Op → Prop} {p : Program I A} (only : p.Only calls)
    (jobs : I.Job → Prop) (left : List Nat) (count : Nat) :
    p.Gathers calls jobs (fun _ left' count' => left' = left ∧ count' = count) left count := by
  induction p with
  | done result => exact ⟨rfl, rfl⟩
  | call op next ih => exact ⟨only.1, fun value => ih value (only.2 value)⟩
  | spawn job next _ => exact only.elim
  | join ids next _ => exact only.elim

structure Process.Going (process : Process I A) : Prop where
  live : process.dropped = false
  main : process.main.Waits (fun _ _ => True) process.tasks.length
  tasks : ∀ task ∈ process.tasks, task.rest.Plain

/-- Jobs that only call, in a regime where there is always some choice and any ended job
may be taken next. -/
structure Regime.Lively {M : Machine I} (R : Regime M) : Prop where
  body : ∀ job, (M.body job).Plain
  main : ∀ id, ∃ choice, R.main choice ∧ M.pick choice = id
  task : ∃ choice, R.task choice

namespace Process.Going

variable {M : Machine I} {process : Process I A} {state : M.State}

theorem setTask (going : process.Going) {id : Nat} {task : Task I} (plain : task.rest.Plain) :
    Process.Going { process with tasks := process.tasks.set id task } where
  live := going.live
  main := by
    rw [List.length_set]
    exact going.main
  tasks other member := by
    rcases List.mem_or_eq_of_mem_set member with old | rfl
    · exact going.tasks other old
    · exact plain

theorem stepTask {task : Task I} (plain : task.rest.Plain) (choice : M.Choice) :
    (M.stepTask choice state task).2.rest.Plain := by
  unfold Machine.stepTask
  split
  · exact plain
  · split
    · rename_i op next head
      rw [head] at plain
      exact plain _
    · exact plain

theorem step (going : process.Going) (body : ∀ job, (M.body job).Plain) {move : Move M.Choice}
    (kept : move ≠ .drop) : (M.step state process move).2.Going := by
  cases move with
  | main choice =>
      simp only [Machine.step, going.live, Bool.false_eq_true, if_false]
      unfold Machine.stepMain
      have waits := going.main
      cases head : process.main with
      | done result => exact going
      | call op next =>
          rw [head] at waits
          exact ⟨going.live, waits _, going.tasks⟩
      | spawn job next =>
          rw [head] at waits
          refine ⟨going.live, ?_, ?_⟩
          · rw [List.length_append]
            exact waits
          · intro task member
            rcases List.mem_append.mp member with old | new
            · exact going.tasks task old
            · rw [List.mem_singleton.mp new]
              exact body job
      | join ids next =>
          rw [head] at waits
          simp only
          split
          · split
            · rename_i member
              exact ⟨going.live, waits.2 _ member _, going.tasks⟩
            · exact going
          · exact going
  | task id choice =>
      simp only [Machine.step]
      split
      · exact going
      · rename_i task found
        split
        · exact going
        · exact going.setTask (stepTask (going.tasks task (List.mem_of_getElem? found)) choice)
  | abort id =>
      simp only [Machine.step]
      split
      · exact going
      · rename_i task found
        split
        · exact going.setTask (going.tasks task (List.mem_of_getElem? found))
        · exact going
  | drop => exact absurd rfl kept

theorem run (going : process.Going) (body : ∀ job, (M.body job).Plain)
    {moves : List (Move M.Choice)} (kept : ∀ move ∈ moves, move ≠ .drop) :
    (M.run state process moves).2.Going := by
  induction moves generalizing state process with
  | nil => exact going
  | cons first rest ih =>
      exact ih (going.step body (kept first List.mem_cons_self))
        fun move member => kept move (List.mem_cons_of_mem _ member)

end Process.Going

namespace Machine

variable {M : Machine I} {R : Regime M}

def Goes (R : Regime M) (moves : List (Move M.Choice)) : Prop :=
  ∀ move ∈ moves, R.Admits move ∧ move ≠ .drop

theorem run_append (state : M.State) (process : Process I A) (front back : List (Move M.Choice)) :
    M.run state process (front ++ back) =
      M.run (M.run state process front).1 (M.run state process front).2 back :=
  List.foldl_append

theorem Goes.append {front back : List (Move M.Choice)} (one : Goes R front)
    (other : Goes R back) : Goes R (front ++ back) := by
  intro move member
  rcases List.mem_append.mp member with first | second
  · exact one move first
  · exact other move second

theorem ends_task {choice : M.Choice} (admitted : R.task choice) (main : Program I A)
    (unanswered : main.result? = none) (state : M.State) (tasks : List (Task I))
    (asked : List (Asked I)) {id : Nat} {task : Task I} (found : tasks[id]? = some task)
    (plain : task.rest.Plain) :
    ∃ moves after ended out, Goes R moves ∧
      M.run state ⟨main, tasks, asked, false⟩ moves =
        (after, ⟨main, tasks.set id ended, asked, false⟩) ∧
      ended.outcome = some out ∧ ended.rest.Plain := by
  obtain ⟨job, rest, aborted⟩ := task
  have bound : id < tasks.length := (List.getElem?_eq_some_iff.mp found).1
  cases aborted with
  | true =>
      refine ⟨[], state, ⟨job, rest, true⟩, none, by simp [Goes], ?_, rfl, plain⟩
      rw [set_present found]
      rfl
  | false =>
      induction rest generalizing state tasks with
      | done out =>
          refine ⟨[], state, ⟨job, .done out, false⟩, some out, by simp [Goes], ?_, rfl, plain⟩
          rw [set_present found]
          rfl
      | call op next ih =>
          have moved : M.step state ⟨main, tasks, asked, false⟩ (.task id choice) =
              ((M.exec choice op state).1, ⟨main,
                tasks.set id ⟨job, next (M.exec choice op state).2, false⟩, asked, false⟩) := by
            simp [Machine.step, found, Process.halted, unanswered, stepTask]
          obtain ⟨moves, after, ended, out, goes, ran, outcome, still⟩ :=
            ih (M.exec choice op state).2 (M.exec choice op state).1
              (tasks.set id ⟨job, next (M.exec choice op state).2, false⟩)
              (by rw [List.length_set]; exact bound) (List.getElem?_set_self bound) (plain _)
          refine ⟨.task id choice :: moves, after, ended, out, ?_, ?_, outcome, still⟩
          · intro move member
            rcases List.mem_cons.mp member with rfl | later
            · exact ⟨admitted, by simp⟩
            · exact goes move later
          · rw [Machine.run, List.foldl_cons, moved]
            rw [List.set_set] at ran
            exact ran
      | spawn job next _ => exact plain.elim
      | join ids next _ => exact plain.elim

theorem answers (lively : R.Lively) (state : M.State) (process : Process I A)
    (going : process.Going) :
    ∃ moves result, Goes R moves ∧ (M.run state process moves).2.answer = some result := by
  obtain ⟨main, tasks, asked, dropped⟩ := process
  cases going.live
  have waits := going.main
  have plain := going.tasks
  clear going
  simp only at waits plain
  induction main generalizing state tasks asked with
  | done result => exact ⟨[], result, by simp [Goes], rfl⟩
  | call op next ih =>
      obtain ⟨choice, admitted, _⟩ := lively.main 0
      obtain ⟨moves, result, goes, answer⟩ := ih (M.exec choice op state).2
        (M.exec choice op state).1 tasks _ (waits _) plain
      refine ⟨.main choice :: moves, result, ?_, answer⟩
      intro move member
      rcases List.mem_cons.mp member with rfl | later
      · exact ⟨admitted, by simp⟩
      · exact goes move later
  | spawn job next ih =>
      obtain ⟨choice, admitted, _⟩ := lively.main 0
      obtain ⟨moves, result, goes, answer⟩ := ih tasks.length state
        (tasks ++ [⟨job, M.body job, false⟩]) asked
        (by rw [List.length_append]; exact waits) (by
          intro task member
          rcases List.mem_append.mp member with old | new
          · exact plain task old
          · rw [List.mem_singleton.mp new]
            exact lively.body job)
      refine ⟨.main choice :: moves, result, ?_, answer⟩
      intro move member
      rcases List.mem_cons.mp member with rfl | later
      · exact ⟨admitted, by simp⟩
      · exact goes move later
  | join ids next ih =>
      obtain ⟨⟨id, member, started⟩, more⟩ := waits
      obtain ⟨choice, admitted⟩ := lively.task
      obtain ⟨task, found⟩ : ∃ task, tasks[id]? = some task :=
        ⟨tasks[id], List.getElem?_eq_getElem started⟩
      obtain ⟨moves, after, ended, out, goes, ran, outcome, still⟩ :=
        ends_task (A := A) admitted (.join ids next) rfl state tasks asked found
          (plain task (List.mem_of_getElem? found))
      obtain ⟨taking, admits, picked⟩ := lively.main id
      obtain ⟨rest, result, goes', answer⟩ := ih id out after (tasks.set id ended) asked
        (by rw [List.length_set]; exact more id member out) (by
          intro other present
          rcases List.mem_or_eq_of_mem_set present with old | rfl
          · exact plain other old
          · exact still)
      have taken : M.step after ⟨.join ids next, tasks.set id ended, asked, false⟩ (.main taking) =
          (after, ⟨next id out, tasks.set id ended, asked, false⟩) := by
        simp [Machine.step, stepMain, picked, List.getElem?_set_self started, outcome, member]
      refine ⟨moves ++ .main taking :: rest, result, ?_, ?_⟩
      · apply goes.append
        intro move present
        rcases List.mem_cons.mp present with rfl | later
        · exact ⟨admits, by simp⟩
        · exact goes' move later
      · rw [run_append, ran, Machine.run, List.foldl_cons, taken]
        exact answer

end Machine

/-- Whatever has happened to a process, it can still come to its answer. -/
theorem Program.Waits.answers {M : Machine I} {R : Regime M} {main : Program I A}
    (waits : main.Waits (fun _ _ => True) 0) (lively : R.Lively) (state : M.State)
    {moves : List (Move M.Choice)} (kept : ∀ move ∈ moves, move ≠ .drop) :
    ∃ more result, Machine.Goes R more ∧
      (M.run state (.start main) (moves ++ more)).2.answer = some result := by
  have going : (Process.start main : Process I A).Going :=
    ⟨rfl, waits, fun _ member => by cases member⟩
  obtain ⟨more, result, goes, answer⟩ := Machine.answers lively
    (M.run state (.start main) moves).1 _ (going.run lively.body kept)
  refine ⟨more, result, goes, ?_⟩
  rw [Machine.run_append]
  exact answer

end MbxCache.Concurrent
