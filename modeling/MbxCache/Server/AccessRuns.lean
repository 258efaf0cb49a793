import MbxCache.Server.PendingAccess

namespace MbxCache

open Concurrent

def touchCalls : List (String × List Digest) → FlushReport → Program Accessing FlushWarning
  | [], report => .done report.warning
  | call :: rest, report =>
      .call (.touchBlobs call.1 call.2) fun result => touchCalls rest (report.note call.1 result)

theorem touchChunks_calls (ns : String) (pieces : List (List Digest)) (report : FlushReport)
    (rest : List (String × List Digest)) :
    (touchChunks ns pieces report).bind (touchCalls rest) =
      touchCalls (pieces.map (ns, ·) ++ rest) report := by
  induction pieces generalizing report with
  | nil => rfl
  | cons piece pieces ih => exact congrArg (Program.call _) (funext fun result => ih _)

theorem touchNamespaces_calls (order : Iteration) (sets : List (Σ _ : String, Finset Digest))
    (report : FlushReport) :
    ((touchNamespaces order sets report).bind fun report => .done report.warning) =
      touchCalls (sets.flatMap fun set => order.callsFor set.1 set.2) report := by
  induction sets generalizing report with
  | nil => rfl
  | cons set sets ih =>
      rw [touchNamespaces, Program.bind_assoc, funext ih, touchChunks_calls]
      rfl

theorem flush_calls (order : Iteration) : flush order =
    .call .take fun pending : PendingAccess =>
      touchCalls (order.calls pending.namespaces) ⟨0, none⟩ := by
  unfold flush
  congr 1
  funext pending
  exact touchNamespaces_calls order (order.namespaces (PendingAccess.namespaces pending)) ⟨0, none⟩

/-- What a process has handed to `touch_blobs`. -/
def touches (asked : List (Asked Accessing)) : List (String × List Digest) :=
  asked.filterMap fun
    | ⟨.touchBlobs ns digests, _⟩ => some (ns, digests)
    | _ => none

abbrev Accessor : Type := Process Accessing FlushWarning

theorem tasks_nil (process : Accessor) : process.tasks = [] :=
  List.eq_nil_iff_forall_not_mem.mpr fun task _ => task.job.elim

def ownTurn : Move (Option Failure) → Bool
  | .main _ => true
  | _ => false

def turnOf (pid : Nat) : Action AccessRequest (Option Failure) → Bool
  | .start _ _ => false
  | .move other move => other = pid && ownTurn move

/-- A flush with its calls before it, that has had some turns. Unless it was dropped, it has made
one call a turn. -/
structure Flushing (calls : List (String × List Digest)) (turns : Nat) (process : Accessor) :
    Prop where
  place : ∃ rest report, process.main = touchCalls rest report ∧
    touches process.asked ++ rest = calls
  prompt : process.dropped = false → touches process.asked = calls.take turns

namespace Flushing

variable {calls : List (String × List Digest)} {turns : Nat} {process : Accessor}

theorem main (flushing : Flushing calls turns process) (fault : Option Failure)
    (pending : PendingAccess) :
    Flushing calls (turns + 1) (accessMachine.step pending process (.main fault)).2 := by
  obtain ⟨⟨rest, report, head, split⟩, prompt⟩ := flushing
  cases dropped : process.dropped with
  | true =>
      simp only [Machine.step, dropped, if_true]
      refine ⟨⟨rest, report, head, split⟩, fun live => ?_⟩
      rw [dropped] at live
      cases live
  | false =>
      have made := prompt dropped
      simp only [Machine.step, dropped, Bool.false_eq_true, if_false]
      cases rest with
      | nil =>
          rw [Machine.stepMain_done _ head]
          refine ⟨⟨[], report, head, split⟩, fun _ => ?_⟩
          rw [List.append_nil] at split
          rw [split] at made ⊢
          have enough := congrArg List.length made
          rw [List.length_take] at enough
          exact (List.take_of_length_le (by omega)).symm
      | cons call rest =>
          rw [Machine.stepMain_call _ head]
          have more (value : Except Failure Unit) :
              touches (process.asked ++ [⟨.touchBlobs call.1 call.2, value⟩]) =
                touches process.asked ++ [call] := by
            simp [touches, List.filterMap_append]
          refine ⟨⟨rest, _, rfl, ?_⟩, fun _ => ?_⟩
          · exact (congrArg (· ++ rest) (more _)).trans ((List.append_assoc ..).trans split)
          · have count : (touches process.asked).length = turns := by
              have lengths := congrArg List.length made
              have whole := congrArg List.length split
              rw [List.length_take] at lengths
              rw [List.length_append, List.length_cons] at whole
              omega
            refine (more _).trans ?_
            rw [← split, ← count]
            simp [List.take_append]

theorem step (flushing : Flushing calls turns process) (move : Move (Option Failure))
    (pending : PendingAccess) :
    Flushing calls (turns + if ownTurn move then 1 else 0)
      (accessMachine.step pending process move).2 := by
  cases move with
  | main fault => exact flushing.main fault pending
  | task id fault =>
      simp only [Machine.step, tasks_nil, List.getElem?_nil]
      exact flushing
  | abort id =>
      simp only [Machine.step, tasks_nil, List.getElem?_nil]
      exact flushing
  | drop =>
      refine ⟨flushing.place, fun live => ?_⟩
      cases live

end Flushing

structure AccessRun where
  actions : List (Action AccessRequest (Option Failure))

namespace AccessRun

variable (run : AccessRun)

def upTo (n : Nat) : Config accessMachine FlushWarning :=
  Config.run AccessRequest.program (Config.initial accessMachine FlushWarning PendingAccess.empty)
    (run.actions.take n)

def pending (n : Nat) : PendingAccess := (run.upTo n).state

def made (n : Nat) : Option (Carried accessMachine) := run.actions[n]?.bind (run.upTo n).carries

/-- A call of `record` makes an access pending that was not. -/
def AcceptedAt (n : Nat) (entry : String × Digest) : Prop :=
  ∃ pid fault digests, run.made n = some ⟨pid, fault, .record entry.1 digests⟩ ∧
    entry.2 ∈ digests ∧ entry ∉ (run.pending n).entries ∧ entry ∈ (run.pending (n + 1)).entries

def TakenAt (n pid : Nat) : Prop := ∃ fault, run.made n = some ⟨pid, fault, .take⟩

/-- What a process has handed to `touch_blobs` at the end. -/
def handed (pid : Nat) : List (String × List Digest) :=
  ((run.upTo run.actions.length).procs pid).elim [] fun process => touches process.asked

def turns (pid m n : Nat) : Nat := ((run.actions.take n).drop (m + 1)).countP (turnOf pid)

variable {run}

theorem upTo_succ (n : Nat) : run.upTo (n + 1) =
    match run.actions[n]? with
    | none => run.upTo n
    | some action => (run.upTo n).step AccessRequest.program action := by
  unfold upTo
  rw [List.take_add_one]
  cases run.actions[n]? with
  | none => simp
  | some action => exact Config.run_snoc _ _ _ _

theorem pending_succ (n : Nat) : run.pending (n + 1) =
    match run.made n with
    | none => run.pending n
    | some call => (accessExec call.choice call.op (run.pending n)).1 := by
  unfold pending made
  rw [upTo_succ]
  cases run.actions[n]? with
  | none => rfl
  | some action =>
      have stepped := Config.step_state AccessRequest.program (run.upTo n) action
      cases carried : (run.upTo n).carries action with
      | none =>
          rw [carried] at stepped
          rw [Option.bind_some, carried]
          exact stepped
      | some call =>
          rw [carried] at stepped
          rw [Option.bind_some, carried]
          exact stepped

theorem pending_consistent (n : Nat) : (run.pending n).Consistent := by
  induction n with
  | zero => exact PendingAccess.Consistent.empty
  | succ n ih =>
      rw [pending_succ]
      cases run.made n with
      | none => exact ih
      | some call =>
          obtain ⟨pid, fault, op⟩ := call
          cases op with
          | record ns digests => exact ih.record
          | take => exact PendingAccess.Consistent.empty
          | touchBlobs ns digests => exact ih

variable (run) in
def box : Mailbox (String × Digest) where
  contents n := (run.pending n).entries
  collects n := ∃ pid, run.TakenAt n pid
  initially := by
    ext entry
    simp [pending, upTo, Config.run, Config.initial, PendingAccess.entries, PendingAccess.empty]
  emptied := by
    rintro n ⟨pid, fault, made⟩
    rw [pending_succ, made]
    ext entry
    simp [accessExec, PendingAccess.entries, PendingAccess.empty]
  kept := by
    intro n collects
    rw [pending_succ]
    cases made : run.made n with
    | none => exact Set.Subset.refl _
    | some call =>
        obtain ⟨pid, fault, op⟩ := call
        cases op with
        | record ns digests => exact PendingAccess.record_grows
        | take => exact absurd ⟨pid, fault, made⟩ collects
        | touchBlobs ns digests => exact Set.Subset.refl _

/-- What arrives in the box is what calls of `record` make pending. -/
theorem arrives_iff (n : Nat) (entry : String × Digest) :
    run.box.Arrives n entry ↔ run.AcceptedAt n entry := by
  constructor
  · intro arrives
    have collects := arrives.not_collects
    obtain ⟨absent, present⟩ := arrives
    have grown := present
    change entry ∈ (run.pending (n + 1)).entries at grown
    rw [pending_succ] at grown
    cases made : run.made n with
    | none =>
        rw [made] at grown
        exact absurd grown absent
    | some call =>
        rw [made] at grown
        obtain ⟨pid, fault, op⟩ := call
        cases op with
        | record ns digests =>
            obtain ⟨rfl, given⟩ := PendingAccess.record_added grown absent
            exact ⟨pid, fault, digests, made, given, absent, present⟩
        | take => exact absurd ⟨pid, fault, made⟩ collects
        | touchBlobs ns digests => exact absurd grown absent
  · rintro ⟨_, _, _, _, _, absent, present⟩
    exact ⟨absent, present⟩

theorem procs_succ (n pid : Nat) (process : Accessor)
    (found : (run.upTo n).procs pid = some process) : (run.upTo (n + 1)).procs pid =
      match run.actions[n]? with
      | some (.move other move) =>
          if other = pid then some (accessMachine.step (run.pending n) process move).2
          else some process
      | _ => some process := by
  rw [upTo_succ]
  cases run.actions[n]? with
  | none => exact found
  | some action =>
      cases action with
      | start other request =>
          simp only [Config.step]
          cases taken : (run.upTo n).procs other with
          | some _ => exact found
          | none =>
              have different : pid ≠ other := by
                rintro rfl
                rw [found] at taken
                cases taken
              simp only [Config.setProc, if_neg different]
              exact found
      | move other move =>
          simp only [Config.step]
          by_cases same : other = pid
          · subst same
            simp only [found, Config.setProc, if_true]
            rfl
          · rw [if_neg same]
            cases (run.upTo n).procs other with
            | none => exact found
            | some _ =>
                simp only [Config.setProc, if_neg (Ne.symm same)]
                exact found

def Writing (run : AccessRun) (order : Iteration) (pid m n : Nat) : Prop :=
  ∃ process, (run.upTo n).procs pid = some process ∧
    Flushing (order.calls (run.pending m).namespaces) (run.turns pid m n) process

theorem turns_succ (pid : Nat) {m n : Nat} (after : m < n) : run.turns pid m (n + 1) =
    run.turns pid m n + (if run.actions[n]?.any (turnOf pid) then 1 else 0) := by
  unfold turns
  rw [List.take_add_one]
  cases found : run.actions[n]? with
  | none => simp
  | some action =>
      have long : n < run.actions.length := (List.getElem?_eq_some_iff.mp found).1
      have short : m + 1 ≤ (run.actions.take n).length := by
        rw [List.length_take]
        omega
      rw [List.drop_append_of_le_length short]
      simp [List.countP_append, List.countP_singleton]

theorem Writing.succ {order : Iteration} {pid m n : Nat} (writing : run.Writing order pid m n)
    (after : m < n) : run.Writing order pid m (n + 1) := by
  obtain ⟨process, found, flushing⟩ := writing
  have going := procs_succ n pid process found
  unfold Writing
  rw [going, turns_succ pid after]
  cases run.actions[n]? with
  | none => exact ⟨process, rfl, flushing⟩
  | some action =>
      cases action with
      | start other request => exact ⟨process, rfl, flushing⟩
      | move other move =>
          by_cases same : other = pid
          · simp only [Option.any_some, turnOf, same, decide_true, Bool.true_and]
            exact ⟨_, rfl, flushing.step move (run.pending n)⟩
          · simp only [Option.any_some, turnOf, same, decide_false, Bool.false_and]
            exact ⟨process, rfl, flushing⟩

theorem made_call {n pid : Nat} {fault : Option Failure} {op : AccessOp}
    (made : run.made n = some ⟨pid, fault, op⟩) :
    ∃ process next, run.actions[n]? = some (.move pid (.main fault)) ∧
      (run.upTo n).procs pid = some process ∧ process.dropped = false ∧
      process.main = .call op next := by
  obtain ⟨action, found, carried⟩ := Option.bind_eq_some_iff.mp made
  cases action with
  | start other request => cases carried
  | move other move =>
      obtain ⟨process, going, call⟩ := Option.bind_eq_some_iff.mp carried
      obtain ⟨⟨choice, asked⟩, carries, same⟩ := Option.map_eq_some_iff.mp call
      cases same
      cases move with
      | main choice =>
          simp only [Machine.carries] at carries
          split at carries
          next => cases carries
          next live =>
            split at carries
            next next head =>
              cases carries
              exact ⟨process, next, found, going, Bool.eq_false_iff.mpr live, head⟩
            next => cases carries
      | task id choice =>
          simp only [Machine.carries, tasks_nil, List.getElem?_nil] at carries
          cases carries
      | abort id => cases carries
      | drop => cases carries

inductive Stage (run : AccessRun) (n pid : Nat) (process : Accessor) (request : AccessRequest) :
    Prop
  | begun (head : process.main = request.program) (silent : touches process.asked = [])
  | recorded (ns : String) (digests : List Digest) (records : request = .record ns digests)
      (head : process.main = .done none) (silent : touches process.asked = [])
  | taken (m : Nat) (before : m < n) (takes : run.TakenAt m pid)

theorem Stage.later {n pid : Nat} {process : Accessor} {request : AccessRequest}
    (stage : Stage run n pid process request) : Stage run (n + 1) pid process request := by
  cases stage with
  | begun head silent => exact .begun head silent
  | recorded ns digests records head silent => exact .recorded ns digests records head silent
  | taken m before takes => exact .taken m (Nat.lt_succ_of_lt before) takes

/-- The first turn of a flush takes what is pending. -/
theorem begun_takes {n pid : Nat} {process : Accessor} {order : Iteration}
    {fault : Option Failure} (found : (run.upTo n).procs pid = some process)
    (moves : run.actions[n]? = some (.move pid (.main fault))) (live : process.dropped = false)
    (head : process.main = flush order) : run.TakenAt n pid := by
  rw [flush_calls] at head
  refine ⟨fault, ?_⟩
  simp [made, moves, Config.carries, found, Machine.carries, live, head]

theorem Stage.step {n pid : Nat} {process : Accessor} {request : AccessRequest}
    (stage : Stage run n pid process request) (found : (run.upTo n).procs pid = some process)
    {move : Move (Option Failure)} (moves : run.actions[n]? = some (.move pid move)) :
    Stage run (n + 1) pid (accessMachine.step (run.pending n) process move).2 request := by
  cases move with
  | main fault =>
      cases dropped : process.dropped with
      | true =>
          simp only [Machine.step, dropped, if_true]
          exact stage.later
      | false =>
          simp only [Machine.step, dropped, Bool.false_eq_true, if_false]
          cases stage with
          | begun head silent =>
              cases request with
              | record ns digests =>
                  rw [Machine.stepMain_call _ head]
                  refine .recorded ns digests rfl rfl ?_
                  simp only [touches, List.filterMap_append] at silent ⊢
                  rw [silent]
                  rfl
              | flush order =>
                  exact .taken n (Nat.lt_succ_self n) (begun_takes found moves dropped head)
          | recorded ns digests records head silent =>
              rw [Machine.stepMain_done _ head]
              exact .recorded ns digests records head silent
          | taken m before takes => exact .taken m (Nat.lt_succ_of_lt before) takes
  | task id fault =>
      simp only [Machine.step, tasks_nil, List.getElem?_nil]
      exact stage.later
  | abort id =>
      simp only [Machine.step, tasks_nil, List.getElem?_nil]
      exact stage.later
  | drop =>
      cases stage with
      | begun head silent => exact .begun head silent
      | recorded ns digests records head silent => exact .recorded ns digests records head silent
      | taken m before takes => exact .taken m (Nat.lt_succ_of_lt before) takes

theorem procs_new {n pid : Nat} {process : Accessor} (absent : (run.upTo n).procs pid = none)
    (found : (run.upTo (n + 1)).procs pid = some process) :
    ∃ request, run.actions[n]? = some (.start pid request) ∧
      process = Process.start request.program := by
  have unfound : (run.upTo n).procs pid ≠ some process := by
    rw [absent]
    exact Option.some_ne_none process ∘ Eq.symm
  rw [upTo_succ] at found
  cases action : run.actions[n]? with
  | none =>
      rw [action] at found
      exact absurd found unfound
  | some action' =>
      rw [action] at found
      cases action' with
      | start other request =>
          by_cases same : other = pid
          · subst same
            simp only [Config.step, absent, Config.setProc, if_true, Option.some.injEq] at found
            exact ⟨request, rfl, found.symm⟩
          · simp only [Config.step] at found
            split at found
            · exact absurd found unfound
            · simp only [Config.setProc, if_neg (Ne.symm same)] at found
              exact absurd found unfound
      | move other move =>
          simp only [Config.step] at found
          split at found
          · exact absurd found unfound
          · rename_i going present
            have different : pid ≠ other := by
              rintro rfl
              rw [absent] at present
              cases present
            simp only [Config.setProc, if_neg different] at found
            exact absurd found unfound

theorem stage (n pid : Nat) (process : Accessor)
    (found : (run.upTo n).procs pid = some process) :
    ∃ request, served (run.actions.take n) pid = some request ∧
      Stage run n pid process request := by
  induction n generalizing process with
  | zero => cases found
  | succ n ih =>
      rw [List.take_add_one]
      cases before : (run.upTo n).procs pid with
      | none =>
          obtain ⟨request, started, rfl⟩ := procs_new before found
          have unserved : served (run.actions.take n) pid = none := by
            have known : ((run.upTo n).procs pid).isSome =
                (served (run.actions.take n) pid).isSome := Config.run_procs _ _ _ _
            rw [before] at known
            exact Option.isNone_iff_eq_none.mp (by rw [← Option.not_isSome, ← known]; rfl)
          refine ⟨request, ?_, .begun rfl rfl⟩
          rw [started, served, List.findSome?_append, ← served, unserved]
          simp [Action.request]
      | some earlier =>
          obtain ⟨request, answers, stage⟩ := ih earlier before
          refine ⟨request, served_append answers _, ?_⟩
          have going := (procs_succ n pid earlier before).symm.trans found
          cases action : run.actions[n]? with
          | none =>
              rw [action] at going
              cases going
              exact stage.later
          | some action' =>
              rw [action] at going
              cases action' with
              | start other request' =>
                  cases going
                  exact stage.later
              | move other move =>
                  by_cases same : other = pid
                  · subst same
                    simp only [if_true, Option.some.injEq] at going
                    subst going
                    exact stage.step before action
                  · simp only [if_neg same, Option.some.injEq] at going
                    subst going
                    exact stage.later

theorem Writing.not_taken {order : Iteration} {pid m n : Nat}
    (writing : run.Writing order pid m n) : ¬ run.TakenAt n pid := by
  rintro ⟨fault, made⟩
  obtain ⟨process, next, _, found, _, head⟩ := made_call made
  obtain ⟨process', found', flushing⟩ := writing
  cases found.symm.trans found'
  obtain ⟨rest, report, place, _⟩ := flushing.place
  rw [place] at head
  cases rest <;> cases head

theorem taken_first {pid m : Nat} (taken : run.TakenAt m pid)
    (first : ∀ k < m, ¬ run.TakenAt k pid) :
    ∃ order, served run.actions pid = some (.flush order) ∧ run.Writing order pid m (m + 1) := by
  obtain ⟨fault, made⟩ := taken
  obtain ⟨process, next, acts, found, live, head⟩ := made_call made
  obtain ⟨request, answers, stage⟩ := stage m pid process found
  have begun : process.main = request.program ∧ touches process.asked = [] := by
    cases stage with
    | begun head silent => exact ⟨head, silent⟩
    | recorded ns digests records done silent =>
        rw [done] at head
        cases head
    | taken k before takes => exact absurd takes (first k before)
  cases request with
  | record ns digests =>
      rw [begun.1] at head
      cases head
  | flush order =>
      have begins : process.main = flush order := begun.1
      rw [flush_calls] at begins
      refine ⟨order, ?_, ?_⟩
      · have later := served_append answers (run.actions.drop m)
        rwa [List.take_append_drop] at later
      · have going := procs_succ m pid process found
        rw [acts] at going
        simp only [if_true, Machine.step, live, Bool.false_eq_true, if_false] at going
        rw [Machine.stepMain_call _ begins] at going
        have silent : touches (process.asked ++ [⟨.take, run.pending m⟩]) = [] := by
          rw [touches, List.filterMap_append, ← touches, begun.2]
          rfl
        have none : run.turns pid m (m + 1) = 0 := by
          rw [turns, List.drop_eq_nil_of_le (List.length_take_le _ _), List.countP_nil]
        refine ⟨_, going, ⟨⟨_, _, rfl, ?_⟩, fun _ => ?_⟩⟩
        · exact congrArg (· ++ order.calls (run.pending m).namespaces) silent
        · rw [none, List.take_zero]
          exact silent

/-- A process takes what is pending once, as a flush, and is from then on through the calls
for it. -/
theorem taken_writing {pid m : Nat} (taken : run.TakenAt m pid) :
    ∃ order, served run.actions pid = some (.flush order) ∧
      ∀ n, m < n → run.Writing order pid m n := by
  induction m using Nat.strong_induction_on with
  | _ m ih =>
      have first : ∀ k < m, ¬ run.TakenAt k pid := by
        intro k before takes
        obtain ⟨order, _, writing⟩ := ih k before takes
        exact (writing m before).not_taken taken
      obtain ⟨order, answers, writing⟩ := taken_first taken first
      refine ⟨order, answers, fun n after => ?_⟩
      induction n, after using Nat.le_induction with
      | base => exact writing
      | succ n after ih => exact ih.succ after

theorem taken_unique {pid m n : Nat} (taken : run.TakenAt m pid) (again : run.TakenAt n pid) :
    m = n := by
  rcases Nat.lt_trichotomy m n with before | same | after
  · obtain ⟨_, _, writing⟩ := taken_writing taken
    exact absurd again (writing n before).not_taken
  · exact same
  · obtain ⟨_, _, writing⟩ := taken_writing again
    exact absurd taken (writing m after).not_taken

theorem handed_taken {pid : Nat} (given : run.handed pid ≠ []) : ∃ m, run.TakenAt m pid := by
  unfold handed at given
  cases found : (run.upTo run.actions.length).procs pid with
  | none =>
      rw [found] at given
      exact absurd rfl given
  | some process =>
      rw [found] at given
      obtain ⟨_, _, stage⟩ := stage _ pid process found
      cases stage with
      | begun _ silent => exact absurd silent given
      | recorded _ _ _ _ silent => exact absurd silent given
      | taken m _ takes => exact ⟨m, takes⟩

theorem stage_of {n pid : Nat} {process : Accessor} {request : AccessRequest}
    (answers : served run.actions pid = some request)
    (found : (run.upTo n).procs pid = some process) : Stage run n pid process request := by
  obtain ⟨known, given, stage⟩ := stage n pid process found
  have later := served_append given (run.actions.drop n)
  rw [List.take_append_drop, answers] at later
  cases later
  exact stage

theorem moved_taken {n pid : Nat} {process : Accessor} {order : Iteration}
    {fault : Option Failure} (flushes : served run.actions pid = some (.flush order))
    (moves : run.actions[n]? = some (.move pid (.main fault)))
    (found : (run.upTo n).procs pid = some process) (live : process.dropped = false) :
    ∃ m ≤ n, run.TakenAt m pid := by
  cases stage_of flushes found with
  | begun head _ => exact ⟨n, Nat.le_refl n, begun_takes found moves live head⟩
  | recorded _ _ records _ _ => cases records
  | taken m before takes => exact ⟨m, Nat.le_of_lt before, takes⟩

/-- A flush that has come to its end has made all its calls. -/
theorem ended_handed {pid : Nat} {process : Accessor} {order : Iteration}
    (flushes : served run.actions pid = some (.flush order))
    (found : (run.upTo run.actions.length).procs pid = some process)
    (ended : process.answer.isSome) :
    ∃ m, run.TakenAt m pid ∧ run.handed pid = order.calls (run.pending m).namespaces := by
  cases stage_of flushes found with
  | begun head _ =>
      have head : process.main = flush order := head
      rw [flush_calls] at head
      rw [Process.answer, head] at ended
      cases ended
  | recorded _ _ records _ _ => cases records
  | taken m before takes =>
      obtain ⟨order', flushes', writing⟩ := taken_writing takes
      cases flushes.symm.trans flushes'
      obtain ⟨process', found', flushing⟩ := writing run.actions.length before
      cases found.symm.trans found'
      obtain ⟨rest, report, place, split⟩ := flushing.place
      refine ⟨m, takes, ?_⟩
      rw [handed, found]
      cases rest with
      | nil => exact (List.append_nil _).symm.trans split
      | cons call rest =>
          rw [Process.answer, place] at ended
          cases ended

/-- Every digest of a call of `record` is pending after it, unless the limit is reached. -/
theorem recorded_all {n pid : Nat} {fault : Option Failure} {ns : String} {digests : List Digest}
    (made : run.made n = some ⟨pid, fault, .record ns digests⟩) :
    (∀ digest ∈ digests, (ns, digest) ∈ (run.pending (n + 1)).entries) ∨
      (run.pending (n + 1)).len = maxPendingAccesses := by
  have bounded := (run.pending_consistent (n + 1)).bounded
  have after : run.pending (n + 1) = (run.pending n).record ns digests := by
    rw [pending_succ, made]
    rfl
  rw [after] at bounded ⊢
  exact PendingAccess.record_all.imp_right (Nat.le_antisymm bounded)

/-- Accesses are written once, whatever is noted and flushed in whatever order and however the
writes come out. The total is always that of the sets, within the limit, and so is the number of
namespaces; only the limit keeps a digest from being accepted. A flush hands over what was accepted
since the last one took, each access once, in calls that are not too long, and one call a turn;
nothing else is ever handed over. What is accepted is taken by the next flush that takes, or still
pending. A flush takes in its first turn, and at its end has made all its calls. -/
theorem accesses_written_once (run : AccessRun) :
    (∀ n, (run.pending n).Consistent ∧
      (run.pending n).namespaces.keys.card ≤ maxPendingAccesses) ∧
    (∀ n pid fault ns digests, run.made n = some ⟨pid, fault, .record ns digests⟩ →
      (∀ digest ∈ digests, (ns, digest) ∈ (run.pending (n + 1)).entries) ∨
        (run.pending (n + 1)).len = maxPendingAccesses) ∧
    (∀ m pid, run.TakenAt m pid → ∃ order, served run.actions pid = some (.flush order) ∧
      (run.handed pid <+: order.calls (run.pending m).namespaces) ∧
      (∀ process, (run.upTo run.actions.length).procs pid = some process →
        process.dropped = false → run.handed pid =
          (order.calls (run.pending m).namespaces).take (run.turns pid m run.actions.length)) ∧
      (∀ call ∈ order.calls (run.pending m).namespaces,
        call.2 ≠ [] ∧ call.2.length ≤ maxBatchItems) ∧
      (touched (order.calls (run.pending m).namespaces)).Nodup ∧
      (∀ entry ∈ touched (order.calls (run.pending m).namespaces),
        ∃! n, run.AcceptedAt n entry ∧ run.box.Next n m) ∧
      ∀ n entry, run.AcceptedAt n entry → run.box.Next n m →
        entry ∈ touched (order.calls (run.pending m).namespaces)) ∧
    (∀ pid, run.handed pid ≠ [] → ∃! m, run.TakenAt m pid) ∧
    (∀ n entry, run.AcceptedAt n entry →
      (∃! m, run.box.Next n m) ∨ ∀ m, n < m → entry ∈ (run.pending m).entries) ∧
    (∀ n pid order fault process, served run.actions pid = some (.flush order) →
      run.actions[n]? = some (.move pid (.main fault)) →
      (run.upTo n).procs pid = some process → process.dropped = false →
        ∃ m ≤ n, run.TakenAt m pid) ∧
    (∀ pid order process, served run.actions pid = some (.flush order) →
      (run.upTo run.actions.length).procs pid = some process → process.answer.isSome →
        ∃ m, run.TakenAt m pid ∧ run.handed pid = order.calls (run.pending m).namespaces) := by
  refine ⟨?_, fun n pid fault ns digests => recorded_all, ?_, ?_, ?_,
    fun n pid order fault process => moved_taken, fun pid order process => ended_handed⟩
  · intro n
    have consistent := run.pending_consistent n
    exact ⟨consistent, consistent.few.trans consistent.bounded⟩
  · intro m pid taken
    obtain ⟨order, answers, writing⟩ := taken_writing taken
    obtain ⟨fault, made⟩ := taken
    obtain ⟨_, _, acts, _⟩ := made_call made
    obtain ⟨process, found, flushing⟩ :=
      writing run.actions.length (List.getElem?_eq_some_iff.mp acts).1
    have handed : run.handed pid = touches process.asked := by rw [AccessRun.handed, found]; rfl
    refine ⟨order, answers, ?_, ?_, fun call => order.calls_sized, order.touched_nodup _, ?_, ?_⟩
    · obtain ⟨rest, _, _, split⟩ := flushing.place
      rw [handed, ← split]
      exact List.prefix_append _ rest
    · intro process' found' live
      cases found.symm.trans found'
      rw [handed]
      exact flushing.prompt live
    · intro entry member
      have collects : run.box.collects m := ⟨pid, fault, made⟩
      have once := Mailbox.collected_once collects (order.mem_touched.mp member)
      simpa only [arrives_iff] using once
    · intro n entry accepted next
      exact order.mem_touched.mpr (next.collected ((arrives_iff n entry).mpr accepted))
  · intro pid given
    obtain ⟨m, taken⟩ := handed_taken given
    exact ⟨m, taken, fun other also => taken_unique also taken⟩
  · intro n entry accepted
    exact ((arrives_iff n entry).mpr accepted).collected_or_waits

end AccessRun
end MbxCache
