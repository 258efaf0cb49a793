import Mathlib.Data.List.Induction
import MbxCache.Concurrent.Pool

namespace MbxCache.Concurrent

variable {I : Interface} {A B Req : Type}

structure Footprint (I : Interface) where
  Calls : List (Asked I) → I.Op → Prop
  Jobs : I.Job → Prop

def Footprint.any (I : Interface) : Footprint I := ⟨fun _ _ => True, fun _ => True⟩

/-- Whatever it is answered, the program stays within a footprint, and its result
agrees with the answers. -/
def Program.Obeys (F : Footprint I) (post : A → List (Asked I) → Prop) :
    Program I A → List (Asked I) → Prop
  | .done result, past => post result past
  | .call op next, past => F.Calls past op ∧ ∀ value, (next value).Obeys F post (past ++ [⟨op, value⟩])
  | .spawn job next, past => F.Jobs job ∧ ∀ id, (next id).Obeys F post past
  | .join _ next, past => ∀ id out, (next id out).Obeys F post past

namespace Program.Obeys

variable {F : Footprint I} {post weaker : A → List (Asked I) → Prop} {p : Program I A}
  {past : List (Asked I)}

theorem mono (obeys : p.Obeys F post past)
    (implied : ∀ result later, post result later → weaker result later) :
    p.Obeys F weaker past := by
  induction p generalizing past with
  | done result => exact implied result past obeys
  | call op next ih => exact ⟨obeys.1, fun value => ih value (obeys.2 value)⟩
  | spawn job next ih => exact ⟨obeys.1, fun id => ih id (obeys.2 id)⟩
  | join ids next ih => exact fun id out => ih id out (obeys id out)

theorem bind {next : A → Program I B} {final : B → List (Asked I) → Prop}
    (first : p.Obeys F post past)
    (rest : ∀ result later, post result later → (next result).Obeys F final later) :
    (p.bind next).Obeys F final past := by
  induction p generalizing past with
  | done result => exact rest result past first
  | call op more ih => exact ⟨first.1, fun value => ih value (first.2 value)⟩
  | spawn job more ih => exact ⟨first.1, fun id => ih id (first.2 id)⟩
  | join ids more ih => exact fun id out => ih id out (first id out)

theorem widen {G : Footprint I} (obeys : p.Obeys F post past)
    (calls : ∀ past op, F.Calls past op → G.Calls past op) (jobs : ∀ job, F.Jobs job → G.Jobs job) :
    p.Obeys G post past := by
  induction p generalizing past with
  | done result => exact obeys
  | call op next ih => exact ⟨calls past op obeys.1, fun value => ih value (obeys.2 value)⟩
  | spawn job next ih => exact ⟨jobs job obeys.1, fun id => ih id (obeys.2 id)⟩
  | join ids next ih => exact fun id out => ih id out (obeys id out)

theorem of_always {result : A → Prop} (always : p.Always result) (past : List (Asked I)) :
    p.Obeys (.any I) (fun found _ => result found) past := by
  induction p generalizing past with
  | done found => exact always
  | call op next ih => exact ⟨trivial, fun value => ih value (always value) _⟩
  | spawn job next ih => exact ⟨trivial, fun id => ih id (always id) past⟩
  | join ids next ih => exact fun id out => ih id out (always id out) past

end Program.Obeys

/-- The program stays within a footprint, whatever it was answered before. -/
def Program.Stays (F : Footprint I) (p : Program I A) : Prop :=
  ∀ past, p.Obeys F (fun _ _ => True) past

namespace Program.Stays

variable {F : Footprint I}

theorem done (result : A) : (Program.done result : Program I A).Stays F := fun _ => trivial

theorem call {op : I.Op} {next : I.Val op → Program I A} (allowed : ∀ past, F.Calls past op)
    (rest : ∀ value, (next value).Stays F) : (Program.call op next).Stays F :=
  fun past => ⟨allowed past, fun value => rest value _⟩

theorem spawn {job : I.Job} {next : Nat → Program I A} (allowed : F.Jobs job)
    (rest : ∀ id, (next id).Stays F) : (Program.spawn job next).Stays F :=
  fun past => ⟨allowed, fun id => rest id past⟩

theorem join {ids : List Nat} {next : Nat → Option I.Out → Program I A}
    (rest : ∀ id out, (next id out).Stays F) : (Program.join ids next).Stays F :=
  fun past id out => rest id out past

theorem bind {p : Program I A} {next : A → Program I B} (first : p.Stays F)
    (rest : ∀ result, (next result).Stays F) : (p.bind next).Stays F :=
  fun past => (first past).bind fun result later _ => rest result later

theorem bindOk {ε : Type} {p : Program I (Except ε A)} {next : A → Program I (Except ε B)}
    (first : p.Stays F) (rest : ∀ value, (next value).Stays F) : (p.bindOk next).Stays F := by
  apply Stays.bind first
  intro result
  cases result with
  | error error => exact .done _
  | ok value => exact rest value

end Program.Stays

structure Carried (M : Machine I) where
  pid : Nat
  choice : M.Choice
  op : I.Op

namespace Machine

variable (M : Machine I)

def carries (process : Process I A) : Move M.Choice → Option (M.Choice × I.Op)
  | .main choice =>
      if process.dropped then none
      else
        match process.main with
        | .call op _ => some (choice, op)
        | _ => none
  | .task id choice =>
      match process.tasks[id]? with
      | none => none
      | some task =>
          if (process.halted && !M.detached task.job) || task.aborted then none
          else
            match task.rest with
            | .call op _ => some (choice, op)
            | _ => none
  | .abort _ => none
  | .drop => none

theorem step_state (state : M.State) (process : Process I A) (move : Move M.Choice) :
    (M.step state process move).1 =
      match M.carries process move with
      | none => state
      | some (choice, op) => (M.exec choice op state).1 := by
  cases move with
  | main choice =>
      simp only [step, carries]
      split
      · rfl
      · unfold stepMain
        cases process.main with
        | done result => rfl
        | call op next => rfl
        | spawn job next => rfl
        | join ids next =>
            simp only
            split
            · split <;> rfl
            · rfl
  | task id choice =>
      cases found : process.tasks[id]? with
      | none => simp only [step, carries, found]
      | some task =>
          simp only [step, carries, found, stepTask]
          cases process.halted && !M.detached task.job with
          | true => rfl
          | false =>
              cases task.aborted with
              | true => rfl
              | false => cases task.rest <;> rfl
  | abort id =>
      cases found : process.tasks[id]? with
      | none => simp only [step, carries, found]
      | some task =>
          simp only [step, carries, found]
          split <;> rfl
  | drop => rfl

end Machine

def Action.request {Choice : Type} (pid : Nat) : Action Req Choice → Option Req
  | .start other request => if other = pid then some request else none
  | .move _ _ => none

def served {Choice : Type} (actions : List (Action Req Choice)) (pid : Nat) : Option Req :=
  actions.findSome? (Action.request pid)

theorem served_append {Choice : Type} {front : List (Action Req Choice)} {pid : Nat}
    {request : Req} (known : served front pid = some request) (back : List (Action Req Choice)) :
    served (front ++ back) pid = some request := by
  rw [served, List.findSome?_append, ← served, known]
  rfl

namespace Config

variable {M : Machine I}

theorem run_snoc (handler : Req → Program I A) (config : Config M A)
    (actions : List (Action Req M.Choice)) (action : Action Req M.Choice) :
    config.run handler (actions ++ [action]) = (config.run handler actions).step handler action := by
  rw [run_append]
  rfl

theorem run_procs (handler : Req → Program I A) (state : M.State)
    (actions : List (Action Req M.Choice)) (pid : Nat) :
    (((initial M A state).run handler actions).procs pid).isSome = (served actions pid).isSome := by
  induction actions using List.reverseRecOn with
  | nil => rfl
  | append_singleton actions action ih =>
      rw [run_snoc, served, List.findSome?_append, ← served, Option.isSome_or, ← ih]
      cases action with
      | start other request =>
          by_cases same : other = pid
          · simp only [step, List.findSome?_cons, Action.request, same, if_true, Option.isSome_some,
              Bool.or_true]
            split
            · rename_i present
              rw [present]
              rfl
            · simp [setProc]
          · simp only [step, List.findSome?_cons, Action.request, same, if_false,
              List.findSome?_nil, Option.isSome_none, Bool.or_false]
            split
            · rfl
            · simp [setProc, Ne.symm same]
      | move other move =>
          simp only [step, List.findSome?_cons, Action.request, List.findSome?_nil,
            Option.isSome_none, Bool.or_false]
          split
          · rfl
          · rename_i process present
            simp only [setProc]
            split
            · rename_i same
              rw [same, present]
              rfl
            · rfl

def carries (config : Config M A) : Action Req M.Choice → Option (Carried M)
  | .start _ _ => none
  | .move pid move =>
      (config.procs pid).bind fun process =>
        (M.carries process move).map fun call => ⟨pid, call.1, call.2⟩

theorem step_state (handler : Req → Program I A) (config : Config M A)
    (action : Action Req M.Choice) :
    (config.step handler action).state =
      match config.carries action with
      | none => config.state
      | some call => (M.exec call.choice call.op config.state).1 := by
  cases action with
  | start pid request =>
      simp only [step, carries]
      split <;> rfl
  | move pid move =>
      simp only [step, carries]
      cases found : config.procs pid with
      | none => rfl
      | some process =>
          simp only [Option.bind_some, M.step_state]
          cases M.carries process move <;> rfl

section
variable {handler : Req → Program I A} {config : Config M A} {actions : List (Action Req M.Choice)}
  {action : Action Req M.Choice}

theorem run_silent (carried : (config.run handler actions).carries action = none) :
    (config.run handler (actions ++ [action])).state = (config.run handler actions).state := by
  rw [run_snoc, step_state, carried]

theorem run_calls {call : Carried M}
    (carried : (config.run handler actions).carries action = some call) :
    (config.run handler (actions ++ [action])).state =
      (M.exec call.choice call.op (config.run handler actions).state).1 := by
  rw [run_snoc, step_state, carried]

end

def Recorded (handler : Req → Program I A) (start : Config M A)
    (actions : List (Action Req M.Choice)) (pid : Nat) (entry : Asked I) : Prop :=
  ∃ front action back choice, actions = front ++ action :: back ∧
    (start.run handler front).carries action = some ⟨pid, choice, entry.op⟩ ∧
    entry.value = (M.exec choice entry.op (start.run handler front).state).2

theorem Recorded.later {handler : Req → Program I A} {start : Config M A}
    {actions : List (Action Req M.Choice)} {pid : Nat} {entry : Asked I}
    (recorded : Recorded handler start actions pid entry) (more : List (Action Req M.Choice)) :
    Recorded handler start (actions ++ more) pid entry := by
  obtain ⟨front, action, back, choice, rfl, carried, value⟩ := recorded
  exact ⟨front, action, back ++ more, choice, by simp, carried, value⟩

end Config

/-- All that can still run of a process stays within a footprint, given answers that
were recorded. -/
structure Process.Obeys (F : Footprint I) (recorded : Asked I → Prop) (process : Process I A) :
    Prop where
  main : ∃ past, (∀ entry ∈ past, recorded entry) ∧ process.main.Obeys F (fun _ _ => True) past
  tasks : ∀ task ∈ process.tasks, ∃ past, (∀ entry ∈ past, recorded entry) ∧
    task.rest.Obeys F (fun _ _ => True) past

namespace Process.Obeys

variable {F : Footprint I} {recorded wider : Asked I → Prop} {process : Process I A}
  {M : Machine I}

theorem mono (obeys : process.Obeys F recorded) (wide : ∀ entry, recorded entry → wider entry) :
    process.Obeys F wider := by
  obtain ⟨⟨past, known, main⟩, tasks⟩ := obeys
  refine ⟨⟨past, fun entry member => wide entry (known entry member), main⟩, ?_⟩
  intro task member
  obtain ⟨past, known, rest⟩ := tasks task member
  exact ⟨past, fun entry member => wide entry (known entry member), rest⟩

theorem carries (obeys : process.Obeys F recorded) {move : Move M.Choice} {choice : M.Choice}
    {op : I.Op} (carried : M.carries process move = some (choice, op)) :
    ∃ past, (∀ entry ∈ past, recorded entry) ∧ F.Calls past op := by
  cases move with
  | main choice =>
      simp only [Machine.carries] at carried
      split at carried
      · cases carried
      · split at carried
        · rename_i head
          cases carried
          obtain ⟨past, known, main⟩ := obeys.main
          rw [head] at main
          exact ⟨past, known, main.1⟩
        · cases carried
  | task id choice =>
      simp only [Machine.carries] at carried
      split at carried
      · cases carried
      · rename_i task found
        split at carried
        · cases carried
        · split at carried
          · rename_i head
            cases carried
            obtain ⟨past, known, rest⟩ := obeys.tasks task (List.mem_of_getElem? found)
            rw [head] at rest
            exact ⟨past, known, rest.1⟩
          · cases carried
  | abort id => cases carried
  | drop => cases carried

theorem step (obeys : process.Obeys F recorded)
    (covers : ∀ job, F.Jobs job → (M.body job).Obeys F (fun _ _ => True) [])
    (state : M.State) (move : Move M.Choice)
    (wide : ∀ entry, recorded entry → wider entry)
    (grows : ∀ choice op, M.carries process move = some (choice, op) →
      wider ⟨op, (M.exec choice op state).2⟩) :
    (M.step state process move).2.Obeys F wider := by
  have held := obeys.mono wide
  cases move with
  | main choice =>
      simp only [Machine.step]
      split
      · exact held
      · rename_i live
        have live : process.dropped = false := by simpa using live
        unfold Machine.stepMain
        cases head : process.main with
        | done result => exact held
        | call op next =>
            obtain ⟨past, known, main⟩ := held.main
            rw [head] at main
            refine ⟨⟨past ++ [_], ?_, main.2 _⟩, held.tasks⟩
            intro entry member
            rcases List.mem_append.mp member with old | new
            · exact known entry old
            · rw [List.mem_singleton.mp new]
              exact grows choice op (by simp [Machine.carries, live, head])
        | spawn job next =>
            obtain ⟨past, known, main⟩ := held.main
            rw [head] at main
            refine ⟨⟨past, known, main.2 _⟩, ?_⟩
            intro task member
            rcases List.mem_append.mp member with old | new
            · exact held.tasks task old
            · rw [List.mem_singleton.mp new]
              exact ⟨[], by simp, covers job main.1⟩
        | join ids next =>
            obtain ⟨past, known, main⟩ := held.main
            rw [head] at main
            simp only
            split
            · split
              · exact ⟨⟨past, known, main _ _⟩, held.tasks⟩
              · exact held
            · exact held
  | task id choice =>
      simp only [Machine.step]
      split
      · exact held
      · rename_i task found
        split
        · exact held
        · rename_i kept
          refine ⟨held.main, fun other member => ?_⟩
          rcases List.mem_or_eq_of_mem_set member with old | rfl
          · exact held.tasks other old
          · obtain ⟨past, known, rest⟩ := held.tasks task (List.mem_of_getElem? found)
            unfold Machine.stepTask
            split
            · exact ⟨past, known, rest⟩
            · rename_i live
              split
              · rename_i op next head
                rw [head] at rest
                refine ⟨past ++ [_], ?_, rest.2 _⟩
                intro entry member
                rcases List.mem_append.mp member with old | new
                · exact known entry old
                · rw [List.mem_singleton.mp new]
                  refine grows choice op ?_
                  simp only [Bool.not_eq_true] at kept live
                  simp [Machine.carries, found, kept, live, head]
              · exact ⟨past, known, rest⟩
  | abort id =>
      simp only [Machine.step]
      split
      · exact held
      · rename_i task found
        split
        · refine ⟨held.main, fun other member => ?_⟩
          rcases List.mem_or_eq_of_mem_set member with old | rfl
          · exact held.tasks other old
          · exact held.tasks task (List.mem_of_getElem? found)
        · exact held
  | drop => exact ⟨held.main, held.tasks⟩

end Process.Obeys

section Runs
variable {M : Machine I} {F : Req → Footprint I} {handler : Req → Program I A} {state : M.State}

/-- Every process of a run stays within the footprint of the request it answers. -/
theorem Config.run_obeys (stays : ∀ request, (handler request).Stays (F request))
    (covers : ∀ request job, (F request).Jobs job → (M.body job).Stays (F request))
    (actions : List (Action Req M.Choice)) (pid : Nat) (process : Process I A)
    (found : ((Config.initial M A state).run handler actions).procs pid = some process) :
    ∃ request, served actions pid = some request ∧
      process.Obeys (F request) (Config.Recorded handler (Config.initial M A state) actions pid) := by
  induction actions using List.reverseRecOn generalizing pid process with
  | nil => cases found
  | append_singleton actions action ih =>
      rw [Config.run_snoc] at found
      have old : ∀ other another,
          ((Config.initial M A state).run handler actions).procs other = some another →
          ∃ request, served (actions ++ [action]) other = some request ∧ another.Obeys (F request)
            (Config.Recorded handler (Config.initial M A state) (actions ++ [action]) other) := by
        intro other another present
        obtain ⟨request, started, within⟩ := ih other another present
        exact ⟨request, served_append started _, within.mono fun entry recorded =>
          recorded.later [action]⟩
      cases action with
      | start new request =>
          simp only [Config.step] at found
          split at found
          · exact old pid process found
          · rename_i free
            simp only [Config.setProc] at found
            split at found
            · rename_i same
              subst same
              cases found
              have first : served actions pid = none := by
                have none := Config.run_procs handler state actions pid
                rw [free] at none
                simpa using none.symm
              refine ⟨request, ?_, ⟨[], by simp, stays request []⟩, by simp [Process.start]⟩
              rw [served, List.findSome?_append, ← served, first]
              simp [Action.request]
            · exact old pid process found
      | move moved move =>
          simp only [Config.step] at found
          split at found
          · exact old pid process found
          · rename_i before present
            simp only [Config.setProc] at found
            split at found
            · rename_i same
              subst same
              cases found
              obtain ⟨request, started, within⟩ := ih pid before present
              refine ⟨request, served_append started _, ?_⟩
              refine within.step (fun job started => covers request job started []) _ move
                (fun entry recorded => recorded.later [_]) ?_
              intro choice op carried
              refine ⟨actions, .move pid move, [], choice, rfl, ?_, rfl⟩
              simp only [Config.carries, present, Option.bind_some, carried, Option.map_some]
            · exact old pid process found

/-- Every call of a run is one that the request it serves may make, given what that
request was answered before. -/
theorem Config.carries_obeys (stays : ∀ request, (handler request).Stays (F request))
    (covers : ∀ request job, (F request).Jobs job → (M.body job).Stays (F request))
    {actions : List (Action Req M.Choice)} {action : Action Req M.Choice} {call : Carried M}
    (carried : ((Config.initial M A state).run handler actions).carries action = some call) :
    ∃ request past, served actions call.pid = some request ∧ (F request).Calls past call.op ∧
      ∀ entry ∈ past,
        Config.Recorded handler (Config.initial M A state) actions call.pid entry := by
  cases action with
  | start pid request => cases carried
  | move pid move =>
      obtain ⟨process, present, inner⟩ := Option.bind_eq_some_iff.mp carried
      obtain ⟨⟨choice, op⟩, made, rfl⟩ := Option.map_eq_some_iff.mp inner
      obtain ⟨request, started, within⟩ := Config.run_obeys stays covers actions pid process present
      obtain ⟨past, known, allowed⟩ := within.carries made
      exact ⟨request, past, started, allowed, known⟩

theorem Config.Recorded.asked {actions : List (Action Req M.Choice)} {pid : Nat}
    {entry : Asked I} {request : Req}
    (recorded : Config.Recorded handler (Config.initial M A state) actions pid entry)
    (answers : served actions pid = some request) :
    ∃ front action back choice, actions = front ++ action :: back ∧
      served front pid = some request ∧
      ((Config.initial M A state).run handler front).carries action =
        some ⟨pid, choice, entry.op⟩ ∧
      entry.value =
        (M.exec choice entry.op ((Config.initial M A state).run handler front).state).2 := by
  obtain ⟨front, action, back, choice, rfl, carried, value⟩ := recorded
  refine ⟨front, action, back, choice, rfl, ?_, carried, value⟩
  have running : (served front pid).isSome := by
    rw [← Config.run_procs handler state front pid]
    cases action with
    | start other request => cases carried
    | move other move =>
        obtain ⟨process, present, inner⟩ := Option.bind_eq_some_iff.mp carried
        obtain ⟨_, _, same⟩ := Option.map_eq_some_iff.mp inner
        have number : other = pid := congrArg Carried.pid same
        rw [← number, present]
        rfl
  obtain ⟨first, known⟩ := Option.isSome_iff_exists.mp running
  rw [served_append known] at answers
  rw [known, answers]

theorem Config.run_keeps {P : Req → Process I A → Prop}
    (starts : ∀ request, P request (.start (handler request)))
    (keeps : ∀ request state process move, P request process →
      P request (M.step state process move).2)
    (actions : List (Action Req M.Choice)) (pid : Nat) (process : Process I A)
    (found : ((Config.initial M A state).run handler actions).procs pid = some process) :
    ∃ request, served actions pid = some request ∧ P request process := by
  induction actions using List.reverseRecOn generalizing process with
  | nil => cases found
  | append_singleton actions action ih =>
      rw [Config.run_snoc] at found
      have old (present : ((Config.initial M A state).run handler actions).procs pid =
          some process) : ∃ request, served (actions ++ [action]) pid = some request ∧
            P request process := by
        obtain ⟨request, started, kept⟩ := ih process present
        exact ⟨request, served_append started _, kept⟩
      cases action with
      | start new request =>
          simp only [Config.step] at found
          split at found
          · exact old found
          · rename_i free
            simp only [Config.setProc] at found
            split at found
            · rename_i same
              subst same
              cases found
              have first : served actions pid = none := by
                have none := Config.run_procs handler state actions pid
                rw [free] at none
                simpa using none.symm
              refine ⟨request, ?_, starts request⟩
              rw [served, List.findSome?_append, ← served, first]
              simp [Action.request]
            · exact old found
      | move moved move =>
          simp only [Config.step] at found
          split at found
          · exact old found
          · rename_i before present
            simp only [Config.setProc] at found
            split at found
            · rename_i same
              subst same
              cases found
              obtain ⟨request, started, kept⟩ := ih before present
              exact ⟨request, served_append started _, keeps request _ before move kept⟩
            · exact old found

theorem Program.Obeys.step {F : Footprint I} {post : A → List (Asked I) → Prop}
    {process : Process I A} (obeys : process.main.Obeys F post process.asked) (state : M.State)
    (move : Move M.Choice) :
    (M.step state process move).2.main.Obeys F post (M.step state process move).2.asked := by
  cases move with
  | main choice =>
      simp only [Machine.step]
      split
      · exact obeys
      · unfold Machine.stepMain
        cases head : process.main with
        | done result => exact obeys
        | call op next =>
            rw [head] at obeys
            exact obeys.2 _
        | spawn job next =>
            rw [head] at obeys
            exact obeys.2 _
        | join ids next =>
            rw [head] at obeys
            simp only
            split
            · split
              · exact obeys _ _
              · rw [head]
                exact obeys
            · rw [head]
              exact obeys
  | task id choice =>
      simp only [Machine.step]
      split
      · exact obeys
      · split <;> exact obeys
  | abort id =>
      simp only [Machine.step]
      split
      · exact obeys
      · split <;> exact obeys
  | drop => exact obeys

/-- What a request is answered agrees with what its process was answered before. -/
theorem Config.answer_agrees {F : Footprint I} {post : A → List (Asked I) → Prop}
    {actions : List (Action Req M.Choice)} {pid : Nat} {request : Req} {process : Process I A}
    {result : A} (answers : served actions pid = some request)
    (obeys : (handler request).Obeys F post [])
    (found : ((Config.initial M A state).run handler actions).procs pid = some process)
    (answered : process.answer = some result) : post result process.asked := by
  obtain ⟨known, given, main⟩ := Config.run_keeps
    (P := fun request process => (handler request).Obeys F post [] →
      process.main.Obeys F post process.asked)
    (fun _ obeys => obeys) (fun _ state _ move kept obeys => (kept obeys).step state move)
    actions pid process found
  cases answers.symm.trans given
  have ended := main obeys
  rw [Program.result?_eq answered] at ended
  exact ended

end Runs
end MbxCache.Concurrent
