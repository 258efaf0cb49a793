import MbxCache.Concurrent.Abreast

/-! What jobs pledge to those who wait for them, and one process followed through a pool. -/

namespace MbxCache.Concurrent

variable {I : Interface} {A B Req Who : Type} {M : Machine I}

/-- What holds from the moment a job has come to a result, whatever others do then. -/
structure Pledge (D : Discipline M Who) where
  Holds : I.Job → I.Out → M.State → Prop
  stable : ∀ {job out s t}, Holds job out s → D.Rely s t → Holds job out t

namespace Pledge

variable {D : Discipline M Who} (P : Pledge D)

abbrev View (D : Discipline M Who) : Type := {s : M.State // D.Inv s} × List I.Job

def logic (who : Who) : Logic I (View D) where
  Later w w' := D.Rely w.1.1 w'.1.1 ∧ w'.2 = w.2
  Calls op w := D.Allowed who op w.1.1
  Called op w value w' := (∃ choice, M.exec choice op w.1.1 = (w'.1.1, value)) ∧ w'.2 = w.2
  Spawns job w := D.Starts who job w.1.1
  Spawned job w id w' := id = w.2.length ∧ w' = (w.1, w.2 ++ [job])
  Joins _ _ := True
  Joined ids w id out w' := id ∈ ids ∧ w' = w ∧
    ∀ result, out = some result → ∃ job, w.2[id]? = some job ∧ P.Holds job result w.1.1
  refl w := ⟨D.refl w.1.1, rfl⟩
  trans first second := ⟨D.trans first.1 second.1, second.2.trans first.2⟩

def Safe (who : Who) (p : Program I A) (post : A → View D → Prop) (w : View D) : Prop :=
  (P.logic who).Safe p post w

def Honoured : Prop := ∀ who job s, D.Starts who job s.1 →
  D.Safe who (M.body job) (fun out s => P.Holds job out s.1) s

def Reaches (w w' : View D) : Prop := D.Rely w.1.1 w'.1.1 ∧ w.2 <+: w'.2

theorem Reaches.refl (w : View D) : Reaches w w := ⟨D.refl _, List.prefix_rfl⟩

theorem Reaches.trans {u v w : View D} (first : Reaches u v) (second : Reaches v w) :
    Reaches u w := ⟨D.trans first.1 second.1, first.2.trans second.2⟩

theorem Reaches.job {w w' : View D} (reaches : Reaches w w') {id : Nat} {job : I.Job}
    (found : w.2[id]? = some job) : w'.2[id]? = some job := by
  obtain ⟨more, same⟩ := reaches.2
  obtain ⟨bound, rfl⟩ := List.getElem?_eq_some_iff.mp found
  rw [← same, List.getElem?_append_left bound]
  exact found

variable {P} {who : Who} {w : View D}

theorem Safe.later {p : Program I A} {post : A → View D → Prop} {w' : View D}
    (safe : P.Safe who p post w) (later : (P.logic who).Later w w') : P.Safe who p post w' :=
  Logic.Safe.later safe later

theorem Safe.mono {p : Program I A} {post post' : A → View D → Prop}
    (safe : P.Safe who p post w) (weaker : ∀ result w, post result w → post' result w) :
    P.Safe who p post' w := Logic.Safe.mono safe weaker

/-- By the time a program ends, the state has changed only as the discipline lets it, and the
jobs started before are where they were. -/
theorem Safe.remember {p : Program I A} {post : A → View D → Prop} (safe : P.Safe who p post w) :
    P.Safe who p (fun result w' => Reaches w w' ∧ post result w') w := by
  suffices general : ∀ w start : View D, Reaches start w → P.Safe who p post w →
      P.Safe who p (fun result w' => Reaches start w' ∧ post result w') w
    from general w w (.refl w) safe
  clear safe
  have waited : ∀ {start w w' : View D}, Reaches start w → (P.logic who).Later w w' →
      Reaches start w' := by
    intro start w w' before later
    exact before.trans ⟨later.1, later.2 ▸ List.prefix_rfl⟩
  induction p with
  | done result =>
      intro w start before safe w' later
      exact ⟨waited before later, safe w' later⟩
  | call op next ih =>
      intro w start before safe w' later
      obtain ⟨allowed, rest⟩ := safe w' later
      refine ⟨allowed, fun value after called => ih value after start ?_ (rest value after called)⟩
      obtain ⟨⟨choice, executed⟩, jobs⟩ := called
      have changed := (D.sound choice w'.1.2 allowed).2
      rw [executed] at changed
      exact (waited before later).trans ⟨changed, jobs ▸ List.prefix_rfl⟩
  | spawn job next ih =>
      intro w start before safe w' later
      obtain ⟨allowed, rest⟩ := safe w' later
      refine ⟨allowed, fun id after spawned => ih id after start ?_ (rest id after spawned)⟩
      obtain ⟨_, rfl⟩ := spawned
      exact (waited before later).trans ⟨D.refl _, List.prefix_append _ _⟩
  | join ids next ih =>
      intro w start before safe w' later
      obtain ⟨allowed, rest⟩ := safe w' later
      refine ⟨allowed, fun id out after joined =>
        ih id out after start ?_ (rest id out after joined)⟩
      obtain ⟨_, rfl, _⟩ := joined
      exact waited before later

theorem Safe.bind {p : Program I A} {next : A → Program I B} {mid : A → View D → Prop}
    {post : B → View D → Prop} (first : P.Safe who p mid w)
    (rest : ∀ result w', Reaches w w' → mid result w' → P.Safe who (next result) post w') :
    P.Safe who (p.bind next) post w :=
  Logic.Safe.seq first.remember fun result w' known => rest result w' known.1 known.2

theorem Safe.done {result : A} {post : A → View D → Prop}
    (holds : ∀ w', (P.logic who).Later w w' → post result w') :
    P.Safe who (.done result) post w := holds

theorem Safe.spawn {job : I.Job} {next : Nat → Program I A} {post : A → View D → Prop}
    (starts : ∀ w', Reaches w w' → D.Starts who job w'.1.1)
    (rest : ∀ w', Reaches w w' → w'.2[w.2.length]? = some job →
      P.Safe who (next w.2.length) post w') : P.Safe who (.spawn job next) post w := by
  intro w' later
  have reaches : Reaches w w' := ⟨later.1, later.2 ▸ List.prefix_rfl⟩
  refine ⟨starts w' reaches, fun id after spawned => ?_⟩
  obtain ⟨rfl, rfl⟩ := spawned
  rw [later.2]
  refine rest _ (reaches.trans ⟨D.refl _, ?_⟩) ?_
  · exact later.2 ▸ List.prefix_append _ _
  · exact List.getElem?_concat_length

/-- Whoever waits for a job may rely on what it pledged. -/
theorem Safe.join {ids : List Nat} {next : Nat → Option I.Out → Program I A}
    {post : A → View D → Prop}
    (rest : ∀ id out w', id ∈ ids → Reaches w w' →
      (∀ result, out = some result → ∃ job, w'.2[id]? = some job ∧ P.Holds job result w'.1.1) →
      P.Safe who (next id out) post w') : P.Safe who (.join ids next) post w := by
  intro w' later
  refine ⟨trivial, fun id out after joined => ?_⟩
  obtain ⟨member, rfl, pledged⟩ := joined
  exact rest id out _ member ⟨later.1, later.2 ▸ List.prefix_rfl⟩ pledged

theorem Safe.lift {p : Program I A} {post : A → {s : M.State // D.Inv s} → Prop}
    {s : {s : M.State // D.Inv s}} (safe : D.Safe who p post s) (jobs : List I.Job) :
    P.Safe who p (fun result w => post result w.1) (s, jobs) := by
  induction p generalizing s jobs with
  | done result =>
      intro w later
      exact safe w.1 later.1
  | call op next ih =>
      intro w later
      obtain ⟨allowed, rest⟩ := safe w.1 later.1
      exact ⟨allowed, fun value after called => ih value (rest value after.1 called.1) after.2⟩
  | spawn job next ih =>
      intro w later
      obtain ⟨allowed, rest⟩ := safe w.1 later.1
      exact ⟨allowed, fun id after spawned =>
        ih id (rest id after.1 (congrArg Prod.fst spawned.2).symm) after.2⟩
  | join ids next ih =>
      intro w later
      obtain ⟨allowed, rest⟩ := safe w.1 later.1
      exact ⟨allowed, fun id out after joined =>
        ih id out (rest id out after.1 (congrArg Prod.fst joined.2.1).symm) after.2⟩

variable (P) in
/-- All that can still run of a process is safe, and its jobs keep what they pledge. -/
structure Follows (who : Who) (process : Process I A) (post : A → View D → Prop)
    (s : {s : M.State // D.Inv s}) : Prop where
  main : P.Safe who process.main post (s, process.jobs)
  tasks : ∀ task ∈ process.tasks,
    D.Safe who task.rest (fun out s => P.Holds task.job out s.1) s

variable {process : Process I A} {post : A → View D → Prop} {s : {s : M.State // D.Inv s}}

theorem Follows.start {program : Program I A} (safe : P.Safe who program post (s, [])) :
    P.Follows who (.start program) post s := by
  refine ⟨safe, ?_⟩
  intro task member
  cases member

theorem Follows.later {s' : {s : M.State // D.Inv s}} (follows : P.Follows who process post s)
    (rely : D.Rely s.1 s'.1) : P.Follows who process post s' :=
  ⟨follows.main.later ⟨rely, rfl⟩, fun task member => (follows.tasks task member).later rely⟩

theorem Follows.answered (follows : P.Follows who process post s) {result : A}
    (answered : process.answer = some result) : post result (s, process.jobs) := by
  have main := follows.main
  rw [Program.result?_eq answered] at main
  exact main _ ⟨D.refl _, rfl⟩

theorem Follows.ended (follows : P.Follows who process post s) {id : Nat} {task : Task I}
    {out : I.Out} (found : process.tasks[id]? = some task) (ended : task.outcome = some (some out)) :
    process.jobs[id]? = some task.job ∧ P.Holds task.job out s.1 := by
  refine ⟨by rw [Process.jobs, List.getElem?_map, found]; rfl, ?_⟩
  have safe := follows.tasks task (List.mem_of_getElem? found)
  unfold Task.outcome at ended
  split at ended
  · cases ended
  · obtain ⟨result, finished, same⟩ := Option.map_eq_some_iff.mp ended
    cases same
    rw [Program.result?_eq finished] at safe
    exact safe s (D.refl _)

def Continues (P : Pledge D) (who : Who) (post : A → View D → Prop)
    (s : {s : M.State // D.Inv s}) (after : M.State × Process I A) : Prop :=
  ∃ keeps : @Discipline.Keeps I M Who D s after.1, P.Follows who after.2 post ⟨after.1, keeps.inv⟩

theorem Follows.same (follows : P.Follows who process post s) :
    P.Continues who post s (s.1, process) := ⟨.same s, follows⟩

theorem Follows.stepTask {task : Task I}
    (safe : D.Safe who task.rest (fun out s => P.Holds task.job out s.1) s) (choice : M.Choice) :
    ∃ keeps : @Discipline.Keeps I M Who D s (M.stepTask choice s.1 task).1,
      D.Safe who (M.stepTask choice s.1 task).2.rest
        (fun out after => P.Holds (M.stepTask choice s.1 task).2.job out after.1)
        ⟨_, keeps.inv⟩ := by
  unfold Machine.stepTask
  split
  · exact ⟨.same s, safe⟩
  · split
    · rename_i op next head
      rw [head] at safe
      exact Discipline.safe_call safe choice
    · exact ⟨.same s, safe⟩

theorem Follows.stepMain (honoured : P.Honoured) (follows : P.Follows who process post s)
    (choice : M.Choice) : P.Continues who post s (M.stepMain choice s.1 process) := by
  have safe := follows.main
  unfold Machine.stepMain
  cases head : process.main with
  | done result => exact follows.same
  | call op next =>
      rw [head] at safe
      obtain ⟨allowed, rest⟩ := safe _ ⟨D.refl _, rfl⟩
      obtain ⟨inv, rely⟩ := D.sound choice s.2 allowed
      refine ⟨⟨inv, rely⟩, ?_, fun task member => (follows.tasks task member).later rely⟩
      exact rest _ (⟨_, inv⟩, process.jobs) ⟨⟨choice, rfl⟩, rfl⟩
  | spawn job next =>
      rw [head] at safe
      obtain ⟨allowed, rest⟩ := safe _ ⟨D.refl _, rfl⟩
      refine ⟨.same s, ?_, ?_⟩
      · have spawned := rest process.tasks.length (s, process.jobs ++ [job])
          ⟨by simp [Process.jobs], rfl⟩
        simp only [Process.jobs, List.map_append, List.map_cons, List.map_nil] at spawned ⊢
        exact spawned
      · intro task member
        simp only [List.mem_append, List.mem_singleton] at member
        rcases member with old | rfl
        · exact follows.tasks task old
        · exact honoured who job s allowed
  | join ids next =>
      rw [head] at safe
      obtain ⟨_, rest⟩ := safe _ ⟨D.refl _, rfl⟩
      simp only
      split
      · rename_i out ended
        obtain ⟨task, found, ended⟩ := Option.bind_eq_some_iff.mp ended
        split
        · rename_i member
          refine ⟨.same s, rest _ _ _ ⟨member, rfl, ?_⟩, follows.tasks⟩
          rintro result rfl
          exact ⟨task.job, follows.ended found ended⟩
        · exact follows.same
      · exact follows.same

theorem Follows.step (honoured : P.Honoured) (follows : P.Follows who process post s)
    (move : Move M.Choice) : P.Continues who post s (M.step s.1 process move) := by
  cases move with
  | main choice =>
      simp only [Machine.step]
      split
      · exact follows.same
      · exact follows.stepMain honoured choice
  | task id choice =>
      simp only [Machine.step]
      split
      · exact follows.same
      · rename_i task found
        have member : task ∈ process.tasks := List.mem_of_getElem? found
        split
        · exact follows.same
        · obtain ⟨keeps, rest⟩ := Follows.stepTask (follows.tasks task member) choice
          refine ⟨keeps, ?_, ?_⟩
          · have jobs := Solo.Advanced.jobs_set found (Solo.stepTask_job choice s.1 task)
            simp only [Process.jobs] at jobs ⊢
            rw [jobs]
            exact follows.main.later ⟨keeps.rely, rfl⟩
          · intro other present
            rcases List.mem_or_eq_of_mem_set present with old | rfl
            · exact (follows.tasks other old).later keeps.rely
            · exact rest
  | abort id =>
      simp only [Machine.step]
      split
      · exact follows.same
      · rename_i task found
        split
        · refine ⟨.same s, ?_, ?_⟩
          · have same : ({ task with aborted := true } : Task I).job = task.job := rfl
            have jobs := Solo.Advanced.jobs_set found same
            simp only [Process.jobs] at jobs ⊢
            rw [jobs]
            exact follows.main
          · intro other present
            rcases List.mem_or_eq_of_mem_set present with old | rfl
            · exact follows.tasks other old
            · exact follows.tasks task (List.mem_of_getElem? found)
        · exact follows.same
  | drop => exact ⟨.same s, follows.main, follows.tasks⟩

section Pool
variable {handler : Req → Program I A} {config : Config M A} {party : Nat → Who → Prop}
  {known : A → {s : M.State // D.Inv s} → Prop} {pid : Nat}

variable (P) in
structure Watched (known : A → {s : M.State // D.Inv s} → Prop) (party : Nat → Who → Prop)
    (pid : Nat) (who : Who) (post : A → View D → Prop) (config : Config M A) : Prop where
  pool : Discipline.Disciplined D known party config
  watched : ∃ process, config.procs pid = some process ∧
    P.Follows who process post ⟨config.state, pool.inv⟩

theorem Watched.step (honoured : P.Honoured) (covers : D.Covers)
    (watched : P.Watched known party pid who post config) (action : Action Req M.Choice)
    (starts : ∀ pid request, action = .start pid request →
      ∃ who, party pid who ∧ ∀ s, D.Safe who (handler request) known s) :
    P.Watched known party pid who post (config.step handler action) := by
  obtain ⟨pool, rely⟩ := watched.pool.step covers handler action starts
  obtain ⟨process, found, follows⟩ := watched.watched
  by_cases about : pid = action.pid
  · cases action with
    | start started request =>
        obtain rfl : pid = started := about
        refine ⟨pool, process, ?_, follows.later rely⟩
        simp only [Config.step, found]
    | move moved move =>
        obtain rfl : pid = moved := about
        obtain ⟨keeps, after⟩ := follows.step honoured move
        refine ⟨pool, (M.step config.state process move).2, ?_, after.later ?_⟩
        · simp only [Config.step, found]
          exact if_pos rfl
        · simp only [Config.step, found]
          exact D.refl _
  · exact ⟨pool, process, (Config.step_other handler _ action about).trans found,
      follows.later rely⟩

/-- What is known of a process stays known along every run. -/
theorem Watched.run (honoured : P.Honoured) (covers : D.Covers)
    (watched : P.Watched known party pid who post config) (actions : List (Action Req M.Choice))
    (starts : ∀ pid request, .start pid request ∈ actions →
      ∃ who, party pid who ∧ ∀ s, D.Safe who (handler request) known s) :
    P.Watched known party pid who post (config.run handler actions) := by
  induction actions generalizing config with
  | nil => exact watched
  | cons action rest ih =>
      refine ih (watched.step honoured covers action fun pid request same => ?_) ?_
      · exact starts pid request (by simp [same])
      · exact fun pid request member => starts pid request (by simp [member])

theorem Watched.start (covers : D.Covers) {request : Req}
    (pool : Discipline.Disciplined D known party config) (free : config.procs pid = none)
    (starts : ∃ who, party pid who ∧ ∀ s, D.Safe who (handler request) known s)
    (safe : P.Safe who (handler request) post (⟨config.state, pool.inv⟩, [])) :
    P.Watched known party pid who post (config.step handler (.start pid request)) := by
  obtain ⟨after, _⟩ := pool.step covers handler (.start pid request) fun other request' same => by
    cases same
    exact starts
  have begun : config.step handler (.start pid request) =
      ⟨config.state, config.setProc pid (.start (handler request))⟩ := by
    simp only [Config.step, free]
  refine ⟨after, .start (handler request), ?_, ?_⟩
  · rw [begun]
    exact if_pos rfl
  · refine (Follows.start safe).later ?_
    simp only [begun]
    exact D.refl _

end Pool
end Pledge
end MbxCache.Concurrent
