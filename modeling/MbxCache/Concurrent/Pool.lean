import MbxCache.Concurrent.Logic

/-! Any number of processes over one shared state, in any interleaving. -/

namespace MbxCache.Concurrent

variable {I : Interface} {A B Req : Type}

structure Config (M : Machine I) (A : Type) where
  state : M.State
  procs : Nat → Option (Process I A)

inductive Action (Req Choice : Type)
  | start (pid : Nat) (request : Req)
  | move (pid : Nat) (move : Move Choice)

namespace Config

def initial (M : Machine I) (A : Type) (state : M.State) : Config M A := ⟨state, fun _ => none⟩

variable {M : Machine I}

def setProc (config : Config M A) (pid : Nat) (process : Process I A) :
    Nat → Option (Process I A) :=
  fun other => if other = pid then some process else config.procs other

/-- A disabled action changes nothing. -/
def step (handler : Req → Program I A) (config : Config M A) :
    Action Req M.Choice → Config M A
  | .start pid request =>
      match config.procs pid with
      | some _ => config
      | none => ⟨config.state, config.setProc pid (.start (handler request))⟩
  | .move pid move =>
      match config.procs pid with
      | none => config
      | some process =>
          ⟨(M.step config.state process move).1,
            config.setProc pid (M.step config.state process move).2⟩

theorem step_start {handler other : Req → Program I A} {request : Req}
    (same : handler request = other request) (config : Config M A) (pid : Nat) :
    config.step handler (.start pid request) = config.step other (.start pid request) := by
  simp only [step, same]

def run (handler : Req → Program I A) (config : Config M A)
    (actions : List (Action Req M.Choice)) : Config M A :=
  actions.foldl (step handler) config

theorem run_cons (handler : Req → Program I A) (config : Config M A) (action : Action Req M.Choice)
    (actions : List (Action Req M.Choice)) :
    config.run handler (action :: actions) = (config.step handler action).run handler actions :=
  List.foldl_cons

theorem run_append (handler : Req → Program I A) (config : Config M A)
    (front back : List (Action Req M.Choice)) :
    run handler config (front ++ back) = run handler (run handler config front) back :=
  List.foldl_append

inductive About (M : Machine I) (process : Process I A) (op : I.Op) : Prop
  | main (next : I.Val op → Program I A) (live : process.dropped = false)
      (head : process.main = .call op next)
  | task (task : Task I) (next : I.Val op → Program I I.Out) (member : task ∈ process.tasks)
      (live : task.aborted = false) (kept : (process.halted && !M.detached task.job) = false)
      (head : task.rest = .call op next)

end Config

/-- How the processes of a pool share the state: what always holds of it, how it
may change, and what a process working for `who` may ask when. -/
structure Discipline (M : Machine I) (Who : Type) where
  Inv : M.State → Prop
  Rely : M.State → M.State → Prop
  Allowed : Who → I.Op → M.State → Prop
  Starts : Who → I.Job → M.State → Prop
  refl : ∀ s, Rely s s
  trans : ∀ {r s t}, Rely r s → Rely s t → Rely r t
  sound : ∀ {who op s} choice, Inv s → Allowed who op s →
    Inv (M.exec choice op s).1 ∧ Rely s (M.exec choice op s).1

namespace Discipline

variable {M : Machine I} {Who : Type} (D : Discipline M Who)

/-- The surroundings of a program working for `who`. -/
def logic (who : Who) : Logic I {s : M.State // D.Inv s} where
  Later s s' := D.Rely s.1 s'.1
  Calls op s := D.Allowed who op s.1
  Called op s value s' := ∃ choice, M.exec choice op s.1 = (s'.1, value)
  Spawns job s := D.Starts who job s.1
  Spawned _ s _ s' := s = s'
  Joins _ _ := True
  Joined _ s _ _ s' := s = s'
  refl s := D.refl s.1
  trans := D.trans

def Safe (who : Who) (p : Program I A) (post : A → {s : M.State // D.Inv s} → Prop)
    (s : {s : M.State // D.Inv s}) : Prop := (D.logic who).Safe p post s

def Ensures {ε : Type} (who : Who) (p : Program I (Except ε A))
    (post : A → {s : M.State // D.Inv s} → Prop) (s : {s : M.State // D.Inv s}) : Prop :=
  D.Safe who p (fun result s => ∀ value, result = .ok value → post value s) s

def Covers : Prop := ∀ who job s, D.Starts who job s.1 → D.Safe who (M.body job) (fun _ _ => True) s

/-- What a discipline promises of a process: all that can still run of it is safe. -/
structure Follows (who : Who) (process : Process I A) (post : A → {s : M.State // D.Inv s} → Prop)
    (s : {s : M.State // D.Inv s}) : Prop where
  main : D.Safe who process.main post s
  tasks : ∀ task ∈ process.tasks, D.Safe who task.rest (fun _ _ => True) s

variable {D}

theorem Safe.later {who : Who} {p : Program I A} {post : A → {s : M.State // D.Inv s} → Prop}
    {s s' : {s : M.State // D.Inv s}} (safe : D.Safe who p post s) (rely : D.Rely s.1 s'.1) :
    D.Safe who p post s' := Logic.Safe.later safe rely

theorem Safe.remember {who : Who} {p : Program I A} {post : A → {s : M.State // D.Inv s} → Prop}
    {s : {s : M.State // D.Inv s}} (safe : D.Safe who p post s) :
    D.Safe who p (fun result s' => D.Rely s.1 s'.1 ∧ post result s') s := by
  suffices general : ∀ (s start : {s : M.State // D.Inv s}), D.Rely start.1 s.1 →
      D.Safe who p post s → D.Safe who p (fun result s' => D.Rely start.1 s'.1 ∧ post result s') s
    from general s s (D.refl s.1) safe
  clear safe
  induction p with
  | done result =>
      intro s start before safe s' later
      exact ⟨D.trans before later, safe s' later⟩
  | call op next ih =>
      intro s start before safe s' later
      obtain ⟨allowed, rest⟩ := safe s' later
      refine ⟨allowed, fun value after called => ih value after start ?_ (rest value after called)⟩
      obtain ⟨choice, executed⟩ := called
      have changed := (D.sound choice s'.2 allowed).2
      rw [executed] at changed
      exact D.trans before (D.trans later changed)
  | spawn job next ih =>
      intro s start before safe s' later
      obtain ⟨allowed, rest⟩ := safe s' later
      refine ⟨allowed, fun id after spawned => ih id after start ?_ (rest id after spawned)⟩
      cases spawned
      exact D.trans before later
  | join ids next ih =>
      intro s start before safe s' later
      obtain ⟨allowed, rest⟩ := safe s' later
      refine ⟨allowed, fun id out after joined =>
        ih id out after start ?_ (rest id out after joined)⟩
      cases joined
      exact D.trans before later

theorem Safe.bind {who : Who} {p : Program I A} {next : A → Program I B}
    {mid : A → {s : M.State // D.Inv s} → Prop} {post : B → {s : M.State // D.Inv s} → Prop}
    {s : {s : M.State // D.Inv s}} (first : D.Safe who p mid s)
    (rest : ∀ result s', D.Rely s.1 s'.1 → mid result s' → D.Safe who (next result) post s') :
    D.Safe who (p.bind next) post s :=
  Logic.Safe.seq first.remember fun result s' known => rest result s' known.1 known.2

theorem Safe.call {who : Who} {op : I.Op} {next : I.Val op → Program I A}
    {post : A → {s : M.State // D.Inv s} → Prop} {s : {s : M.State // D.Inv s}}
    (allowed : ∀ s', D.Rely s.1 s' → D.Inv s' → D.Allowed who op s')
    (rest : ∀ (before after : {s : M.State // D.Inv s}) choice, D.Rely s.1 before.1 →
      D.Rely before.1 after.1 → after.1 = (M.exec choice op before.1).1 →
      D.Safe who (next (M.exec choice op before.1).2) post after) :
    D.Safe who (.call op next) post s := by
  intro s' later
  have asks := allowed s'.1 later s'.2
  refine ⟨asks, fun value after called => ?_⟩
  obtain ⟨choice, executed⟩ := called
  have changed := (D.sound choice s'.2 asks).2
  have next := rest s' after choice later (by rw [executed] at changed; exact changed)
    (by rw [executed])
  rw [executed] at next
  exact next

theorem Safe.spawn {who : Who} {job : I.Job} {next : Nat → Program I A}
    {post : A → {s : M.State // D.Inv s} → Prop} {s : {s : M.State // D.Inv s}}
    (starts : ∀ s' : {s : M.State // D.Inv s}, D.Rely s.1 s'.1 → D.Starts who job s'.1)
    (rest : ∀ id (s' : {s : M.State // D.Inv s}), D.Rely s.1 s'.1 →
      D.Safe who (next id) post s') : D.Safe who (.spawn job next) post s := by
  intro s' later
  refine ⟨starts s' later, fun id after spawned => ?_⟩
  cases spawned
  exact rest id s' later

theorem Safe.join {who : Who} {ids : List Nat} {next : Nat → Option I.Out → Program I A}
    {post : A → {s : M.State // D.Inv s} → Prop} {s : {s : M.State // D.Inv s}}
    (rest : ∀ id out (s' : {s : M.State // D.Inv s}), D.Rely s.1 s'.1 →
      D.Safe who (next id out) post s') : D.Safe who (.join ids next) post s := by
  intro s' later
  refine ⟨trivial, fun id out after joined => ?_⟩
  cases joined
  exact rest id out s' later

theorem Safe.done {who : Who} {result : A} {post : A → {s : M.State // D.Inv s} → Prop}
    {s : {s : M.State // D.Inv s}}
    (holds : ∀ s' : {s : M.State // D.Inv s}, D.Rely s.1 s'.1 → post result s') :
    D.Safe who (.done result) post s := holds

theorem Ensures.later {ε : Type} {who : Who} {p : Program I (Except ε A)}
    {post : A → {s : M.State // D.Inv s} → Prop} {s s' : {s : M.State // D.Inv s}}
    (ensures : D.Ensures who p post s) (rely : D.Rely s.1 s'.1) : D.Ensures who p post s' :=
  Safe.later ensures rely

theorem Ensures.bind {ε : Type} {who : Who} {p : Program I (Except ε A)}
    {next : A → Program I (Except ε B)} {mid : A → {s : M.State // D.Inv s} → Prop}
    {post : B → {s : M.State // D.Inv s} → Prop} {s : {s : M.State // D.Inv s}}
    (first : D.Ensures who p mid s)
    (rest : ∀ value s', D.Rely s.1 s'.1 → mid value s' → D.Ensures who (next value) post s') :
    D.Ensures who (p.bindOk next) post s := by
  apply Safe.bind first
  intro result s' later known
  cases result with
  | error error =>
      intro _ _ _ same
      cases same
  | ok value => exact rest value s' later (known value rfl)

theorem Ensures.answer {ε : Type} {who : Who} {result : Except ε A}
    {post : A → {s : M.State // D.Inv s} → Prop} {s : {s : M.State // D.Inv s}}
    (holds : ∀ value (s' : {s : M.State // D.Inv s}), result = .ok value → D.Rely s.1 s'.1 →
      post value s') : D.Ensures who (.done result) post s :=
  fun s' later value same => holds value s' same later

theorem Ensures.error {ε : Type} {who : Who} {error : ε}
    {post : A → {s : M.State // D.Inv s} → Prop} {s : {s : M.State // D.Inv s}} :
    D.Ensures who (.done (.error error)) post s := by
  intro _ _ _ same
  cases same

theorem Ensures.mono {ε : Type} {who : Who} {p : Program I (Except ε A)}
    {post post' : A → {s : M.State // D.Inv s} → Prop} {s : {s : M.State // D.Inv s}}
    (ensures : D.Ensures who p post s) (weaker : ∀ value s', post value s' → post' value s') :
    D.Ensures who p post' s :=
  Logic.Safe.mono ensures fun _ s' known value same => weaker value s' (known value same)

theorem Follows.later {who : Who} {process : Process I A}
    {post : A → {s : M.State // D.Inv s} → Prop} {s s' : {s : M.State // D.Inv s}}
    (follows : D.Follows who process post s) (rely : D.Rely s.1 s'.1) :
    D.Follows who process post s' :=
  ⟨follows.main.later rely, fun task member => (follows.tasks task member).later rely⟩

theorem Follows.about {who : Who} {process : Process I A}
    {post : A → {s : M.State // D.Inv s} → Prop} {s : {s : M.State // D.Inv s}} {op : I.Op}
    (follows : D.Follows who process post s) (about : Config.About M process op) :
    D.Allowed who op s.1 := by
  cases about with
  | main next live head =>
      have safe := follows.main
      rw [head] at safe
      exact (safe s (D.refl s.1)).1
  | task task next member live kept head =>
      have safe := follows.tasks task member
      rw [head] at safe
      exact (safe s (D.refl s.1)).1

structure Keeps (s : {s : M.State // D.Inv s}) (after : M.State) : Prop where
  inv : D.Inv after
  rely : D.Rely s.1 after

theorem Keeps.same (s : {s : M.State // D.Inv s}) : @Keeps I M Who D s s.1 := ⟨s.2, D.refl s.1⟩

def Continues (D : Discipline M Who) (who : Who)
    (post : A → {s : M.State // D.Inv s} → Prop) (s : {s : M.State // D.Inv s})
    (after : M.State × Process I A) : Prop :=
  ∃ keeps : @Keeps I M Who D s after.1, D.Follows who after.2 post ⟨after.1, keeps.inv⟩

theorem Follows.same {who : Who} {process : Process I A}
    {post : A → {s : M.State // D.Inv s} → Prop} {s : {s : M.State // D.Inv s}}
    (follows : D.Follows who process post s) : D.Continues who post s (s.1, process) :=
  ⟨.same s, follows⟩

theorem safe_call {who : Who} {op : I.Op} {next : I.Val op → Program I A}
    {post : A → {s : M.State // D.Inv s} → Prop} {s : {s : M.State // D.Inv s}}
    (safe : D.Safe who (.call op next) post s) (choice : M.Choice) :
    ∃ keeps : @Keeps I M Who D s (M.exec choice op s.1).1,
      D.Safe who (next (M.exec choice op s.1).2) post ⟨_, keeps.inv⟩ := by
  obtain ⟨allowed, rest⟩ := safe s (D.refl s.1)
  obtain ⟨inv, rely⟩ := D.sound choice s.2 allowed
  exact ⟨⟨inv, rely⟩, rest _ ⟨_, inv⟩ ⟨choice, rfl⟩⟩

theorem Follows.stepMain {who : Who} {process : Process I A}
    {post : A → {s : M.State // D.Inv s} → Prop} {s : {s : M.State // D.Inv s}}
    (covers : D.Covers) (follows : D.Follows who process post s) (choice : M.Choice) :
    D.Continues who post s (M.stepMain choice s.1 process) := by
  have safe := follows.main
  unfold Machine.stepMain
  cases head : process.main with
  | done result => exact follows.same
  | call op next =>
      rw [head] at safe
      obtain ⟨keeps, rest⟩ := safe_call safe choice
      exact ⟨keeps, rest, fun task member => (follows.tasks task member).later keeps.rely⟩
  | spawn job next =>
      rw [head] at safe
      obtain ⟨allowed, rest⟩ := safe s (D.refl s.1)
      refine ⟨.same s, rest _ s rfl, ?_⟩
      intro task member
      simp only [List.mem_append, List.mem_singleton] at member
      rcases member with old | rfl
      · exact follows.tasks task old
      · exact covers who job s allowed
  | join ids next =>
      rw [head] at safe
      obtain ⟨_, rest⟩ := safe s (D.refl s.1)
      simp only
      split
      · split
        · exact ⟨.same s, rest _ _ s rfl, follows.tasks⟩
        · exact follows.same
      · exact follows.same

theorem Follows.stepTask {who : Who} {task : Task I} {s : {s : M.State // D.Inv s}}
    (safe : D.Safe who task.rest (fun _ _ => True) s) (choice : M.Choice) :
    ∃ keeps : @Keeps I M Who D s (M.stepTask choice s.1 task).1,
      D.Safe who (M.stepTask choice s.1 task).2.rest (fun _ _ => True) ⟨_, keeps.inv⟩ := by
  unfold Machine.stepTask
  split
  · exact ⟨.same s, safe⟩
  · split
    · rename_i op next head
      rw [head] at safe
      exact safe_call safe choice
    · exact ⟨.same s, safe⟩

theorem Follows.step {who : Who} {process : Process I A}
    {post : A → {s : M.State // D.Inv s} → Prop} {s : {s : M.State // D.Inv s}}
    (covers : D.Covers) (follows : D.Follows who process post s) (move : Move M.Choice) :
    D.Continues who post s (M.step s.1 process move) := by
  cases move with
  | main choice =>
      simp only [Machine.step]
      split
      · exact follows.same
      · exact follows.stepMain covers choice
  | task id choice =>
      simp only [Machine.step]
      split
      · exact follows.same
      · rename_i task found
        have member : task ∈ process.tasks := List.mem_of_getElem? found
        split
        · exact follows.same
        · obtain ⟨keeps, rest⟩ := Follows.stepTask (follows.tasks task member) choice
          refine ⟨keeps, follows.main.later keeps.rely, ?_⟩
          intro other present
          rcases List.mem_or_eq_of_mem_set present with old | rfl
          · exact (follows.tasks other old).later keeps.rely
          · exact rest
  | abort id =>
      simp only [Machine.step]
      split
      · exact follows.same
      · rename_i task found
        split
        · refine ⟨.same s, follows.main, ?_⟩
          intro other present
          rcases List.mem_or_eq_of_mem_set present with old | rfl
          · exact follows.tasks other old
          · exact follows.tasks task (List.mem_of_getElem? found)
        · exact follows.same
  | drop => exact ⟨.same s, follows.main, follows.tasks⟩

/-- In a configuration the shared invariant holds and every process follows the
discipline for some party. -/
structure Disciplined (D : Discipline M Who) (post : A → {s : M.State // D.Inv s} → Prop)
    (party : Nat → Who → Prop) (config : Config M A) : Prop where
  inv : D.Inv config.state
  follows : ∀ pid process, config.procs pid = some process →
    ∃ who, party pid who ∧ D.Follows who process post ⟨config.state, inv⟩

theorem Disciplined.step {post : A → {s : M.State // D.Inv s} → Prop}
    {party : Nat → Who → Prop} {config : Config M A} (covers : D.Covers)
    (handler : Req → Program I A)
    (disciplined : Disciplined D post party config) (action : Action Req M.Choice)
    (starts : ∀ pid request, action = .start pid request →
      ∃ who, party pid who ∧ ∀ s, D.Safe who (handler request) post s) :
    Disciplined D post party (config.step handler action) ∧
      D.Rely config.state (config.step handler action).state := by
  cases action with
  | start pid request =>
      simp only [Config.step]
      split
      · exact ⟨disciplined, D.refl _⟩
      · refine ⟨⟨disciplined.inv, ?_⟩, D.refl _⟩
        intro other process found
        simp only [Config.setProc] at found
        split at found
        · rename_i same
          subst same
          cases found
          obtain ⟨who, belongs, safe⟩ := starts _ request rfl
          exact ⟨who, belongs, safe _, by simp [Process.start]⟩
        · exact disciplined.follows other process found
  | move pid move =>
      simp only [Config.step]
      split
      · exact ⟨disciplined, D.refl _⟩
      · rename_i process present
        obtain ⟨who, belongs, follows⟩ := disciplined.follows pid process present
        obtain ⟨keeps, after⟩ := follows.step covers move
        refine ⟨⟨keeps.inv, ?_⟩, keeps.rely⟩
        intro other another found
        simp only [Config.setProc] at found
        split at found
        · rename_i same
          subst same
          cases found
          exact ⟨who, belongs, after⟩
        · obtain ⟨party', belongs', before⟩ := disciplined.follows other another found
          exact ⟨party', belongs', before.later keeps.rely⟩

/-- The discipline holds along every run, whatever arrives and in whatever order. -/
theorem Disciplined.run {post : A → {s : M.State // D.Inv s} → Prop}
    {party : Nat → Who → Prop} {config : Config M A} (covers : D.Covers)
    (handler : Req → Program I A) (disciplined : Disciplined D post party config)
    (actions : List (Action Req M.Choice))
    (starts : ∀ pid request, .start pid request ∈ actions →
      ∃ who, party pid who ∧ ∀ s, D.Safe who (handler request) post s) :
    Disciplined D post party (config.run handler actions) ∧
      D.Rely config.state (config.run handler actions).state := by
  induction actions generalizing config with
  | nil => exact ⟨disciplined, D.refl _⟩
  | cons action rest ih =>
      obtain ⟨next, rely⟩ := disciplined.step covers handler action fun pid request same =>
        starts pid request (by simp [same])
      obtain ⟨last, more⟩ := ih next fun pid request member => starts pid request (by simp [member])
      exact ⟨last, D.trans rely more⟩

theorem Disciplined.initial {post : A → {s : M.State // D.Inv s} → Prop}
    {party : Nat → Who → Prop} {state : M.State} (inv : D.Inv state) :
    Disciplined D post party (Config.initial M A state) :=
  ⟨inv, fun _ _ found => by cases found⟩

end Discipline
end MbxCache.Concurrent
