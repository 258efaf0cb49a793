import Mathlib.Algebra.BigOperators.Fin
import Mathlib.Algebra.Order.BigOperators.Group.Finset
import MbxCache.Concurrent.Logic

/-! Actors that hold things while they run. What an actor holds goes with a job that takes it,
and is let go step by step when the actor is dropped or cut off. -/

namespace MbxCache.Concurrent

variable {I : Interface} {A B Req : Type}

/-- What runs programs whose actors hold things. Each step of an actor sees what is shared and
what that actor holds. -/
structure Estate (I : Interface) where
  Shared : Type
  Held : Type
  Choice : Type
  exec : Choice → (op : I.Op) → Shared × List Held → (Shared × List Held) × I.Val op
  pick : Choice → Nat
  body : I.Job → Program I I.Out
  detached : I.Job → Bool
  /-- How many things a job takes with it from the one who starts it. -/
  takes : I.Job → Nat
  /-- One step of letting a thing go, and what is left of it. -/
  letGo : Held → Shared → Shared × Option Held

structure Owner (E : Estate I) (A : Type) where
  process : Process I A
  hand : List E.Held
  hands : List (List E.Held)
  joined : List Nat

inductive Turn (Choice : Type)
  | move (move : Move Choice)
  | letGo
  | letGoJob (id : Nat)

namespace Estate

variable (E : Estate I)

def relinquish (shared : E.Shared) : List E.Held → E.Shared × List E.Held
  | [] => (shared, [])
  | held :: rest => ((E.letGo held shared).1, (E.letGo held shared).2.toList ++ rest)

def start (main : Program I A) : Owner E A := ⟨.start main, [], [], []⟩

/-- The program of an owner takes its next step. A job is waited for until it has let go of all
it held. -/
def stepMain (choice : E.Choice) (shared : E.Shared) (owner : Owner E A) :
    E.Shared × Owner E A :=
  match owner.process.main with
  | .done _ => (shared, owner)
  | .call op next =>
      ((E.exec choice op (shared, owner.hand)).1.1, { owner with
        process := { owner.process with main := next (E.exec choice op (shared, owner.hand)).2 }
        hand := (E.exec choice op (shared, owner.hand)).1.2 })
  | .spawn job next =>
      (shared, { owner with
        process := { owner.process with
          main := next owner.process.tasks.length
          tasks := owner.process.tasks ++ [⟨job, E.body job, false⟩] }
        hand := owner.hand.drop (E.takes job)
        hands := owner.hands ++ [owner.hand.take (E.takes job)] })
  | .join ids next =>
      match owner.process.tasks[E.pick choice]?.bind Task.outcome, owner.hands[E.pick choice]? with
      | some out, some [] =>
          if E.pick choice ∈ ids then
            (shared, { owner with
              process := { owner.process with main := next (E.pick choice) out }
              joined := owner.joined ++ [E.pick choice] })
          else (shared, owner)
      | _, _ => (shared, owner)

def stepTask (choice : E.Choice) (shared : E.Shared) (task : Task I) (held : List E.Held) :
    (E.Shared × List E.Held) × Task I :=
  if task.aborted then ((shared, held), task)
  else
    match task.rest with
    | .call op next =>
        ((E.exec choice op (shared, held)).1,
          { task with rest := next (E.exec choice op (shared, held)).2 })
    | _ => ((shared, held), task)

/-- A turn of an owner. One that cannot be taken changes nothing. -/
def step (shared : E.Shared) (owner : Owner E A) : Turn E.Choice → E.Shared × Owner E A
  | .move (.main choice) =>
      if owner.process.dropped then (shared, owner) else E.stepMain choice shared owner
  | .move (.task id choice) =>
      match owner.process.tasks[id]?, owner.hands[id]? with
      | some task, some held =>
          if owner.process.halted && !E.detached task.job then (shared, owner)
          else
            ((E.stepTask choice shared task held).1.1, { owner with
              process := { owner.process with
                tasks := owner.process.tasks.set id (E.stepTask choice shared task held).2 }
              hands := owner.hands.set id (E.stepTask choice shared task held).1.2 })
      | _, _ => (shared, owner)
  | .move (.abort id) =>
      match owner.process.tasks[id]? with
      | none => (shared, owner)
      | some task =>
          if task.running && E.detached task.job then
            (shared, { owner with process := { owner.process with
              tasks := owner.process.tasks.set id { task with aborted := true } } })
          else (shared, owner)
  | .move .drop => (shared, { owner with process := { owner.process with dropped := true } })
  | .letGo =>
      if owner.process.dropped then
        ((E.relinquish shared owner.hand).1,
          { owner with hand := (E.relinquish shared owner.hand).2 })
      else (shared, owner)
  | .letGoJob id =>
      match owner.process.tasks[id]?, owner.hands[id]? with
      | some task, some held =>
          if task.aborted || (owner.process.halted && !E.detached task.job) then
            ((E.relinquish shared held).1,
              { owner with hands := owner.hands.set id (E.relinquish shared held).2 })
          else (shared, owner)
      | _, _ => (shared, owner)

end Estate

structure Estate.Pool (E : Estate I) (A : Type) where
  shared : E.Shared
  owners : List (Owner E A)

inductive Event (Req Choice : Type)
  | start (request : Req)
  | turn (id : Nat) (turn : Turn Choice)

namespace Estate.Pool

variable {E : Estate I}

def step (handler : Req → Program I A) (pool : E.Pool A) : Event Req E.Choice → E.Pool A
  | .start request => { pool with owners := pool.owners ++ [E.start (handler request)] }
  | .turn id turn =>
      match pool.owners[id]? with
      | none => pool
      | some owner =>
          ⟨(E.step pool.shared owner turn).1,
            pool.owners.set id (E.step pool.shared owner turn).2⟩

def run (handler : Req → Program I A) (pool : E.Pool A) (events : List (Event Req E.Choice)) :
    E.Pool A :=
  events.foldl (step handler) pool

end Estate.Pool

/-- What an actor has to show for itself: what it holds, the jobs it started and the jobs it
waited for. -/
structure Trail (E : Estate I) where
  hand : List E.Held
  started : List I.Job
  joined : List Nat

def Owner.trail {E : Estate I} (owner : Owner E A) : Trail E :=
  ⟨owner.hand, owner.process.tasks.map Task.job, owner.joined⟩

def Owner.holdings {E : Estate I} (owner : Owner E A) : List E.Held :=
  owner.hand ++ owner.hands.flatten

theorem sum_map_set {T : Type} (measure : T → Nat) {all : List T} {id : Nat} {old : T}
    (present : all[id]? = some old) (new : T) :
    ((all.set id new).map measure).sum + measure old = (all.map measure).sum + measure new := by
  induction all generalizing id with
  | nil => cases present
  | cons first rest ih =>
      cases id with
      | zero =>
          cases present
          simp only [List.set_cons_zero, List.map_cons, List.sum_cons]
          omega
      | succ id =>
          have later := ih present
          simp only [List.set_cons_succ, List.map_cons, List.sum_cons]
          omega

theorem sum_map_alone {T : Type} (measure : T → Nat) {all : List T} {id : Nat} {one : T}
    (present : all[id]? = some one)
    (others : ∀ (other : Nat) (member : T), all[other]? = some member → other ≠ id →
      measure member = 0) : (all.map measure).sum = measure one := by
  induction all generalizing id with
  | nil => cases present
  | cons first rest ih =>
      rw [List.map_cons, List.sum_cons]
      cases id with
      | zero =>
          cases present
          have none : (rest.map measure).sum = 0 := by
            apply List.sum_eq_zero
            intro value member
            obtain ⟨other, among, rfl⟩ := List.mem_map.mp member
            obtain ⟨place, found⟩ := List.mem_iff_getElem?.mp among
            exact others (place + 1) other found (Nat.succ_ne_zero place)
          rw [none, Nat.add_zero]
      | succ id =>
          rw [others 0 first rfl (Nat.succ_ne_zero id).symm, Nat.zero_add]
          exact ih present fun other member found differs =>
            others (other + 1) member found fun same => differs (Nat.succ.inj same)

/-- How things are accounted for: what a thing is worth, what is in stock, what actors may ask
holding what, and that no step makes or loses anything. A job never holds more than it is
allowed. -/
structure Ledger (E : Estate I) where
  worth : E.Held → Nat
  stock : E.Shared → Nat
  Ready : E.Shared → Prop
  Good : E.Held → Prop
  Calls : I.Op → Trail E → Prop
  Aside : I.Op → Trail E → Prop
  allowance : I.Job → Nat
  exec : ∀ choice {op shared trail}, Ready shared → (∀ held ∈ trail.hand, Good held) →
    Calls op trail →
    Ready (E.exec choice op (shared, trail.hand)).1.1 ∧
    (∀ held ∈ (E.exec choice op (shared, trail.hand)).1.2, Good held) ∧
    stock (E.exec choice op (shared, trail.hand)).1.1 +
        ((E.exec choice op (shared, trail.hand)).1.2.map worth).sum =
      stock shared + (trail.hand.map worth).sum
  aside : ∀ choice shared {op trail}, Aside op trail → Calls op trail ∧
    ((E.exec choice op (shared, trail.hand)).1.2.map worth).sum ≤ (trail.hand.map worth).sum
  letGo : ∀ {shared held}, Ready shared → Good held →
    Ready (E.letGo held shared).1 ∧
    (∀ left ∈ (E.letGo held shared).2, Good left ∧ worth left ≤ worth held) ∧
    stock (E.letGo held shared).1 + ((E.letGo held shared).2.toList.map worth).sum =
      stock shared + worth held

namespace Ledger

variable {E : Estate I} (D : Ledger E)

def total (hand : List E.Held) : Nat := (hand.map D.worth).sum

/-- The surroundings of a program, by what its actor has to show. Nobody else changes that. -/
def logic (Calls : I.Op → Trail E → Prop) (Spawns : I.Job → List E.Held → Prop) :
    Logic I (Trail E) where
  Later := Eq
  Calls := Calls
  Called op trail value after := ∃ choice shared, D.Ready shared ∧
    value = (E.exec choice op (shared, trail.hand)).2 ∧
    after = { trail with hand := (E.exec choice op (shared, trail.hand)).1.2 }
  Spawns job trail := Spawns job trail.hand
  Spawned job trail id after := id = trail.started.length ∧
    after = ⟨trail.hand.drop (E.takes job), trail.started ++ [job], trail.joined⟩
  Joins _ _ := True
  Joined ids trail id _ after := id ∈ ids ∧ id < trail.started.length ∧
    after = { trail with joined := trail.joined ++ [id] }
  refl _ := rfl
  trans := Eq.trans

/-- A job may run from what it holds: it asks only what a job may ask, and has let go of
everything when it ends. -/
def Minor (rest : Program I I.Out) (hand : List E.Held) : Prop :=
  (D.logic D.Aside fun _ _ => False).Safe rest (fun _ trail => trail.hand = []) ⟨hand, [], []⟩

def Starts (job : I.Job) (hand : List E.Held) : Prop :=
  D.Minor (E.body job) (hand.take (E.takes job)) ∧
    D.total (hand.take (E.takes job)) ≤ D.allowance job

/-- The program may run from what its actor has to show, and its results meet `post`. -/
def Safe (p : Program I A) (post : A → Trail E → Prop) (trail : Trail E) : Prop :=
  (D.logic D.Calls D.Starts).Safe p post trail

structure Keeps (post : A → Trail E → Prop) (owner : Owner E A) : Prop where
  main : owner.process.dropped = false → D.Safe owner.process.main post owner.trail
  hands : owner.hands.length = owner.process.tasks.length
  good : ∀ held ∈ owner.holdings, D.Good held
  jobs : ∀ (id : Nat) (task : Task I) (held : List E.Held), owner.process.tasks[id]? = some task →
    owner.hands[id]? = some held → D.total held ≤ D.allowance task.job ∧
      (task.aborted = false → (owner.process.halted && !E.detached task.job) = false →
        D.Minor task.rest held)
  joined : ∀ id ∈ owner.joined, owner.hands[id]? = some [] ∧
    ∃ task, owner.process.tasks[id]? = some task ∧ task.running = false

def Accounted (before after : E.Shared × List E.Held) : Prop :=
  D.Ready after.1 ∧ D.stock after.1 + D.total after.2 = D.stock before.1 + D.total before.2

variable {D}

@[simp] theorem total_nil : D.total [] = 0 := rfl

theorem total_append (front back : List E.Held) :
    D.total (front ++ back) = D.total front + D.total back := by
  rw [total, List.map_append, List.sum_append]
  rfl

theorem total_flatten (hands : List (List E.Held)) :
    D.total hands.flatten = (hands.map D.total).sum := by
  induction hands with
  | nil => rfl
  | cons hand rest ih => rw [List.flatten_cons, total_append, ih, List.map_cons, List.sum_cons]

theorem total_set {hands : List (List E.Held)} {id : Nat} {old : List E.Held}
    (present : hands[id]? = some old) (new : List E.Held) :
    D.total (hands.set id new).flatten + D.total old = D.total hands.flatten + D.total new := by
  rw [total_flatten, total_flatten]
  exact sum_map_set D.total present new

section Rules
variable {Calls : I.Op → Trail E → Prop} {Spawns : I.Job → List E.Held → Prop}
  {post : A → Trail E → Prop} {trail : Trail E}

theorem done {result : A} (met : post result trail) :
    (D.logic Calls Spawns).Safe (.done result) post trail := by
  intro _ same
  rwa [← show trail = _ from same]

theorem call {op : I.Op} {next : I.Val op → Program I A} (allowed : Calls op trail)
    (rest : ∀ choice shared, D.Ready shared →
      (D.logic Calls Spawns).Safe (next (E.exec choice op (shared, trail.hand)).2) post
        { trail with hand := (E.exec choice op (shared, trail.hand)).1.2 }) :
    (D.logic Calls Spawns).Safe (.call op next) post trail := by
  intro _ same
  cases show trail = _ from same
  refine ⟨allowed, ?_⟩
  rintro _ _ ⟨choice, shared, ready, rfl, rfl⟩
  exact rest choice shared ready

theorem spawn {job : I.Job} {next : Nat → Program I A} (allowed : Spawns job trail.hand)
    (rest : (D.logic Calls Spawns).Safe (next trail.started.length) post
      ⟨trail.hand.drop (E.takes job), trail.started ++ [job], trail.joined⟩) :
    (D.logic Calls Spawns).Safe (.spawn job next) post trail := by
  intro _ same
  cases show trail = _ from same
  refine ⟨allowed, ?_⟩
  rintro _ _ ⟨rfl, rfl⟩
  exact rest

theorem join {ids : List Nat} {next : Nat → Option I.Out → Program I A}
    (rest : ∀ id out, id ∈ ids → id < trail.started.length →
      (D.logic Calls Spawns).Safe (next id out) post
        { trail with joined := trail.joined ++ [id] }) :
    (D.logic Calls Spawns).Safe (.join ids next) post trail := by
  intro _ same
  cases show trail = _ from same
  refine ⟨trivial, ?_⟩
  rintro id out _ ⟨among, old, rfl⟩
  exact rest id out among old

end Rules

theorem Minor.eq_nil {out : I.Out} {hand : List E.Held} (minor : D.Minor (.done out) hand) :
    hand = [] := minor _ rfl

section Relinquish
variable {shared : E.Shared} {hand : List E.Held}

theorem relinquished (ready : D.Ready shared) (good : ∀ held ∈ hand, D.Good held) :
    D.Accounted (shared, hand) (E.relinquish shared hand) ∧
      (∀ held ∈ (E.relinquish shared hand).2, D.Good held) ∧
      D.total (E.relinquish shared hand).2 ≤ D.total hand := by
  cases hand with
  | nil => exact ⟨⟨ready, rfl⟩, good, Nat.le_refl _⟩
  | cons held rest =>
      obtain ⟨ready', left, conserved⟩ := D.letGo ready (good held List.mem_cons_self)
      have parts : D.total (E.relinquish shared (held :: rest)).2 =
          D.total (E.letGo held shared).2.toList + D.total rest := total_append _ _
      have whole : D.total (held :: rest) = D.worth held + D.total rest := List.sum_cons
      refine ⟨⟨ready', ?_⟩, ?_, ?_⟩
      · rw [parts, whole, ← Nat.add_assoc]
        exact congrArg (· + D.total rest) conserved |>.trans (Nat.add_assoc _ _ _)
      · intro other member
        rcases List.mem_append.mp member with new | old
        · exact (left other (Option.mem_toList.mp new)).1
        · exact good other (List.mem_cons_of_mem _ old)
      · rw [parts, whole]
        apply Nat.add_le_add_right
        cases remains : (E.letGo held shared).2 with
        | none => exact Nat.zero_le _
        | some thing => exact (left thing remains).2

end Relinquish

def After (D : Ledger E) (post : A → Trail E → Prop) (shared : E.Shared) (owner : Owner E A)
    (after : E.Shared × Owner E A) : Prop :=
  D.Keeps post after.2 ∧ D.Accounted (shared, owner.holdings) (after.1, after.2.holdings)

namespace Keeps

variable {post : A → Trail E → Prop} {owner : Owner E A} {shared : E.Shared}

theorem same (keeps : D.Keeps post owner) (ready : D.Ready shared) :
    D.After post shared owner (shared, owner) := ⟨keeps, ready, rfl⟩

theorem hand_good (keeps : D.Keeps post owner) : ∀ held ∈ owner.hand, D.Good held :=
  fun held member => keeps.good held (List.mem_append_left _ member)

theorem job_good (keeps : D.Keeps post owner) {id : Nat} {hand : List E.Held}
    (present : owner.hands[id]? = some hand) : ∀ held ∈ hand, D.Good held := by
  intro held member
  apply keeps.good held (List.mem_append_right _ _)
  exact List.mem_flatten.mpr ⟨hand, List.mem_of_getElem? present, member⟩

theorem set_good (keeps : D.Keeps post owner) {id : Nat} {new : List E.Held}
    (good : ∀ held ∈ new, D.Good held) :
    ∀ held ∈ owner.hand ++ (owner.hands.set id new).flatten, D.Good held := by
  intro held member
  rcases List.mem_append.mp member with mine | jobs
  · exact keeps.hand_good held mine
  · obtain ⟨hand, among, inside⟩ := List.mem_flatten.mp jobs
    rcases List.mem_or_eq_of_mem_set among with old | rfl
    · apply keeps.good held (List.mem_append_right _ _)
      exact List.mem_flatten.mpr ⟨hand, old, inside⟩
    · exact good held inside

theorem set_accounted (owner : Owner E A) {id : Nat} {old new : List E.Held} {after : E.Shared}
    (present : owner.hands[id]? = some old) (accounted : D.Accounted (shared, old) (after, new)) :
    D.Accounted (shared, owner.holdings)
      (after, owner.hand ++ (owner.hands.set id new).flatten) := by
  refine ⟨accounted.1, ?_⟩
  have moved := D.total_set present new
  have conserved := accounted.2
  simp only [Owner.holdings, total_append] at conserved ⊢
  omega

theorem going (keeps : D.Keeps post owner) (unended : owner.process.halted = false) (id : Nat)
    (task : Task I) (held : List E.Held) (found : owner.process.tasks[id]? = some task)
    (holds : owner.hands[id]? = some held) : D.total held ≤ D.allowance task.job ∧
      (task.aborted = false → ∀ after : Bool, after = false → D.Minor task.rest held) := by
  obtain ⟨within, minor⟩ := keeps.jobs id task held found holds
  refine ⟨within, fun live _ _ => minor live ?_⟩
  rw [unended]
  rfl

theorem stepMain (keeps : D.Keeps post owner) (ready : D.Ready shared)
    (live : owner.process.dropped = false) (choice : E.Choice) :
    D.After post shared owner (E.stepMain choice shared owner) := by
  have safe := keeps.main live
  unfold Estate.stepMain
  cases head : owner.process.main with
  | done result => exact keeps.same ready
  | call op next =>
      rw [head] at safe
      obtain ⟨allowed, rest⟩ := safe _ rfl
      obtain ⟨ready', good', conserved⟩ := D.exec choice ready keeps.hand_good allowed
      have unended : owner.process.halted = false := by
        rw [Process.halted, live, head]
        rfl
      refine ⟨⟨?_, keeps.hands, ?_, ?_, keeps.joined⟩, ready', ?_⟩
      · exact fun _ => rest _ _ ⟨choice, shared, ready, rfl, rfl⟩
      · intro held member
        rcases List.mem_append.mp member with mine | jobs
        · exact good' held mine
        · exact keeps.good held (List.mem_append_right _ jobs)
      · intro id task held found holds
        obtain ⟨within, minor⟩ := keeps.going unended id task held found holds
        exact ⟨within, fun kept => minor kept _⟩
      · simp only [Owner.holdings, total_append, ← Nat.add_assoc]
        exact congrArg (· + D.total owner.hands.flatten) conserved
  | spawn job next =>
      rw [head] at safe
      obtain ⟨starts, rest⟩ := safe _ rfl
      have unended : owner.process.halted = false := by
        rw [Process.halted, live, head]
        rfl
      have split : D.total owner.hand =
          D.total (owner.hand.take (E.takes job)) + D.total (owner.hand.drop (E.takes job)) := by
        rw [← total_append, List.take_append_drop]
      refine ⟨⟨?_, ?_, ?_, ?_, ?_⟩, ready, ?_⟩
      · intro _
        have later := rest owner.process.tasks.length _ ⟨(List.length_map _).symm, rfl⟩
        simp only [Owner.trail, List.map_append]
        exact later
      · simp [keeps.hands]
      · intro held member
        simp only [Owner.holdings, List.flatten_append, List.flatten_cons, List.flatten_nil,
          List.append_nil, List.mem_append] at member
        rcases member with mine | jobs | taken
        · exact keeps.hand_good held (List.mem_of_mem_drop mine)
        · exact keeps.good held (List.mem_append_right _ jobs)
        · exact keeps.hand_good held (List.mem_of_mem_take taken)
      · intro id task held found holds
        rcases getElem?_snoc found with old | ⟨rfl, rfl⟩
        · have before := (List.getElem?_eq_some_iff.mp old).1
          rw [List.getElem?_append_left (by rw [keeps.hands]; exact before)] at holds
          obtain ⟨within, minor⟩ := keeps.going unended id task held old holds
          exact ⟨within, fun kept => minor kept _⟩
        · rw [← keeps.hands, List.getElem?_concat_length] at holds
          cases holds
          exact ⟨starts.2, fun _ _ => starts.1⟩
      · intro id member
        obtain ⟨holds, task, found, ended⟩ := keeps.joined id member
        obtain ⟨bound, _⟩ := List.getElem?_eq_some_iff.mp holds
        obtain ⟨bound', _⟩ := List.getElem?_eq_some_iff.mp found
        exact ⟨by rw [List.getElem?_append_left bound]; exact holds, task,
          by rw [List.getElem?_append_left bound']; exact found, ended⟩
      · simp only [Owner.holdings, List.flatten_append, List.flatten_cons, List.flatten_nil,
          List.append_nil, total_append, split]
        omega
  | join ids next =>
      rw [head] at safe
      obtain ⟨_, rest⟩ := safe _ rfl
      simp only
      split
      · rename_i out ended empty
        split
        · rename_i among
          obtain ⟨task, found, halted⟩ := Option.bind_eq_some_iff.mp ended
          obtain ⟨bound, _⟩ := List.getElem?_eq_some_iff.mp found
          have unended : owner.process.halted = false := by
            rw [Process.halted, live, head]
            rfl
          refine ⟨⟨?_, keeps.hands, keeps.good, ?_, ?_⟩, ready, rfl⟩
          · exact fun _ => rest _ out _ ⟨among, by simpa [Owner.trail] using bound, rfl⟩
          · intro id task held found holds
            obtain ⟨within, minor⟩ := keeps.going unended id task held found holds
            exact ⟨within, fun kept => minor kept _⟩
          · intro id member
            rcases List.mem_append.mp member with old | new
            · exact keeps.joined id old
            · rw [List.mem_singleton.mp new]
              exact ⟨empty, task, found, by rw [Task.running, halted]; rfl⟩
        · exact keeps.same ready
      · exact keeps.same ready

theorem stepTask {task : Task I} {hand : List E.Held} (ready : D.Ready shared)
    (good : ∀ held ∈ hand, D.Good held) (minor : task.aborted = false → D.Minor task.rest hand)
    (choice : E.Choice) :
    (D.Accounted (shared, hand) (E.stepTask choice shared task hand).1 ∧
      (∀ held ∈ (E.stepTask choice shared task hand).1.2, D.Good held) ∧
      D.total (E.stepTask choice shared task hand).1.2 ≤ D.total hand) ∧
    (E.stepTask choice shared task hand).2.job = task.job ∧
    (E.stepTask choice shared task hand).2.aborted = task.aborted ∧
    (task.aborted = false →
      D.Minor (E.stepTask choice shared task hand).2.rest
        (E.stepTask choice shared task hand).1.2) ∧
    (task.running = false → E.stepTask choice shared task hand = ((shared, hand), task)) := by
  unfold Estate.stepTask
  split
  · exact ⟨⟨⟨ready, rfl⟩, good, Nat.le_refl _⟩, rfl, rfl, minor, fun _ => rfl⟩
  · rename_i live
    have live : task.aborted = false := by simpa using live
    split
    · rename_i op next head
      have safe := minor live
      rw [head] at safe
      obtain ⟨allowed, rest⟩ := safe _ rfl
      obtain ⟨calls, fewer⟩ := D.aside choice shared allowed
      obtain ⟨ready', good', conserved⟩ := D.exec choice ready good calls
      refine ⟨⟨⟨ready', conserved⟩, good', fewer⟩, rfl, rfl, ?_, ?_⟩
      · exact fun _ => rest _ _ ⟨choice, shared, ready, rfl, rfl⟩
      · intro halted
        simp [Task.running, Task.outcome, live, head, Program.result?] at halted
    · exact ⟨⟨⟨ready, rfl⟩, good, Nat.le_refl _⟩, rfl, rfl, minor, fun _ => rfl⟩

theorem job (keeps : D.Keeps post owner) (ready : D.Ready shared) {id : Nat} {task : Task I}
    {hand : List E.Held} (found : owner.process.tasks[id]? = some task)
    (holds : owner.hands[id]? = some hand)
    (able : (owner.process.halted && !E.detached task.job) = false) (choice : E.Choice) :
    D.After post shared owner ((E.stepTask choice shared task hand).1.1, { owner with
      process := { owner.process with
        tasks := owner.process.tasks.set id (E.stepTask choice shared task hand).2 }
      hands := owner.hands.set id (E.stepTask choice shared task hand).1.2 }) := by
  obtain ⟨within, minor⟩ := keeps.jobs id task hand found holds
  obtain ⟨⟨accounted, good, fewer⟩, same, live, goes, ended⟩ :=
    stepTask ready (keeps.job_good holds) (fun live => minor live able) choice
  obtain ⟨bound, here⟩ := List.getElem?_eq_some_iff.mp found
  obtain ⟨bound', _⟩ := List.getElem?_eq_some_iff.mp holds
  refine ⟨⟨?_, ?_, keeps.set_good good, ?_, ?_⟩, set_accounted owner holds accounted⟩
  · intro running
    have safe := keeps.main running
    have jobs : (owner.process.tasks.set id (E.stepTask choice shared task hand).2).map Task.job =
        owner.process.tasks.map Task.job := by
      rw [List.map_set, same, ← here, ← List.getElem_map Task.job (h := by simpa using bound),
        List.set_getElem_self]
    simp only [Owner.trail, jobs]
    exact safe
  · simp [keeps.hands]
  · intro other another held found' holds'
    by_cases equal : other = id
    · subst equal
      rw [List.getElem?_set_self bound] at found'
      rw [List.getElem?_set_self bound'] at holds'
      cases found'
      cases holds'
      rw [same, live]
      exact ⟨Nat.le_trans fewer within, fun live _ => goes live⟩
    · rw [List.getElem?_set_ne (Ne.symm equal)] at found' holds'
      exact keeps.jobs other another held found' holds'
  · intro other member
    obtain ⟨empty, another, found', halted⟩ := keeps.joined other member
    by_cases equal : other = id
    · subst equal
      cases found.symm.trans found'
      cases holds.symm.trans empty
      rw [ended halted, List.getElem?_set_self bound, List.getElem?_set_self bound']
      exact ⟨rfl, task, rfl, halted⟩
    · refine ⟨?_, another, ?_, halted⟩
      · rw [List.getElem?_set_ne (Ne.symm equal)]
        exact empty
      · simp only
        rw [List.getElem?_set_ne (Ne.symm equal)]
        exact found'

theorem abort (keeps : D.Keeps post owner) (ready : D.Ready shared) {id : Nat} {task : Task I}
    (found : owner.process.tasks[id]? = some task) (running : task.running = true) :
    D.After post shared owner (shared, { owner with process := { owner.process with
      tasks := owner.process.tasks.set id { task with aborted := true } } }) := by
  obtain ⟨bound, here⟩ := List.getElem?_eq_some_iff.mp found
  refine ⟨⟨?_, ?_, keeps.good, ?_, ?_⟩, ready, rfl⟩
  · intro live
    have safe := keeps.main live
    have jobs : (owner.process.tasks.set id { task with aborted := true }).map Task.job =
        owner.process.tasks.map Task.job := by
      rw [List.map_set, ← here, ← List.getElem_map Task.job (h := by simpa using bound),
        List.set_getElem_self]
    simp only [Owner.trail, jobs]
    exact safe
  · simp [keeps.hands]
  · intro other another held found' holds
    by_cases equal : other = id
    · subst equal
      rw [List.getElem?_set_self bound] at found'
      cases found'
      exact ⟨(keeps.jobs other task held found holds).1, nofun⟩
    · rw [List.getElem?_set_ne (Ne.symm equal)] at found'
      exact keeps.jobs other another held found' holds
  · intro other member
    obtain ⟨empty, another, found', halted⟩ := keeps.joined other member
    have differs : other ≠ id := by
      rintro rfl
      cases found.symm.trans found'
      rw [running] at halted
      cases halted
    refine ⟨empty, another, ?_, halted⟩
    simp only
    rw [List.getElem?_set_ne (Ne.symm differs)]
    exact found'

/-- Whatever an owner does next, its things stay in order and all is accounted for. -/
theorem step (keeps : D.Keeps post owner) (ready : D.Ready shared) (turn : Turn E.Choice) :
    D.After post shared owner (E.step shared owner turn) := by
  cases turn with
  | move move =>
      cases move with
      | main choice =>
          simp only [Estate.step]
          split
          · exact keeps.same ready
          · rename_i live
            exact keeps.stepMain ready (by simpa using live) choice
      | task id choice =>
          simp only [Estate.step]
          split
          · rename_i task hand found holds
            split
            · exact keeps.same ready
            · rename_i able
              exact keeps.job ready found holds (by simpa using able) choice
          · exact keeps.same ready
      | abort id =>
          simp only [Estate.step]
          split
          · exact keeps.same ready
          · rename_i task found
            split
            · rename_i both
              rw [Bool.and_eq_true] at both
              exact keeps.abort ready found both.1
            · exact keeps.same ready
      | drop =>
          refine ⟨⟨nofun, keeps.hands, keeps.good, ?_, keeps.joined⟩, ready, rfl⟩
          intro id task held found holds
          obtain ⟨within, minor⟩ := keeps.jobs id task held found holds
          refine ⟨within, fun kept able => minor kept ?_⟩
          have detached : E.detached task.job = true := by
            simpa [Estate.step, Process.halted] using able
          rw [detached, Bool.not_true, Bool.and_false]
  | letGo =>
      simp only [Estate.step]
      split
      · rename_i dropped
        obtain ⟨accounted, good, fewer⟩ := relinquished ready keeps.hand_good
        refine ⟨⟨fun live => ?_, keeps.hands, ?_, keeps.jobs, keeps.joined⟩, accounted.1, ?_⟩
        · rw [dropped] at live
          cases live
        · intro held member
          rcases List.mem_append.mp member with mine | jobs
          · exact good held mine
          · exact keeps.good held (List.mem_append_right _ jobs)
        · have conserved := accounted.2
          simp only [Owner.holdings, total_append] at conserved ⊢
          omega
      · exact keeps.same ready
  | letGoJob id =>
      simp only [Estate.step]
      split
      · rename_i task hand found holds
        obtain ⟨bound, _⟩ := List.getElem?_eq_some_iff.mp holds
        split
        · rename_i gone
          obtain ⟨accounted, good, fewer⟩ := relinquished ready (keeps.job_good holds)
          obtain ⟨within, _⟩ := keeps.jobs id task hand found holds
          refine ⟨⟨keeps.main, ?_, keeps.set_good good, ?_, ?_⟩,
            set_accounted owner holds accounted⟩
          · simp [keeps.hands]
          · intro other another held found' holds'
            by_cases equal : other = id
            · subst equal
              rw [List.getElem?_set_self bound] at holds'
              cases found.symm.trans found'
              cases holds'
              refine ⟨Nat.le_trans fewer within, fun live able => ?_⟩
              rw [live, Bool.false_or] at gone
              exact absurd (gone.symm.trans able) (by decide)
            · simp only at holds'
              rw [List.getElem?_set_ne (Ne.symm equal)] at holds'
              exact keeps.jobs other another held found' holds'
          · intro other member
            obtain ⟨empty, rest⟩ := keeps.joined other member
            refine ⟨?_, rest⟩
            by_cases equal : other = id
            · subst equal
              cases holds.symm.trans empty
              exact List.getElem?_set_self bound
            · simp only
              rw [List.getElem?_set_ne (Ne.symm equal)]
              exact empty
        · exact keeps.same ready
      · exact keeps.same ready

theorem allowed (keeps : D.Keeps post owner) (live : owner.process.dropped = false) {op : I.Op}
    {next : I.Val op → Program I A} (head : owner.process.main = .call op next) :
    D.Calls op owner.trail := by
  have safe := keeps.main live
  rw [head] at safe
  exact (safe _ rfl).1

theorem owed (keeps : D.Keeps post owner) {pending : List Nat} (distinct : pending.Nodup)
    (left : ∀ id < owner.trail.started.length, id ∈ owner.joined ∨ id ∈ pending) :
    D.total owner.hands.flatten ≤
      (pending.map fun id => (owner.trail.started[id]?.map D.allowance).getD 0).sum := by
  let part : Nat → Nat := fun id => (owner.hands[id]?.map D.total).getD 0
  have parts : D.total owner.hands.flatten =
      ∑ id ∈ Finset.range owner.hands.length, part id := by
    rw [total_flatten, Finset.sum_range, ← List.sum_ofFn]
    congr 1
    apply List.ext_getElem
    · simp
    · intro id _ _
      simp [part]
  have within : ∀ id ∈ Finset.range owner.hands.length,
      part id ≤ if id ∈ pending then (owner.trail.started[id]?.map D.allowance).getD 0 else 0 := by
    intro id member
    have bound : id < owner.process.tasks.length := keeps.hands ▸ Finset.mem_range.mp member
    have found := List.getElem?_eq_getElem bound
    have holds := List.getElem?_eq_getElem (Finset.mem_range.mp member)
    split
    · have most := (keeps.jobs id _ _ found holds).1
      simpa [part, Owner.trail, found, holds] using most
    · rename_i waited
      have joined := (left id (by simpa [Owner.trail] using bound)).resolve_right waited
      simp [part, (keeps.joined id joined).1]
  calc D.total owner.hands.flatten
      = ∑ id ∈ Finset.range owner.hands.length, part id := parts
    _ ≤ ∑ id ∈ Finset.range owner.hands.length,
          if id ∈ pending then (owner.trail.started[id]?.map D.allowance).getD 0 else 0 :=
        Finset.sum_le_sum within
    _ ≤ ∑ id ∈ pending.toFinset, (owner.trail.started[id]?.map D.allowance).getD 0 := by
        rw [← Finset.sum_filter]
        apply Finset.sum_le_sum_of_subset
        intro id member
        exact List.mem_toFinset.mpr (Finset.mem_filter.mp member).2
    _ = _ := List.sum_toFinset _ distinct

end Keeps

/-- In a pool the shared part is in order, and so is every owner. -/
structure Sound (D : Ledger E) (post : A → Trail E → Prop) (pool : E.Pool A) : Prop where
  ready : D.Ready pool.shared
  owners : ∀ owner ∈ pool.owners, D.Keeps post owner

def wealth (D : Ledger E) (pool : E.Pool A) : Nat :=
  D.stock pool.shared + (pool.owners.map fun owner => D.total owner.holdings).sum

namespace Sound

variable {post : A → Trail E → Prop} {pool : E.Pool A}

theorem step (sound : D.Sound post pool) {handler : Req → Program I A}
    (safe : ∀ request, D.Safe (handler request) post ⟨[], [], []⟩) (event : Event Req E.Choice) :
    D.Sound post (pool.step handler event) ∧
      D.wealth (pool.step handler event) = D.wealth pool := by
  cases event with
  | start request =>
      refine ⟨⟨sound.ready, ?_⟩, ?_⟩
      · intro owner member
        rcases List.mem_append.mp member with old | new
        · exact sound.owners owner old
        · rw [List.mem_singleton.mp new]
          exact ⟨fun _ => safe request, rfl, nofun, nofun, nofun⟩
      · simp [Estate.Pool.step, wealth, Estate.start, Owner.holdings]
  | turn id turn =>
      cases present : pool.owners[id]? with
      | none =>
          simp only [Estate.Pool.step, present]
          exact ⟨sound, trivial⟩
      | some owner =>
          simp only [Estate.Pool.step, present]
          obtain ⟨keeps, ready, conserved⟩ :=
            (sound.owners owner (List.mem_of_getElem? present)).step sound.ready turn
          refine ⟨⟨ready, ?_⟩, ?_⟩
          · intro other member
            rcases List.mem_or_eq_of_mem_set member with old | rfl
            · exact sound.owners other old
            · exact keeps
          · have moved := sum_map_set (fun owner => D.total owner.holdings) present
              (E.step pool.shared owner turn).2
            simp only [wealth] at conserved moved ⊢
            omega

/-- Whatever happens in whatever order, everything stays in order and nothing is lost. -/
theorem run (sound : D.Sound post pool) {handler : Req → Program I A}
    (safe : ∀ request, D.Safe (handler request) post ⟨[], [], []⟩)
    (events : List (Event Req E.Choice)) :
    D.Sound post (pool.run handler events) ∧
      D.wealth (pool.run handler events) = D.wealth pool := by
  induction events generalizing pool with
  | nil => exact ⟨sound, rfl⟩
  | cons event rest ih =>
      obtain ⟨next, same⟩ := sound.step safe event
      obtain ⟨last, still⟩ := ih next
      exact ⟨last, still.trans same⟩

/-- What an owner keeps by its own account, it keeps among all others. -/
theorem keeps {D' : Ledger E} {post' : A → Trail E → Prop} {handler : Req → Program I A}
    (sound : D.Sound post pool)
    (safe : ∀ request, D.Safe (handler request) post ⟨[], [], []⟩)
    (shares : ∀ shared, D.Ready shared → D'.Ready shared) {id : Nat} {owner : Owner E A}
    (present : pool.owners[id]? = some owner) (keeps : D'.Keeps post' owner)
    (events : List (Event Req E.Choice)) :
    ∃ later, (pool.run handler events).owners[id]? = some later ∧ D'.Keeps post' later := by
  induction events generalizing pool owner with
  | nil => exact ⟨owner, present, keeps⟩
  | cons event rest ih =>
      have next := (sound.step safe event).1
      obtain ⟨bound, _⟩ := List.getElem?_eq_some_iff.mp present
      cases event with
      | start request =>
          exact ih next (by rw [← present]; exact List.getElem?_append_left bound) keeps
      | turn other turn =>
          simp only [Estate.Pool.run, List.foldl_cons]
          cases found : pool.owners[other]? with
          | none =>
              refine ih next ?_ keeps
              simp only [Estate.Pool.step, found]
              exact present
          | some actor =>
              by_cases equal : other = id
              · subst equal
                cases present.symm.trans found
                refine ih next ?_ (keeps.step (shares _ sound.ready) turn).1
                simp only [Estate.Pool.step, found]
                exact List.getElem?_set_self bound
              · refine ih next ?_ keeps
                simp only [Estate.Pool.step, found]
                rw [List.getElem?_set_ne equal]
                exact present

end Sound

end Ledger

structure Owner.Ended {E : Estate I} (owner : Owner E A) : Prop where
  main : if owner.process.dropped then owner.hand = [] else owner.process.main.result?.isSome
  jobs : ∀ (id : Nat) (task : Task I) (held : List E.Held), owner.process.tasks[id]? = some task →
    owner.hands[id]? = some held →
      if task.aborted || (owner.process.halted && !E.detached task.job) then held = []
      else task.rest.result?.isSome

theorem Ledger.Keeps.settled {E : Estate I} {D : Ledger E} {post : A → Trail E → Prop}
    {owner : Owner E A} (keeps : D.Keeps post owner) (ended : owner.Ended)
    (empty : ∀ result trail, post result trail → trail.hand = []) : owner.holdings = [] := by
  have hand : owner.hand = [] := by
    have main := ended.main
    split at main
    · exact main
    · rename_i live
      obtain ⟨result, halted⟩ := Option.isSome_iff_exists.mp main
      have safe := keeps.main (by simpa using live)
      rw [Program.result?_eq halted] at safe
      exact empty result owner.trail (safe _ rfl)
  have hands : ∀ held ∈ owner.hands, held = [] := by
    intro held member
    obtain ⟨id, holds⟩ := List.mem_iff_getElem?.mp member
    obtain ⟨bound, _⟩ := List.getElem?_eq_some_iff.mp holds
    have found := List.getElem?_eq_getElem (keeps.hands ▸ bound)
    have halted := ended.jobs id _ held found holds
    obtain ⟨_, minor⟩ := keeps.jobs id _ held found holds
    split at halted
    · exact halted
    · rename_i going
      simp only [Bool.not_eq_true, Bool.or_eq_false_iff] at going
      obtain ⟨out, done⟩ := Option.isSome_iff_exists.mp halted
      have safe := minor going.1 going.2
      rw [Program.result?_eq done] at safe
      exact safe.eq_nil
  rw [Owner.holdings, hand, List.nil_append, List.flatten_eq_nil_iff]
  exact hands

end MbxCache.Concurrent
