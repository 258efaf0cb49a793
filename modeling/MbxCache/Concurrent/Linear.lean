import Mathlib.Data.List.Induction
import Mathlib.Data.List.Nodup
import Mathlib.Logic.Function.Basic

/-! Objects that many use at once, and what it means that each call acts at one moment. -/

namespace MbxCache.Concurrent

/-- An object by what its calls do, one after another: what may be left and answered, and what a
call may leave before it acts. -/
structure SerialObject where
  State : Type
  Call : Type
  Answer : Type
  Does : State → Call → State → Answer → Prop
  Begins : State → Call → State → Prop

namespace SerialObject

variable (O : SerialObject)

inductive Notice
  | called (id : Nat) (call : O.Call)
  | answered (id : Nat) (answer : O.Answer)
  | failed (id : Nat)

inductive Act
  | seen (notice : O.Notice)
  | begin (id : Nat)
  | act (id : Nat) (answer : O.Answer)

inductive Stage
  | idle
  | waiting (call : O.Call)
  | acted (call : O.Call) (answer : O.Answer)

/-- An object that each call acts on at one moment. -/
structure Atomic where
  state : O.State
  stage : Nat → O.Stage

structure Deed where
  id : Nat
  call : O.Call
  answer : Option O.Answer

variable {O}

def Act.notice? : O.Act → Option O.Notice
  | .seen notice => some notice
  | .begin _ | .act _ _ => none

def Deed.Does (deed : O.Deed) (before after : O.State) : Prop :=
  match deed.answer with
  | none => O.Begins before deed.call after
  | some answer => O.Does before deed.call after answer

def Atomic.initial (state : O.State) : O.Atomic := ⟨state, fun _ => .idle⟩

def Atomic.move (atomic : O.Atomic) (id : Nat) (stage : O.Stage) : O.Atomic :=
  { atomic with stage := Function.update atomic.stage id stage }

/-- A call acts between its arrival and its answer, and is answered what it did. Until it acts it
may begin. -/
inductive Atomic.Step (atomic : O.Atomic) : O.Act → O.Atomic → Prop
  | called {id : Nat} {call : O.Call} (fresh : atomic.stage id = .idle) :
      Step atomic (.seen (.called id call)) (atomic.move id (.waiting call))
  | begins {id : Nat} {call : O.Call} {state : O.State} (waiting : atomic.stage id = .waiting call)
      (begins : O.Begins atomic.state call state) : Step atomic (.begin id) { atomic with state }
  | act {id : Nat} {call : O.Call} {state : O.State} {answer : O.Answer}
      (waiting : atomic.stage id = .waiting call) (does : O.Does atomic.state call state answer) :
      Step atomic (.act id answer) ({ atomic with state }.move id (.acted call answer))
  | answered {id : Nat} {call : O.Call} {answer : O.Answer}
      (acted : atomic.stage id = .acted call answer) :
      Step atomic (.seen (.answered id answer)) atomic
  | failed {id : Nat} : Step atomic (.seen (.failed id)) atomic

inductive Atomic.Steps : O.Atomic → List O.Act → O.Atomic → Prop
  | none {atomic : O.Atomic} : Steps atomic [] atomic
  | more {atomic between after : O.Atomic} {act : O.Act} {acts : List O.Act}
      (step : atomic.Step act between) (rest : Steps between acts after) :
      Steps atomic (act :: acts) after

theorem Atomic.Steps.one {atomic after : O.Atomic} {act : O.Act} (step : atomic.Step act after) :
    atomic.Steps [act] after := .more step .none

theorem Atomic.Steps.append {atomic between after : O.Atomic} {front back : List O.Act}
    (first : atomic.Steps front between) (second : between.Steps back after) :
    atomic.Steps (front ++ back) after := by
  induction first with
  | none => exact second
  | more step rest ih => exact .more step (ih second)

/-- Deeds, one after another. -/
inductive Replays (start : O.State) : List O.Deed → O.State → Prop
  | none : Replays start [] start
  | more {order : List O.Deed} {between after : O.State} {deed : O.Deed}
      (first : Replays start order between) (does : deed.Does between after) :
      Replays start (order ++ [deed]) after

def Precedes {α : Type} (first second : α) (items : List α) : Prop :=
  List.Sublist [first, second] items

theorem precedes_concat {α : Type} {items : List α} {first second last : α} :
    Precedes first second (items ++ [last]) ↔
      Precedes first second items ∨ (first ∈ items ∧ second = last) := by
  constructor
  · intro sublist
    obtain ⟨front, back, same, inside, ends⟩ := List.sublist_append_iff.mp sublist
    rcases List.sublist_singleton.mp ends with rfl | rfl
    · rw [List.append_nil] at same
      subst same
      exact .inl inside
    · have parts : [first] ++ [second] = front ++ [last] := same
      obtain ⟨rfl, ends⟩ := List.append_inj' parts rfl
      exact .inr ⟨List.singleton_sublist.mp inside, (List.cons.inj ends).1⟩
  · rintro (sublist | ⟨member, rfl⟩)
    · exact List.Sublist.trans sublist (List.sublist_append_left _ _)
    · exact (List.singleton_sublist.mpr member).append (List.Sublist.refl [second])

theorem precedes_split {α : Type} {items : List α} {first second : α}
    (precedes : Precedes first second items) :
    ∃ front middle back, items = front ++ first :: (middle ++ second :: back) := by
  obtain ⟨front, middle, rfl, member, rest⟩ := List.cons_sublist_iff.mp precedes
  obtain ⟨between, back, rfl⟩ := List.append_of_mem (List.singleton_sublist.mp rest)
  obtain ⟨front, other, rfl⟩ := List.append_of_mem member
  exact ⟨front, other ++ between, back, by simp⟩

theorem precedes_or {α : Type} {items : List α} {first second : α} (member : first ∈ items)
    (member' : second ∈ items) (apart : first ≠ second) :
    Precedes first second items ∨ Precedes second first items := by
  induction items with
  | nil => cases member
  | cons item rest ih =>
      rcases List.mem_cons.mp member with rfl | inside
      · rcases List.mem_cons.mp member' with same | inside'
        · exact absurd same.symm apart
        · exact .inl ((List.singleton_sublist.mpr inside').cons_cons first)
      · rcases List.mem_cons.mp member' with rfl | inside'
        · exact .inr ((List.singleton_sublist.mpr inside).cons_cons second)
        · exact (ih inside inside').imp (List.Sublist.cons item) (List.Sublist.cons item)

theorem Replays.nil {start after : O.State} {order : List O.Deed}
    (replays : Replays start order after) (empty : order = []) : after = start := by
  cases replays with
  | none => rfl
  | more first does => simp at empty

theorem Replays.split {start after : O.State} {front back : List O.Deed}
    (replays : Replays start (front ++ back) after) :
    ∃ between, Replays start front between ∧ Replays between back after := by
  induction back using List.reverseRecOn generalizing after with
  | nil => exact ⟨after, by simpa using replays, .none⟩
  | append_singleton rest last ih =>
      rw [← List.append_assoc] at replays
      generalize whole : front ++ rest ++ [last] = order at replays
      cases replays with
      | none => simp at whole
      | more first does =>
          obtain ⟨rfl, ends⟩ := List.append_inj' whole rfl
          cases ends
          obtain ⟨between, before, rest⟩ := ih first
          exact ⟨between, before, .more rest does⟩

theorem Replays.first {start after : O.State} {deed : O.Deed} {order : List O.Deed}
    (replays : Replays start (deed :: order) after) :
    ∃ between, deed.Does start between ∧ Replays between order after := by
  have parts : Replays start ([deed] ++ order) after := replays
  obtain ⟨between, one, rest⟩ := parts.split
  refine ⟨between, ?_, rest⟩
  generalize whole : [deed] = all at one
  cases one with
  | none => cases whole
  | @more front before _ last first does =>
      have same : [] ++ [deed] = front ++ [last] := whole
      obtain ⟨empty, ends⟩ := List.append_inj' same rfl
      cases ends
      rwa [first.nil empty.symm] at does

/-- What the callers saw, explained by an order in which the calls acted one after another:
each between its arrival and its answer, once at most, and what it began before that. -/
structure Linearizes (start : O.State) (history : List O.Notice) (order : List O.Deed) : Prop where
  legal : ∃ state, Replays start order state
  apart : ∀ id call call', .called id call ∈ history → .called id call' ∈ history → call = call'
  once : order.Pairwise fun earlier later => earlier.id = later.id → earlier.answer = none
  called : ∀ deed ∈ order, .called deed.id deed.call ∈ history
  answered : ∀ id answer, .answered id answer ∈ history →
    ∃ deed ∈ order, deed.id = id ∧ deed.answer = some answer
  ordered : ∀ earlier ∈ order, ∀ later ∈ order, ∀ answer call,
    Precedes (.answered earlier.id answer) (.called later.id call) history →
      Precedes earlier later order

section Linearize

variable {start : O.State} {history : List O.Notice} {order : List O.Deed} {atomic : O.Atomic}

structure Explains (start : O.State) (history : List O.Notice) (order : List O.Deed)
    (atomic : O.Atomic) : Prop where
  replays : Replays start order atomic.state
  linear : Linearizes start history order
  acted : ∀ id call answer,
    atomic.stage id = .acted call answer ↔ ⟨id, call, some answer⟩ ∈ order
  waiting : ∀ id call, atomic.stage id = .waiting call → .called id call ∈ history
  idle : ∀ id, atomic.stage id = .idle → ∀ call, .called id call ∉ history

theorem Explains.initial (start : O.State) : Explains start [] [] (Atomic.initial start) where
  replays := .none
  linear := {
    legal := ⟨start, .none⟩
    apart := by simp
    once := List.Pairwise.nil
    called := by simp
    answered := by simp
    ordered := by simp }
  acted := by simp [Atomic.initial]
  waiting := by simp [Atomic.initial]
  idle := by simp

theorem Linearizes.deed (linear : Linearizes start history order) {deed : O.Deed}
    {state : O.State} (legal : Replays start (order ++ [deed]) state)
    (called : .called deed.id deed.call ∈ history)
    (fresh : ∀ other ∈ order, other.id = deed.id → other.answer = none) :
    Linearizes start history (order ++ [deed]) where
  legal := ⟨state, legal⟩
  apart := linear.apart
  once := by
    refine List.pairwise_append.mpr ⟨linear.once, List.pairwise_singleton _ _, ?_⟩
    intro earlier member last final same
    rw [List.mem_singleton.mp final] at same
    exact fresh earlier member same
  called other member := by
    rcases List.mem_append.mp member with earlier | last
    · exact linear.called other earlier
    · exact List.mem_singleton.mp last ▸ called
  answered id answer given := by
    obtain ⟨other, member, same⟩ := linear.answered id answer given
    exact ⟨other, List.mem_append_left _ member, same⟩
  ordered earlier member later member' answer call before := by
    have known : earlier ∈ order := by
      rcases List.mem_append.mp member with known | last
      · exact known
      · -- A call that was answered has acted before.
        obtain rfl := List.mem_singleton.mp last
        have given := List.Sublist.subset before List.mem_cons_self
        obtain ⟨other, listed, same, told⟩ := linear.answered _ answer given
        cases told.symm.trans (fresh other listed same)
    rcases List.mem_append.mp member' with present | last
    · exact precedes_concat.mpr (.inl (linear.ordered earlier known later present _ _ before))
    · exact precedes_concat.mpr (.inr ⟨known, List.mem_singleton.mp last⟩)

theorem Linearizes.see (linear : Linearizes start history order) {notice : O.Notice}
    (done : ∀ id answer, notice = .answered id answer →
      ∃ deed ∈ order, deed.id = id ∧ deed.answer = some answer)
    (fresh : ∀ id call, notice = .called id call → ∀ call', .called id call' ∉ history) :
    Linearizes start (history ++ [notice]) order where
  legal := linear.legal
  apart id call call' first second := by
    rcases List.mem_append.mp first with old | new
    · rcases List.mem_append.mp second with old' | new'
      · exact linear.apart id call call' old old'
      · exact absurd old (fresh id call' (List.mem_singleton.mp new').symm call)
    · rcases List.mem_append.mp second with old' | new'
      · exact absurd old' (fresh id call (List.mem_singleton.mp new).symm call')
      · have same := (List.mem_singleton.mp new).trans (List.mem_singleton.mp new').symm
        cases same
        rfl
  once := linear.once
  called deed member := List.mem_append_left _ (linear.called deed member)
  answered id answer given := by
    rcases List.mem_append.mp given with earlier | last
    · exact linear.answered id answer earlier
    · exact done id answer (List.mem_singleton.mp last).symm
  ordered earlier member later member' answer call before := by
    rcases precedes_concat.mp before with known | ⟨-, same⟩
    · exact linear.ordered earlier member later member' answer call known
    · exact absurd (linear.called later member') (fresh later.id call same.symm later.call)

theorem Explains.unacted (explains : Explains start history order atomic) {id : Nat}
    {call : O.Call} (waiting : atomic.stage id = .waiting call) (deed : O.Deed)
    (member : deed ∈ order) (same : deed.id = id) : deed.answer = none := by
  obtain ⟨_, call', answer⟩ := deed
  subst same
  cases answer with
  | none => rfl
  | some answer => cases waiting.symm.trans ((explains.acted _ call' answer).mpr member)

theorem Explains.step (explains : Explains start history order atomic) {act : O.Act}
    {after : O.Atomic} (step : atomic.Step act after) :
    ∃ order', Explains start (history ++ act.notice?.toList) order' after := by
  cases step with
  | @called id call fresh =>
      refine ⟨order, explains.replays, ?_, ?_, ?_, ?_⟩
      · refine explains.linear.see (fun _ _ same => by cases same) fun other call same => ?_
        cases same
        exact explains.idle id fresh
      · intro other call answer
        by_cases same : other = id
        · subst same
          simp only [Atomic.move, Function.update_self]
          rw [← explains.acted, fresh]
          simp
        · simp only [Atomic.move, Function.update_of_ne same]
          exact explains.acted other call answer
      · intro other call' waiting
        by_cases same : other = id
        · subst same
          simp only [Atomic.move, Function.update_self] at waiting
          cases waiting
          exact List.mem_append_right _ List.mem_cons_self
        · simp only [Atomic.move, Function.update_of_ne same] at waiting
          exact List.mem_append_left _ (explains.waiting other call' waiting)
      · intro other still call'
        by_cases same : other = id
        · subst same
          simp [Atomic.move] at still
        · simp only [Atomic.move, Function.update_of_ne same] at still
          simpa [Act.notice?, same] using explains.idle other still call'
  | @begins id call state waiting begins =>
      have replays : Replays start (order ++ [⟨id, call, none⟩]) state :=
        .more explains.replays begins
      refine ⟨order ++ [⟨id, call, none⟩], replays, ?_, ?_, ?_, ?_⟩
      · simpa [Act.notice?] using explains.linear.deed replays
          (explains.waiting id call waiting) (explains.unacted waiting)
      · intro other call' answer
        simpa using explains.acted other call' answer
      · simpa [Act.notice?] using explains.waiting
      · simpa [Act.notice?] using explains.idle
  | @act id call state answer waiting does =>
      have replays : Replays start (order ++ [⟨id, call, some answer⟩]) state :=
        .more explains.replays does
      refine ⟨order ++ [⟨id, call, some answer⟩], replays, ?_, ?_, ?_, ?_⟩
      · simpa [Act.notice?] using explains.linear.deed replays
          (explains.waiting id call waiting) (explains.unacted waiting)
      · intro other call' answer'
        by_cases same : other = id
        · subst same
          have unknown : (⟨other, call', some answer'⟩ : O.Deed) ∉ order := by
            rw [← explains.acted, waiting]
            simp
          simp [Atomic.move, unknown, eq_comm]
        · simp only [Atomic.move, Function.update_of_ne same, List.mem_append,
            List.mem_singleton, Deed.mk.injEq, same, false_and, or_false]
          exact explains.acted other call' answer'
      · intro other call' waiting'
        by_cases same : other = id
        · subst same
          simp [Atomic.move] at waiting'
        · simp only [Atomic.move, Function.update_of_ne same] at waiting'
          simpa [Act.notice?] using explains.waiting other call' waiting'
      · intro other still call'
        by_cases same : other = id
        · subst same
          simp [Atomic.move] at still
        · simp only [Atomic.move, Function.update_of_ne same] at still
          simpa [Act.notice?] using explains.idle other still call'
  | @answered id call answer acted =>
      refine ⟨order, explains.replays, ?_, explains.acted, fun other call' waiting =>
        List.mem_append_left _ (explains.waiting other call' waiting), fun other still call' => ?_⟩
      · refine explains.linear.see (fun other answer' same => ?_) fun _ _ same => by cases same
        cases same
        exact ⟨_, (explains.acted id call answer).mp acted, rfl, rfl⟩
      · simpa [Act.notice?] using explains.idle other still call'
  | @failed id =>
      refine ⟨order, explains.replays, ?_, explains.acted, fun other call' waiting =>
        List.mem_append_left _ (explains.waiting other call' waiting), fun other still call' => ?_⟩
      · exact explains.linear.see (fun _ _ same => by cases same) fun _ _ same => by cases same
      · simpa [Act.notice?] using explains.idle other still call'

theorem Explains.steps (explains : Explains start history order atomic) {acts : List O.Act}
    {after : O.Atomic} (steps : atomic.Steps acts after) :
    ∃ order', Explains start (history ++ acts.filterMap Act.notice?) order' after := by
  induction steps generalizing history order with
  | none => exact ⟨order, by simpa using explains⟩
  | @more atomic between after act acts step rest ih =>
      obtain ⟨order', explains'⟩ := explains.step step
      obtain ⟨order'', explains''⟩ := ih explains'
      refine ⟨order'', ?_⟩
      have same : history ++ act.notice?.toList ++ acts.filterMap Act.notice? =
          history ++ (act :: acts).filterMap Act.notice? := by
        cases act with
        | seen notice => simp [Act.notice?]
        | begin id =>
            rw [List.filterMap_cons_none rfl]
            simp [Act.notice?]
        | act id answer =>
            rw [List.filterMap_cons_none rfl]
            simp [Act.notice?]
      rwa [same] at explains''

/-- What happens at an atomic object can be explained. -/
theorem linearizes {acts : List O.Act} {after : O.Atomic}
    (steps : (Atomic.initial start).Steps acts after) :
    ∃ order, Linearizes start (acts.filterMap Act.notice?) order ∧
      Replays start order after.state := by
  obtain ⟨order, explains⟩ := (Explains.initial start).steps steps
  exact ⟨order, by simpa using explains.linear, explains.replays⟩

end Linearize

structure Implementation (O : SerialObject) where
  State : Type
  Move : Type
  step : State → Move → State
  notices : State → Move → List O.Notice

namespace Implementation

variable (I : Implementation O)

def run (state : I.State) (moves : List I.Move) : I.State := moves.foldl I.step state

def history (state : I.State) : List I.Move → List O.Notice
  | [] => []
  | move :: rest => I.notices state move ++ history (I.step state move) rest

/-- Every step is one of an atomic object, or several. -/
structure Refines (sound : I.State → Prop) (atomic : I.State → O.Atomic) : Prop where
  keeps : ∀ state move, sound state → sound (I.step state move)
  simulates : ∀ state move, sound state → ∃ acts,
    acts.filterMap Act.notice? = I.notices state move ∧
      (atomic state).Steps acts (atomic (I.step state move))

variable {I} {sound : I.State → Prop} {atomic : I.State → O.Atomic}

theorem Refines.run (refines : I.Refines sound atomic) {state : I.State} (holds : sound state)
    (moves : List I.Move) : sound (I.run state moves) ∧ ∃ acts,
      acts.filterMap Act.notice? = I.history state moves ∧
        (atomic state).Steps acts (atomic (I.run state moves)) := by
  induction moves generalizing state with
  | nil => exact ⟨holds, [], rfl, .none⟩
  | cons move rest ih =>
      obtain ⟨kept, acts, seen, steps⟩ := ih (refines.keeps state move holds)
      obtain ⟨front, seen', steps'⟩ := refines.simulates state move holds
      exact ⟨kept, front ++ acts, by rw [List.filterMap_append, seen, seen']; rfl,
        steps'.append steps⟩

/-- All that callers can see of an implementation, from a state where nobody has called, is
explained by an order in which the calls act one after another. -/
theorem Refines.linearizes (refines : I.Refines sound atomic) {state : I.State}
    (holds : sound state) (unused : ∀ id, (atomic state).stage id = .idle) (moves : List I.Move) :
    ∃ order, Linearizes (atomic state).state (I.history state moves) order ∧
      Replays (atomic state).state order (atomic (I.run state moves)).state := by
  obtain ⟨-, acts, seen, steps⟩ := refines.run holds moves
  have initial : atomic state = Atomic.initial (atomic state).state := by
    rw [Atomic.initial, ← funext unused]
  rw [initial] at steps
  obtain ⟨order, linear, replays⟩ := SerialObject.linearizes steps
  exact ⟨order, seen ▸ linear, replays⟩

end Implementation

section Calls

variable {C : Type} (stage : C → O.Stage) (ended : C → Option (Option O.Answer))

def stages (calls : List C) (id : Nat) : O.Stage :=
  match calls[id]? with
  | some call => stage call
  | none => .idle

def ending (id : Nat) (before after : C) : List O.Notice :=
  match ended before, ended after with
  | none, some (some answer) => [.answered id answer]
  | none, some none => [.failed id]
  | none, none => []
  | some _, _ => []

theorem stages_concat (calls : List C) (call : C) : stages stage (calls ++ [call]) =
    Function.update (stages stage calls) calls.length (stage call) := by
  funext id
  by_cases same : id = calls.length
  · subst same
    simp [stages]
  · rw [Function.update_of_ne same]
    rcases Nat.lt_or_gt_of_ne same with before | after
    · simp only [stages, List.getElem?_append_left before]
    · have absent : (calls ++ [call])[id]? = none := by simp; omega
      have absent' : calls[id]? = none := by simp; omega
      simp only [stages, absent, absent']

theorem stages_found {calls : List C} {id : Nat} {call : C} (found : calls[id]? = some call) :
    stages stage calls id = stage call := by
  simp only [stages, found]

theorem stages_set {calls : List C} {id : Nat} {call : C} (found : calls[id]? = some call)
    (next : C) : stages stage (calls.set id next) =
      Function.update (stages stage calls) id (stage next) := by
  funext other
  by_cases same : other = id
  · subst same
    simp [stages, List.getElem?_set_self (List.getElem?_eq_some_iff.mp found).1]
  · rw [Function.update_of_ne same]
    simp only [stages, List.getElem?_set_ne (Ne.symm same)]

theorem steps_called (state : O.State) (calls : List C) {next : C} {call : O.Call}
    (waiting : stage next = .waiting call) :
    Atomic.Steps ⟨state, stages stage calls⟩ [.seen (.called calls.length call)]
      ⟨state, stages stage (calls ++ [next])⟩ := by
  rw [stages_concat, waiting]
  exact .one (.called (by simp [stages]))

inductive Furthers (state after : O.State) (call next : C) : Prop
  | stays (same : stage next = stage call) (unchanged : after = state)
  | begins (request : O.Call) (waiting : stage call = .waiting request)
      (begins : O.Begins state request after) (same : stage next = stage call)
  | acts (request : O.Call) (answer : O.Answer) (waiting : stage call = .waiting request)
      (does : O.Does state request after answer) (acted : stage next = .acted request answer)

variable {stage}

/-- The step of one call is a step of an atomic object, if answers tell what was done. -/
theorem Furthers.steps {state after : O.State} {calls : List C} {id : Nat} {call next : C}
    (advances : Furthers stage state after call next) (found : calls[id]? = some call)
    (told : ∀ answer, ended next = some (some answer) →
      ∃ request, stage next = .acted request answer) :
    ∃ acts, acts.filterMap Act.notice? = ending ended id call next ∧
      Atomic.Steps ⟨state, stages stage calls⟩ acts ⟨after, stages stage (calls.set id next)⟩ := by
  have acting : ∃ acts : List O.Act, acts.filterMap Act.notice? = [] ∧
      Atomic.Steps ⟨state, stages stage calls⟩ acts ⟨after, stages stage (calls.set id next)⟩ := by
    cases advances with
    | stays same unchanged =>
        refine ⟨[], rfl, ?_⟩
        rw [unchanged, stages_set stage found, same, ← stages_found stage found,
          Function.update_eq_self]
        exact .none
    | begins request waiting begins same =>
        refine ⟨[.begin id], rfl, ?_⟩
        rw [stages_set stage found, same, ← stages_found stage found, Function.update_eq_self]
        exact .one (.begins ((stages_found stage found).trans waiting) begins)
    | acts request answer waiting does acted =>
        refine ⟨[.act id answer], rfl, ?_⟩
        rw [stages_set stage found, acted]
        exact .one (.act ((stages_found stage found).trans waiting) does)
  obtain ⟨acts, silent, steps⟩ := acting
  have mine : stages stage (calls.set id next) id = stage next := by
    rw [stages_set stage found, Function.update_self]
  refine ⟨acts ++ (ending ended id call next).map .seen, ?_, steps.append ?_⟩
  · rw [List.filterMap_append, silent, List.nil_append, List.filterMap_map]
    exact List.filterMap_some
  · unfold ending
    split
    next answer _ given =>
        obtain ⟨request, acted⟩ := told answer given
        exact .one (.answered (mine.trans acted))
    next => exact .one .failed
    next => exact .none
    next => exact .none

end Calls

end SerialObject
end MbxCache.Concurrent
