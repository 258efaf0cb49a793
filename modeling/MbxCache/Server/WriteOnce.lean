import MbxCache.Server.Sharing

namespace MbxCache

open Concurrent

inductive StoreRequest
  | commit (ns : String) (action : Digest) (result : ActionResult)
  | get (ns : String) (action : Digest)
  | getBatch (ns : String) (actions : List Digest)

inductive StoreAnswer
  | committed (outcome : CommitOutcome)
  | found (result : Option ActionResult)
  | batch (results : List ActionResult)

abbrev StoreReply := StoreRequest × Except ApiError StoreAnswer

namespace StoreRequest

def ask : StoreRequest → Handler StoreAnswer
  | .commit ns action result => do return .committed (← MbxCache.commit ns action result)
  | .get ns action => do return .found (← getResult ns action)
  | .getBatch ns actions => do return .batch (← MbxCache.getBatch ns actions)

def program (request : StoreRequest) : Program Api StoreReply :=
  Program.bind request.ask fun reply => .done (request, reply)

def resolved (ns : String) (action : Digest) (result : ActionResult) :
    Except Failure CommitOutcome → Program Api StoreReply
  | .error failure => .done (.commit ns action result, .error (.internal failure))
  | .ok outcome => .done (.commit ns action result, .ok (.committed outcome))

def settle (ns : String) (action : Digest) (result : ActionResult) : Program Api StoreReply :=
  .call (.resolve ns action result) (resolved ns action result)

def inserted (ns : String) (action : Digest) (result : ActionResult) :
    Except Failure CommitStep → Program Api StoreReply
  | .error failure => .done (.commit ns action result, .error (.internal failure))
  | .ok (.answered outcome) => .done (.commit ns action result, .ok (.committed outcome))
  | .ok .pending => settle ns action result

def replied {α : Type} (request : StoreRequest) (wrap : α → StoreAnswer) :
    Except Failure α → Program Api StoreReply
  | .error failure => .done (request, .error (.internal failure))
  | .ok found => .done (request, .ok (wrap found))

theorem program_commit (ns : String) (action : Digest) (result : ActionResult) :
    (StoreRequest.commit ns action result).program =
      .call (.commit ns action result) (inserted ns action result) := by
  apply congrArg (Program.call _)
  funext committed
  rcases committed with failure | outcome | _
  · rfl
  · rfl
  · apply congrArg (Program.call _)
    funext found
    cases found <;> rfl

theorem program_get (ns : String) (action : Digest) :
    (StoreRequest.get ns action).program =
      .call (.getResult ns action) (replied (.get ns action) .found) := by
  apply congrArg (Program.call _)
  funext read
  cases read <;> rfl

theorem program_getBatch (ns : String) (actions : List Digest) :
    (StoreRequest.getBatch ns actions).program =
      .call (.getBatch ns actions) (replied (.getBatch ns actions) .batch) := by
  apply congrArg (Program.call _)
  funext read
  cases read <;> rfl

end StoreRequest

def Tells (before after : View) : StoreRequest → StoreAnswer → Prop
  | .commit ns action result, .committed .created =>
      before.result ns action = none ∧ after.result ns action = some result
  | .commit ns action result, .committed outcome =>
      ∃ held, before.result ns action = some held ∧ outcome = View.verdict held result
  | .get ns action, .found found => found = before.result ns action
  | .getBatch ns actions, .batch results => results = actions.filterMap (before.result ns)
  | _, _ => False

/-- How far a client has come: it has not begun, it looks into a conflict with a result
that is there, or it has its reply. -/
inductive Stage (view : View) : StoreRequest → Program Api StoreReply → Prop
  | asked (request : StoreRequest) : Stage view request request.program
  | deferred (ns : String) (action : Digest) (result : ActionResult)
      (present : (view.result ns action).isSome) :
      Stage view (.commit ns action result) (StoreRequest.settle ns action result)
  | answered (request : StoreRequest) (reply : Except ApiError StoreAnswer) :
      Stage view request (.done (request, reply))

structure Progress (before after : View) (request : StoreRequest)
    (main : Program Api StoreReply) : Prop where
  grows : ∀ ns action result, before.result ns action = some result →
    after.result ns action = some result
  stage : Stage after request main
  told : ∀ reply, main.result? = some reply → reply.1 = request ∧
    ∀ answer, reply.2 = .ok answer → Tells before after request answer
  origin : ∀ ns action held, before.result ns action = none →
    after.result ns action = some held →
    main = .done (.commit ns action held, .ok (.committed .created)) ∨
      ∃ error, main = .done (.commit ns action held, .error error)

namespace Progress

variable {view after : View} {request : StoreRequest}

theorem answer {answer : StoreAnswer} (tells : Tells view view request answer) :
    Progress view view request (.done (request, .ok answer)) where
  grows _ _ _ held := held
  stage := .answered _ _
  told reply same := by
    cases same
    exact ⟨rfl, fun _ same => by cases same; exact tells⟩
  origin ns action held absent present := by
    rw [absent] at present
    cases present

theorem failed (error : ApiError) : Progress view view request (.done (request, .error error)) where
  grows _ _ _ held := held
  stage := .answered _ _
  told reply same := by
    cases same
    exact ⟨rfl, fun _ same => by cases same⟩
  origin ns action held absent present := by
    rw [absent] at present
    cases present

theorem stores {ns : String} {action : Digest} {result : ActionResult}
    {reply : Except ApiError StoreAnswer} (absent : view.result ns action = none)
    (replied : reply = .ok (.committed .created) ∨ ∃ error, reply = .error error) :
    Progress view (view.setResult ns action result) (.commit ns action result)
      (.done (.commit ns action result, reply)) := by
  have stored : (view.setResult ns action result).result ns action = some result :=
    View.assign_same _ _ _ _
  refine ⟨?_, .answered _ _, ?_, ?_⟩
  · intro other key found held
    simp only [View.setResult, View.assign]
    split
    · rename_i same
      rw [same.1, same.2, absent] at held
      cases held
    · exact held
  · intro reply' same
    cases same
    refine ⟨rfl, fun answer same => ?_⟩
    rcases replied with created | ⟨error, refused⟩
    · simp only [created] at same
      cases same
      exact ⟨absent, stored⟩
    · simp only [refused] at same
      cases same
  · intro other key held missing present
    simp only [View.setResult, View.assign] at present
    split at present
    · rename_i same
      cases present
      rw [same.1, same.2]
      rcases replied with rfl | ⟨error, rfl⟩
      · exact .inl rfl
      · exact .inr ⟨error, rfl⟩
    · rw [missing] at present
      cases present

theorem conflicting {ns : String} {action : Digest} {result held : ActionResult}
    (present : view.result ns action = some held) :
    Progress view view (.commit ns action result)
      (.done (.commit ns action result, .ok (.committed (View.verdict held result)))) := by
  apply answer
  unfold View.verdict
  split
  · rename_i same
    exact ⟨held, present, by simp [View.verdict, same]⟩
  · rename_i different
    exact ⟨held, present, by simp [View.verdict, different]⟩

theorem defers {ns : String} {action : Digest} {result : ActionResult}
    (present : (view.result ns action).isSome) :
    Progress view view (.commit ns action result) (StoreRequest.settle ns action result) where
  grows _ _ _ held := held
  stage := .deferred ns action result present
  told reply same := by cases same
  origin ns action held absent present := by
    rw [absent] at present
    cases present

end Progress

variable [Protocol] {M : Type} [MetadataStore M]

def Advances (state : ServerState M) (request : StoreRequest)
    (next : ServerState M × Program Api StoreReply) : Prop :=
  MetadataStore.valid next.1.metadata ∧ Progress state.view next.1.view request next.2

section Steps
variable {state : ServerState M} (valid : MetadataStore.valid state.metadata)
include valid

theorem inserted_advances (ns : String) (action : Digest) (result : ActionResult) (now : Instant)
    {executed : ServerState M × Except Failure CommitStep}
    (execution : Executed state
      (state.write (MetadataStore.commit state.metadata now ns action result)) executed) :
    Advances state (.commit ns action result)
      (executed.1, StoreRequest.inserted ns action result executed.2) := by
  have effect : ∀ {after step},
      state.write (MetadataStore.commit state.metadata now ns action result) = .ok (after, step) →
      MetadataStore.valid after.metadata ∧
        after.view = (state.view.commit ns action result).1 ∧
        step = state.view.commitStep (MetadataStore.defers M) ns action result := by
    intro after step performed
    obtain ⟨metadata, written, rfl⟩ := write_ok performed
    cases fits : MetadataStore.representsResult M ns action result with
    | false =>
        rw [MetadataStore.commit_refused _ _ _ _ _ fits] at written
        cases written
    | true =>
        obtain ⟨stored, committed, still, seen⟩ :=
          MetadataStore.commit_view now ns action result valid fits
        rw [committed] at written
        cases written
        exact ⟨still, seen, rfl⟩
  cases execution with
  | skipped failure => exact ⟨valid, .failed _⟩
  | lost after step failure performed =>
      obtain ⟨still, seen, _⟩ := effect performed
      refine ⟨still, ?_⟩
      simp only [seen, View.commit]
      split
      · rename_i absent
        exact .stores absent (.inr ⟨_, rfl⟩)
      · exact .failed _
  | answered after step performed =>
      obtain ⟨still, seen, rfl⟩ := effect performed
      refine ⟨still, ?_⟩
      simp only [seen, View.commit, View.commitStep]
      split
      · rename_i absent
        simp only [absent, Option.isSome_none, Bool.and_false, Bool.false_eq_true, if_false]
        exact .stores absent (.inl rfl)
      · rename_i held present
        simp only [present, Option.isSome_some, Bool.and_true]
        split
        · exact .defers (by rw [present]; rfl)
        · exact .conflicting present

theorem resolved_advances (ns : String) (action : Digest) (result : ActionResult)
    {executed : ServerState M × Except Failure CommitOutcome}
    (execution : Executed state
      (state.look (MetadataStore.resolve state.metadata ns action result)) executed) :
    Advances state (.commit ns action result)
      (executed.1, StoreRequest.resolved ns action result executed.2) := by
  cases execution with
  | skipped failure => exact ⟨valid, .failed _⟩
  | lost after outcome failure performed =>
      obtain ⟨_, rfl⟩ := look_ok performed
      exact ⟨valid, .failed _⟩
  | answered after outcome performed =>
      obtain ⟨settled, rfl⟩ := look_ok performed
      rw [MetadataStore.resolve_view ns action result valid] at settled
      split at settled
      · cases settled
      · rename_i held present
        cases settled
        exact ⟨valid, .conflicting present⟩

theorem replied_advances {α : Type} {request : StoreRequest} {wrap : α → StoreAnswer}
    {result : Except Failure α}
    (tells : ∀ found, result = .ok found → Tells state.view state.view request (wrap found))
    {executed : ServerState M × Except Failure α}
    (execution : Executed state (state.look result) executed) :
    Advances state request (executed.1, StoreRequest.replied request wrap executed.2) := by
  cases execution with
  | skipped failure => exact ⟨valid, .failed _⟩
  | lost after value failure performed =>
      obtain ⟨_, rfl⟩ := look_ok performed
      exact ⟨valid, .failed _⟩
  | answered after value performed =>
      obtain ⟨read, rfl⟩ := look_ok performed
      exact ⟨valid, .answer (tells value read)⟩

theorem Stage.stepMain {request : StoreRequest} {process : Process Api StoreReply}
    (choice : Choice) (stage : Stage state.view request process.main)
    (waiting : process.answer = none) :
    ((server M).stepMain choice state process).2.tasks = process.tasks ∧
      Advances state request (((server M).stepMain choice state process).1,
        ((server M).stepMain choice state process).2.main) := by
  generalize begun : process.main = main at stage
  cases stage with
  | asked request =>
      cases request with
      | commit ns action result =>
          rw [StoreRequest.program_commit] at begun
          rw [Machine.stepMain_call (server M) begun]
          exact ⟨rfl, inserted_advances valid ns action result choice.now
            (exec_executed choice (.commit ns action result) state)⟩
      | get ns action =>
          rw [StoreRequest.program_get] at begun
          rw [Machine.stepMain_call (server M) begun]
          have tells : ∀ found, MetadataStore.get state.metadata ns action = .ok found →
              Tells state.view state.view (.get ns action) (.found found) :=
            fun found read => MetadataStore.get_answered valid read
          exact ⟨rfl, replied_advances valid tells
            (exec_executed choice (.getResult ns action) state)⟩
      | getBatch ns actions =>
          rw [StoreRequest.program_getBatch] at begun
          rw [Machine.stepMain_call (server M) begun]
          have tells : ∀ found, MetadataStore.getBatch state.metadata ns actions = .ok found →
              Tells state.view state.view (.getBatch ns actions) (.batch found) :=
            fun found read => MetadataStore.getBatch_answered valid read
          exact ⟨rfl, replied_advances valid tells
            (exec_executed choice (.getBatch ns actions) state)⟩
  | deferred ns action result present =>
      rw [Machine.stepMain_call (server M) begun]
      exact ⟨rfl, resolved_advances valid ns action result
        (exec_executed choice (.resolve ns action result) state)⟩
  | answered request reply =>
      rw [Process.answer, begun] at waiting
      cases waiting

theorem Stage.step {request : StoreRequest} {process : Process Api StoreReply}
    (move : Move Choice) (stage : Stage state.view request process.main)
    (idle : process.tasks = []) :
    ((server M).step state process move).2.tasks = [] ∧
      (((server M).step state process move).1 = state ∧
          ((server M).step state process move).2.main = process.main ∨
        process.answer = none ∧ Advances state request (((server M).step state process move).1,
          ((server M).step state process move).2.main)) := by
  cases move with
  | main choice =>
      simp only [Machine.step]
      split
      · exact ⟨idle, .inl ⟨rfl, rfl⟩⟩
      · cases waiting : process.answer with
        | none =>
            obtain ⟨kept, advances⟩ := stage.stepMain valid choice waiting
            exact ⟨kept.trans idle, .inr ⟨rfl, advances⟩⟩
        | some reply =>
            rw [Machine.stepMain_done (server M) (Program.result?_eq waiting)]
            exact ⟨idle, .inl ⟨rfl, rfl⟩⟩
  | task id choice =>
      simp only [Machine.step, idle, List.getElem?_nil]
      exact ⟨trivial, .inl ⟨trivial, trivial⟩⟩
  | abort id =>
      simp only [Machine.step, idle, List.getElem?_nil]
      exact ⟨trivial, .inl ⟨trivial, trivial⟩⟩
  | drop => exact ⟨idle, .inl ⟨rfl, rfl⟩⟩

end Steps

def Replied (config : Config (server M) StoreReply) (pid : Nat) (request : StoreRequest)
    (reply : Except ApiError StoreAnswer) : Prop :=
  ∃ process, config.procs pid = some process ∧ process.answer = some (request, reply)

def Creates (config : Config (server M) StoreReply) (pid : Nat) (ns : String) (action : Digest)
    (result : ActionResult) : Prop :=
  Replied config pid (.commit ns action result) (.ok (.committed .created))

def Known (view : View) : StoreRequest → StoreAnswer → Prop
  | .commit ns action result, .committed .created => view.result ns action = some result
  | .commit ns action result, .committed outcome =>
      ∃ held, view.result ns action = some held ∧ outcome = View.verdict held result
  | .commit _ _ _, _ => False
  | _, _ => True

omit [Protocol] in
theorem Tells.known {before after : View} {request : StoreRequest} {answer : StoreAnswer}
    (tells : Tells before after request answer)
    (grows : ∀ ns action result, before.result ns action = some result →
      after.result ns action = some result) : Known after request answer := by
  cases request with
  | commit ns action result =>
      cases answer with
      | committed outcome =>
          cases outcome with
          | created => exact tells.2
          | alreadyExists =>
              obtain ⟨held, present, verdict⟩ := tells
              exact ⟨held, grows ns action held present, verdict⟩
          | conflict =>
              obtain ⟨held, present, verdict⟩ := tells
              exact ⟨held, grows ns action held present, verdict⟩
      | found result => cases tells
      | batch results => cases tells
  | get ns action => trivial
  | getBatch ns actions => trivial

omit [Protocol] in
theorem Known.later {before after : View} {request : StoreRequest} {answer : StoreAnswer}
    (known : Known before request answer)
    (grows : ∀ ns action result, before.result ns action = some result →
      after.result ns action = some result) : Known after request answer := by
  cases request with
  | commit ns action result =>
      cases answer with
      | committed outcome =>
          cases outcome with
          | created => exact grows ns action result known
          | alreadyExists =>
              obtain ⟨held, present, verdict⟩ := known
              exact ⟨held, grows ns action held present, verdict⟩
          | conflict =>
              obtain ⟨held, present, verdict⟩ := known
              exact ⟨held, grows ns action held present, verdict⟩
      | found result => exact known
      | batch results => exact known
  | get ns action => trivial
  | getBatch ns actions => trivial

omit [Protocol] in
theorem Stage.later {before after : View} {request : StoreRequest}
    {main : Program Api StoreReply} (stage : Stage before request main)
    (grows : ∀ ns action result, before.result ns action = some result →
      after.result ns action = some result) : Stage after request main := by
  cases stage with
  | asked => exact .asked request
  | deferred ns action result present =>
      obtain ⟨held, stored⟩ := Option.isSome_iff_exists.mp present
      exact .deferred ns action result (by rw [grows ns action held stored]; rfl)
  | answered => exact .answered _ _

structure Going (config : Config (server M) StoreReply) : Prop where
  valid : MetadataStore.valid config.state.metadata
  idle : ∀ pid process, config.procs pid = some process → process.tasks = []
  stages : ∀ pid process, config.procs pid = some process →
    ∃ request, Stage config.state.view request process.main

/-- What an action may do: replies stay, results stay, and at most one reply is new, with
what it tells of the results around the action. -/
structure Turn (before after : Config (server M) StoreReply) : Prop where
  grows : ∀ ns action result, before.state.view.result ns action = some result →
    after.state.view.result ns action = some result
  keeps : ∀ pid request reply, Replied before pid request reply → Replied after pid request reply
  fresh : ∀ pid request answer, Replied after pid request (.ok answer) →
    Replied before pid request (.ok answer) ∨
      Tells before.state.view after.state.view request answer
  single : ∀ pid other request answer request' answer',
    Replied after pid request (.ok answer) → Replied after other request' (.ok answer') →
    pid ≠ other → Replied before pid request (.ok answer) ∨
      Replied before other request' (.ok answer')
  origin : ∀ ns action held, before.state.view.result ns action = none →
    after.state.view.result ns action = some held →
    ∃ pid, Creates after pid ns action held ∨
      ∃ error, Replied after pid (.commit ns action held) (.error error)

theorem Turn.quiet {before after : Config (server M) StoreReply} (same : after.state = before.state)
    (replies : ∀ pid request reply, Replied after pid request reply ↔
      Replied before pid request reply) : Turn before after where
  grows ns action result held := by rw [same]; exact held
  keeps pid request reply replied := (replies pid request reply).mpr replied
  fresh pid request answer replied := .inl ((replies pid request _).mp replied)
  single pid other request answer request' answer' one two _ :=
    .inl ((replies pid request _).mp one)
  origin ns action held absent present := by
    rw [same, absent] at present
    cases present

theorem replied_setProc {config : Config (server M) StoreReply} {state : ServerState M} {pid : Nat}
    {process : Process Api StoreReply} {other : Nat} {request : StoreRequest}
    {reply : Except ApiError StoreAnswer} :
    Replied ⟨state, config.setProc pid process⟩ other request reply ↔
      if other = pid then process.answer = some (request, reply)
      else Replied config other request reply := by
  unfold Replied Config.setProc
  by_cases same : other = pid <;> simp [same]

theorem Going.setProc {config : Config (server M) StoreReply} {state : ServerState M} {pid : Nat}
    {process : Process Api StoreReply} {request : StoreRequest} (going : Going config)
    (valid : MetadataStore.valid state.metadata)
    (grows : ∀ ns action result, config.state.view.result ns action = some result →
      state.view.result ns action = some result)
    (idle : process.tasks = []) (stage : Stage state.view request process.main) :
    Going ⟨state, config.setProc pid process⟩ := by
  refine ⟨valid, ?_, ?_⟩
  · intro other found present
    simp only [Config.setProc] at present
    split at present
    · cases present
      exact idle
    · exact going.idle other found present
  · intro other found present
    simp only [Config.setProc] at present
    split at present
    · cases present
      exact ⟨request, stage⟩
    · obtain ⟨asked, before⟩ := going.stages other found present
      exact ⟨asked, before.later grows⟩

theorem Turn.advance {config : Config (server M) StoreReply} {state : ServerState M} {pid : Nat}
    {before after : Process Api StoreReply} {request : StoreRequest}
    (present : config.procs pid = some before) (waiting : before.answer = none)
    (progress : Progress config.state.view state.view request after.main) :
    Turn config ⟨state, config.setProc pid after⟩ := by
  have other : ∀ number asked reply, Replied config number asked reply → number ≠ pid := by
    rintro number asked reply ⟨found, held, replied⟩ rfl
    rw [present] at held
    cases held
    rw [waiting] at replied
    cases replied
  refine ⟨progress.grows, ?_, ?_, ?_, ?_⟩
  · intro number asked reply replied
    rw [replied_setProc, if_neg (other number asked reply replied)]
    exact replied
  · intro number asked answer replied
    rw [replied_setProc] at replied
    split at replied
    · obtain ⟨rfl, tells⟩ := progress.told _ replied
      exact .inr (tells answer rfl)
    · exact .inl replied
  · intro number another asked answer asked' answer' one two different
    rw [replied_setProc] at one two
    split at one
    · rename_i same
      rw [if_neg fun equal => different (same.trans equal.symm)] at two
      exact .inr two
    · exact .inl one
  · intro ns action held absent stored
    refine ⟨pid, ?_⟩
    rcases progress.origin ns action held absent stored with created | ⟨error, lost⟩
    · refine .inl ?_
      rw [Creates, replied_setProc, if_pos rfl, Process.answer, created]
      rfl
    · refine .inr ⟨error, ?_⟩
      rw [replied_setProc, if_pos rfl, Process.answer, lost]
      rfl

omit [Protocol] in
theorem StoreRequest.program_waits (request : StoreRequest) : request.program.result? = none := by
  cases request with
  | commit ns action result => rw [program_commit]; rfl
  | get ns action => rw [program_get]; rfl
  | getBatch ns actions => rw [program_getBatch]; rfl

theorem Going.step {config : Config (server M) StoreReply} (going : Going config)
    (action : Action StoreRequest Choice) :
    Going (config.step StoreRequest.program action) ∧
      Turn config (config.step StoreRequest.program action) := by
  have same : Going config ∧ Turn config config := ⟨going, .quiet rfl fun _ _ _ => .rfl⟩
  cases action with
  | start pid request =>
      simp only [Config.step]
      split
      · exact same
      · rename_i absent
        refine ⟨going.setProc going.valid (fun _ _ _ held => held) rfl (.asked request), ?_⟩
        refine Turn.quiet (show config.state = config.state from rfl) ?_
        intro number asked reply
        rw [replied_setProc]
        split
        · rename_i same
          subst same
          simp [Process.answer, Process.start, request.program_waits, Replied, absent]
        · exact .rfl
  | move pid move =>
      simp only [Config.step]
      split
      · exact same
      · rename_i process present
        obtain ⟨request, stage⟩ := going.stages pid process present
        obtain ⟨idle, quiet | ⟨waiting, valid, progress⟩⟩ :=
          stage.step going.valid move (going.idle pid process present)
        · obtain ⟨unchanged, kept⟩ := quiet
          rw [← kept] at stage
          refine ⟨going.setProc (by rw [unchanged]; exact going.valid)
            (fun _ _ _ held => by rw [unchanged]; exact held) idle
            (by rw [unchanged]; exact stage), ?_⟩
          apply Turn.quiet unchanged
          intro number asked reply
          rw [replied_setProc]
          split
          · rename_i same
            subst same
            simp [Process.answer, kept, Replied, present]
          · exact .rfl
        · exact ⟨going.setProc valid progress.grows idle progress.stage,
            .advance present waiting progress⟩

structure Recorded (config : Config (server M) StoreReply) : Prop where
  going : Going config
  known : ∀ pid request answer, Replied config pid request (.ok answer) →
    Known config.state.view request answer
  unique : ∀ pid other ns action result result', Creates config pid ns action result →
    Creates config other ns action result' → pid = other
  origin : ∀ ns action held, config.state.view.result ns action = some held →
    ∃ pid, Creates config pid ns action held ∨
      ∃ error, Replied config pid (.commit ns action held) (.error error)

theorem Recorded.initial :
    Recorded (Config.initial (server M) StoreReply (ServerState.initial M)) where
  going := ⟨MetadataStore.empty_valid, nofun, nofun⟩
  known _ _ _ replied := by
    obtain ⟨_, none, _⟩ := replied
    cases none
  unique _ _ _ _ _ _ created := by
    obtain ⟨_, none, _⟩ := created
    cases none
  origin ns action held stored := by
    simp [Config.initial, ServerState.view, ServerState.initial, freshStore,
      MetadataStore.empty_view, View.empty] at stored

/-- A key is created by one client only: whoever comes later finds its result. -/
theorem Turn.creates {before after : Config (server M) StoreReply} (turn : Turn before after)
    (recorded : Recorded before) {pid other : Nat} {ns : String} {action : Digest}
    {result result' : ActionResult} (first : Creates after pid ns action result)
    (second : Creates after other ns action result') : pid = other := by
  by_contra different
  -- Of two different clients only one can have its reply from this action.
  have late : ∀ {old young : Nat} {earlier later : ActionResult},
      Creates before old ns action earlier → Creates after young ns action later → old = young := by
    intro old young earlier later created creating
    rcases turn.fresh young _ _ creating with already | ⟨absent, _⟩
    · exact recorded.unique old young ns action earlier later created already
    · have present := recorded.known old _ _ created
      rw [Known, absent] at present
      cases present
  rcases turn.single pid other _ _ _ _ first second different with old | old
  · exact different (late old second)
  · exact different (late old first).symm

theorem Recorded.step {config : Config (server M) StoreReply} (recorded : Recorded config)
    (action : Action StoreRequest Choice) :
    Recorded (config.step StoreRequest.program action) := by
  obtain ⟨going, turn⟩ := recorded.going.step action
  refine ⟨going, ?_, ?_, ?_⟩
  · intro pid request answer replied
    rcases turn.fresh pid request answer replied with old | tells
    · exact (recorded.known pid request answer old).later turn.grows
    · exact tells.known turn.grows
  · exact fun _ _ _ _ _ _ first second => turn.creates recorded first second
  · intro ns action held stored
    cases before : config.state.view.result ns action with
    | none => exact turn.origin ns action held before stored
    | some existing =>
        have same := turn.grows ns action existing before
        rw [stored] at same
        cases same
        obtain ⟨pid, created | ⟨error, lost⟩⟩ := recorded.origin ns action held before
        · exact ⟨pid, .inl (turn.keeps pid _ _ created)⟩
        · exact ⟨pid, .inr ⟨error, turn.keeps pid _ _ lost⟩⟩

theorem Recorded.run {config : Config (server M) StoreReply} (recorded : Recorded config)
    (actions : List (Action StoreRequest Choice)) :
    Recorded (config.run StoreRequest.program actions) := by
  induction actions generalizing config with
  | nil => exact recorded
  | cons action rest ih => exact ih (recorded.step action)

def clients (M : Type) [MetadataStore M] (actions : List (Action StoreRequest Choice)) :
    Config (server M) StoreReply :=
  (Config.initial (server M) StoreReply (ServerState.initial M)).run StoreRequest.program actions

/-- A reply formed while a key has a result: reads of the key return it, and commits
meet it. -/
def Agrees (ns : String) (action : Digest) (result : ActionResult) :
    StoreRequest → StoreAnswer → Prop
  | .commit other key committed, .committed outcome =>
      other = ns → key = action → outcome = View.verdict result committed
  | .get other key, .found found => other = ns → key = action → found = some result
  | .getBatch other keys, .batch results =>
      other = ns → ∃ table : Digest → Option ActionResult,
        table action = some result ∧ results = keys.filterMap table
  | _, _ => False

omit [Protocol] in
theorem Tells.agrees {before after : View} {ns : String} {action : Digest}
    {result : ActionResult} {request : StoreRequest} {answer : StoreAnswer}
    (tells : Tells before after request answer)
    (held : before.result ns action = some result) : Agrees ns action result request answer := by
  cases request with
  | commit other key committed =>
      cases answer with
      | committed outcome =>
          rintro rfl rfl
          cases outcome with
          | created =>
              rw [Tells, held] at tells
              cases tells.1
          | alreadyExists =>
              obtain ⟨found, present, verdict⟩ := tells
              rw [held] at present
              cases present
              exact verdict
          | conflict =>
              obtain ⟨found, present, verdict⟩ := tells
              rw [held] at present
              cases present
              exact verdict
      | found result => cases tells
      | batch results => cases tells
  | get other key =>
      cases answer with
      | found result =>
          rintro rfl rfl
          exact tells.trans held
      | committed outcome => cases tells
      | batch results => cases tells
  | getBatch other keys =>
      cases answer with
      | batch results =>
          rintro rfl
          exact ⟨before.result other, held, tells⟩
      | committed outcome => cases tells
      | found result => cases tells

/-- After a key has a result, every new reply agrees with it. -/
theorem Recorded.later {config : Config (server M) StoreReply} (recorded : Recorded config)
    {ns : String} {action : Digest} {result : ActionResult}
    (held : config.state.view.result ns action = some result)
    (actions : List (Action StoreRequest Choice)) {pid : Nat} {request : StoreRequest}
    {answer : StoreAnswer}
    (replied : Replied (config.run StoreRequest.program actions) pid request (.ok answer)) :
    Replied config pid request (.ok answer) ∨ Agrees ns action result request answer := by
  induction actions generalizing config with
  | nil => exact .inl replied
  | cons first rest ih =>
      have turn := (recorded.going.step first).2
      rcases ih (recorded.step first) (turn.grows ns action result held) replied with old | agrees
      · rcases turn.fresh pid request answer old with before | tells
        · exact .inl before
        · exact .inr (tells.agrees held)
      · exact .inr agrees

end MbxCache
