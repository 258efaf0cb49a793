import MbxCache.Server.Accepted
import MbxCache.Server.BatchLookup
import MbxCache.Server.ReadBack

namespace MbxCache

open Concurrent Pack

variable [Protocol] {M : Type} [MetadataStore M] {ns : String}

variable (M) in
structure Answered (config : ServerConfig) (actions : List (Action Request Choice)) (pid : Nat)
    (request : Request) (result : Except ApiError Response) : Prop where
  arrived : Concurrent.served actions pid = some request
  answered : ∃ process, (reached M config actions).procs pid = some process ∧
    process.answer = some result

variable (M) in
def reachedState (config : ServerConfig) (actions : List (Action Request Choice)) : Shared M :=
  ⟨(reached M config actions).state, (reached_disciplined config actions).inv⟩

variable (M) in
def askedBy (config : ServerConfig) (actions : List (Action Request Choice)) (pid : Nat) :
    List (Asked Api) := ((reached M config actions).procs pid).elim [] Process.asked

section Runs
variable {config : ServerConfig} {actions front back : List (Action Request Choice)} {pid : Nat}
  {request : Request} {result : Except ApiError Response}
  {post : Except ApiError Response → Sight M → Prop}

theorem Answered.of_run (arrived : Concurrent.served actions pid = some request)
    (answered : ((reached M config actions).procs pid).bind Process.answer = some result) :
    Answered M config actions pid request result :=
  ⟨arrived, Option.bind_eq_some_iff.mp answered⟩

theorem request_safe (config : ServerConfig) (request : Request) : ∃ who, True ∧ ∀ s : Shared M,
    (sharing M).Safe who (request.handler config) (fun _ _ => True) s := by
  obtain ⟨ns, safe⟩ := handler_safe (M := M) config request
  exact ⟨ns, trivial, safe⟩

theorem reached_append (front back : List (Action Request Choice)) :
    reached M config (front ++ back) =
      (reached M config front).run (Request.handler config) back :=
  Config.run_append (M := server M) _ _ front back

theorem free_before (fresh : Concurrent.served front pid = none) :
    (reached M config front).procs pid = none := by
  have running := Config.run_procs (M := server M) (Request.handler config)
    (ServerState.initial M) front pid
  rw [fresh] at running
  simpa [reached] using running

theorem answered_since (fresh : Concurrent.served front pid = none)
    (safe : (pledge M).Safe ns (request.handler config) post (reachedState M config front, []))
    (answered : Answered M config (front ++ .start pid request :: back) pid request result) :
    ∃ jobs, post result (reachedState M config (front ++ .start pid request :: back), jobs) := by
  have begun : (pledge M).Watched (fun _ _ => True) (fun _ _ => True) pid ns post
      ((reached M config front).step (Request.handler config) (.start pid request)) :=
    Pledge.Watched.start jobs_safe (reached_disciplined config front) (free_before fresh)
      (request_safe config request) safe
  have same : ((reached M config front).step (Request.handler config) (.start pid request)).run
      (Request.handler config) back = reached M config (front ++ .start pid request :: back) := by
    rw [reached_append]
    rfl
  have watched := begun.run pledge_honoured jobs_safe back
    fun _ request _ => request_safe config request
  rw [same] at watched
  obtain ⟨process, found, follows⟩ := watched.watched
  obtain ⟨other, present, given⟩ := answered.answered
  cases found.symm.trans present
  exact ⟨_, follows.answered given⟩

theorem Answered.split (answered : Answered M config actions pid request result) :
    ∃ front back, actions = front ++ .start pid request :: back ∧
      Concurrent.served front pid = none := by
  obtain ⟨front, action, back, rfl, arrives, before⟩ :=
    List.findSome?_eq_some_iff.mp answered.arrived
  refine ⟨front, back, ?_, List.findSome?_eq_none_iff.mpr before⟩
  cases action with
  | move moved move => cases arrives
  | start other request' =>
      simp only [Action.request] at arrives
      split at arrives
      · rename_i same
        subst same
        cases arrives
        rfl
      · cases arrives

theorem answered_known (answered : Answered M config actions pid request result)
    (safe : ∀ state : Shared M, (pledge M).Safe ns (request.handler config) post (state, [])) :
    ∃ jobs, post result (reachedState M config actions, jobs) := by
  obtain ⟨front, back, rfl, fresh⟩ := answered.split
  exact answered_since fresh (safe _) answered

theorem delivered_since {post : Response → ServerState M → Prop}
    (fresh : Concurrent.served front pid = none)
    (delivers : (request.handler config).Delivers ns post (reachedState M config front))
    (answered : Answered M config (front ++ .start pid request :: back) pid request result) :
    Handler.OkOrInternal post result (reached M config (front ++ .start pid request :: back)).state := by
  obtain ⟨jobs, known⟩ := answered_since fresh (delivers.lift []) answered
  exact known

theorem Answered.blames (answered : Answered M config actions pid request result)
    (blames : (request.handler config).Blames) :
    BlamesCalls result (askedBy M config actions pid) := by
  obtain ⟨process, found, ended⟩ := answered.answered
  rw [askedBy, found]
  exact Config.answer_agrees answered.arrived (blames []) found ended

theorem ensured {post : Response → ServerState M → Prop} {response : Response}
    (answered : Answered M config actions pid request (.ok response))
    (ensures : ∀ state : Shared M, (request.handler config).Ensures ns post state) :
    post response (reached M config actions).state := by
  obtain ⟨jobs, known⟩ := answered_known answered fun state => (ensures state).lift []
  exact known response rfl

end Runs

section Told
variable {config : ServerConfig} {actions front back : List (Action Request Choice)}
  {pid teller : Nat} {request : Request} {response : Response} {digest : Digest}

end Told

/-- A response that meets a condition, or an internal error after a call that failed. -/
def RespondsUnlessFailed (asked : List (Asked Api)) (post : Response → Prop) :
    Except ApiError Response → Prop
  | .ok response => post response
  | .error error => error.Internal ∧ ∃ call ∈ asked, CallFailed call

omit [Protocol] [MetadataStore M] in
theorem BlamesCalls.responds {asked : List (Asked Api)} {post : Response → Prop}
    {known : Response → ServerState M → Prop} {result : Except ApiError Response}
    {state : ServerState M} (blames : BlamesCalls result asked)
    (comes : Handler.OkOrInternal known result state)
    (implied : ∀ response, result = .ok response → known response state → post response) :
    RespondsUnlessFailed asked post result := by
  cases result with
  | ok response => exact implied response rfl comes
  | error error => exact ⟨comes, blames error rfl comes⟩

end MbxCache
