import MbxCache.Metadata.Memory
import MbxCache.Server.Paces
import MbxCache.Specimen

namespace MbxCache

open Concurrent

section Parties
variable {ns : String} {request : Request} {actions : List (Action Request Choice)}
  {mine : Nat → Bool}

def Marks (ns : String) (mine : Nat → Bool) (actions : List (Action Request Choice)) : Prop :=
  ∀ pid request, Concurrent.served actions pid = some request →
    (mine pid = true ↔ request.authorized = .ok ns)

/-- The namespace a request works for. One that is authorized for none is counted to some other
than `ns`. -/
def Request.party (ns : String) (request : Request) : String :=
  match request.authorized with
  | .ok authorized => authorized
  | .error _ => ns.push '/'

theorem Request.party_eq : request.party ns = ns ↔ request.authorized = .ok ns := by
  unfold Request.party
  cases request.authorized with
  | ok authorized => simp
  | error error =>
      have longer : ns.push '/' ≠ ns := fun same => by
        have length := congrArg String.length same
        simp at length
      simp [longer]

theorem Marks.owns (marks : Marks ns mine actions) : Owns (Request.party ns) ns mine actions :=
  fun pid request started => (marks pid request started).trans Request.party_eq.symm

end Parties

section Servers
variable [Protocol] (M : Type) [MetadataStore M]

theorem shares (config : ServerConfig) (ns : String) :
    Service (sharing M) (Request.handler config) (Request.party ns) := by
  refine ⟨jobs_safe, fun request state => ?_⟩
  unfold Request.party
  cases authorized : request.authorized with
  | ok authorized' =>
      exact Logic.Safe.mono (handler_ensures config request authorized) fun _ _ _ => trivial
  | error error =>
      rw [request.handler_refused config authorized]
      exact Discipline.Safe.done fun _ _ => trivial

/-- How a request of a namespace is followed: an upload of a pack by what its stores have done,
any other by what it has done itself. -/
def Request.pace (ns : String) :
    Request → Pace (outlook M ns) (Except ApiError Response) Untroubled
  | .putBlobPack _ _ => loading M (Except ApiError Response) ns
  | _ => serving M (Except ApiError Response) ns

theorem Request.pace_alike (config : ServerConfig) (ns : String) (request : Request) :
    Program.Alike (request.pace M ns).likeness (ResultAlike request.Agree)
      (request.handler config) (request.handler config) := by
  cases request with
  | putBlobPack headers body =>
      exact Request.handler_alike config _ (fun _ _ wrong => by cases wrong)
        fun _ _ _ => loosely_gathers
  | _ =>
      exact Request.handler_alike config _ (fun _ _ _ => singly_serves)
        fun _ _ wrong => by cases wrong

theorem putBlobPack_gathers {config : ServerConfig} {headers : Headers} {body : Body} {ns : String}
    (authorized : headers.authorize .write = .ok ns) :
    Program.Gathers Op.Local (Job.Stores ns) (fun _ left _ => left = [])
      (putBlobPack config headers body) [] 0 := by
  unfold putBlobPack
  rw [authorized, Handler.pureStep_ok]
  cases declared config headers with
  | error error =>
      rw [Handler.pureStep_error]
      rfl
  | ok sizes =>
      rw [Handler.pureStep_ok]
      exact uploadPack_gathers config ns sizes.1 sizes.2 body

theorem Request.pace_begins (config : ServerConfig) {ns : String} {request : Request}
    (authorized : request.authorized = .ok ns) (state : ServerState M) :
    (request.pace M ns).Keeps (state.own ns) state (.start (request.handler config)) := by
  cases request with
  | putBlobPack headers body =>
      refine ⟨⟨[], putBlobPack_gathers authorized, fun id task there => ?_⟩, fun task member => ?_,
        fun digest => ?_, rfl, rfl⟩
      · cases there
      · cases member
      · exact ⟨.inl, fun either => either.resolve_right fun ended => by
          obtain ⟨task, member, _⟩ := ended
          cases member⟩
  | _ => exact ⟨rfl, fun task member => by cases member⟩

def tandem (config : ServerConfig) (ns : String) :
    Tandem (outlook M ns) (Request.handler config) (Request.party ns)
      (fun request => ResultAlike request.Agree) where
  Smooth := Untroubled
  pace := Request.pace M ns
  alike request _ := request.pace_alike M config ns
  begins state party := Request.pace_begins M config (Request.party_eq.mp party) state

def Calm (config : ServerConfig) (mine : Nat → Bool) (actions : List (Action Request Choice)) :
    Prop :=
  ∀ front pid move back process, actions = front ++ .move pid move :: back → mine pid = true →
    (reached M config front).procs pid = some process →
    Untroubled (reached M config front).state process move

/-- Two runs with the same marked requests in the same order, and arbitrary others. Either the
marked requests overlap as they like and make the same moves in both runs, or each arrives when
those before it have been answered, and its steps and those of its jobs fall anywhere. -/
inductive SameRequests (config : ServerConfig) (mine : Nat → Bool)
    (one other : List (Action Request Choice)) : Prop
  | overlapping (moves : List.Forall₂ (Action.Alike Choice.Alike) (one.filter (mine ·.pid))
      (other.filter (mine ·.pid)))
  | inTurn (arrive : arrivals mine one = arrivals mine other)
      (turns : OneAtATime (M := server M) (Request.handler config) mine (ServerState.initial M) one)
      (turns' : OneAtATime (M := server M) (Request.handler config) mine (ServerState.initial M)
        other)
      (calm : Calm M config mine one) (calm' : Calm M config mine other)

variable {M}

/-- No digest names two different contents that are stored in two servers. -/
def ServerState.CollisionFree (state state' : ServerState M) : Prop :=
  ∀ digest bytes bytes', state.blobs digest = some bytes → state'.blobs digest = some bytes' →
    digest.Names bytes → digest.Names bytes' → bytes = bytes'

theorem ServerState.CollisionFree.meets {state state' : ServerState M}
    (distinct : state.CollisionFree state') (sound : state.Sound) (sound' : state'.Sound) :
    state.Meets state' := fun digest bytes bytes' stored stored' =>
  distinct digest bytes bytes' stored stored' (sound.named digest bytes stored)
    (sound'.named digest bytes' stored')

section Runs
variable {config : ServerConfig} {ns : String} {mine : Nat → Bool}
  {one other : List (Action Request Choice)}

theorem SameRequests.answers_agree (same : SameRequests M config mine one other)
    (marks : Marks ns mine one) (marks' : Marks ns mine other)
    (meets : (reached M config one).state.Meets (reached M config other).state) {pid : Nat}
    {request : Request} (own : mine pid = true) (started : Concurrent.served one pid = some request)
    {answer answer' : Except ApiError Response}
    (answered : ((reached M config one).procs pid).bind Process.answer = some answer)
    (answered' : ((reached M config other).procs pid).bind Process.answer = some answer') :
    ResultAlike request.Agree answer answer' := by
  have service := shares M config ns
  have inv : (sharing M).Inv (ServerState.initial M) := ServerState.Sound.initial
  cases same with
  | inTurn arrive turns turns' calm calm' =>
      have orderly : (tandem M config ns).Orderly mine (ServerState.initial M) one :=
        ⟨marks.owns, calm, turns⟩
      have orderly' : (tandem M config ns).Orderly mine (ServerState.initial M) other :=
        ⟨marks'.owns, calm', turns'⟩
      exact (tandem M config ns).answers_agree service inv orderly orderly' meets arrive own started
        answered answered'
  | overlapping moves =>
      have alike : ∀ request : Request, request.party ns = ns →
          (request.handler config).Alike lockstep request.Agree (request.handler config) :=
        fun request _ =>
          request.handler_alike config (fun _ _ _ => lockstep_serves) fun _ _ _ => lockstep_gathers
      have twins : (isolation M ns).Twins (fun request => ResultAlike request.Agree) mine one other
          (reached M config one) (reached M config other) :=
        Coupling.twins_run service inv alike (Interleaved.of_filter moves) marks.owns marks'.owns
          meets
      obtain ⟨process, found, ended⟩ := Option.bind_eq_some_iff.mp answered
      obtain ⟨process', found', ended'⟩ := Option.bind_eq_some_iff.mp answered'
      cases twins.procs pid own with
      | absent free free' => cases free.symm.trans found
      | present known _ _ begun _ present present' like =>
          cases present.symm.trans found
          cases present'.symm.trans found'
          cases begun.symm.trans started
          have agree := like.main.result
          rw [← Process.answer, ← Process.answer, ended, ended'] at agree
          cases agree with
          | some agree => exact agree

/-- Two runs with the same requests of a namespace in the same order answer them alike, whatever
other namespaces ask for in between. -/
theorem namespaces_isolated (same : SameRequests M config mine one other)
    (marks : Marks ns mine one) (marks' : Marks ns mine other)
    (distinct : (reached M config one).state.CollisionFree (reached M config other).state)
    {pid : Nat} {request : Request} (started : Concurrent.served one pid = some request)
    (started' : Concurrent.served other pid = some request)
    (own : ∀ authorized, request.authorized = .ok authorized → authorized = ns)
    {answer answer' : Except ApiError Response}
    (answered : ((reached M config one).procs pid).bind Process.answer = some answer)
    (answered' : ((reached M config other).procs pid).bind Process.answer = some answer') :
    ResultAlike request.Agree answer answer' := by
  have sound := (reached_disciplined (M := M) config one).inv
  have sound' := (reached_disciplined (M := M) config other).inv
  cases authorized : request.authorized with
  | ok authorized' =>
      obtain rfl := own authorized' authorized
      exact same.answers_agree marks marks' (distinct.meets sound sound')
        ((marks pid request started).mpr authorized) started answered answered'
  | error error =>
      have at_once := request.handler_refused config authorized
      have refused : answer = .error error := Option.some.inj
        (answered.symm.trans (Config.answers_at_once at_once started))
      have refused' : answer' = .error error := Option.some.inj
        (answered'.symm.trans (Config.answers_at_once at_once started'))
      rw [refused, refused']
      exact .refused error

end Runs
end Servers

section Guests

attribute [local instance] Specimen.protocol

def headersFor (ns : Namespace) : Headers :=
  ⟨fun _ => .ok ns.1, granted_named ns, some "*", none, none, none⟩

def guest : Namespace := ⟨"guest", (validNamespace_iff "guest").mp (by decide)⟩

def askZero : Request := .missingBlobs (headersFor Specimen.team) [Specimen.zeroDigest]

def teamAlone : List (Action Request Choice) := [.start 0 askZero, .move 0 (.main (calm 0))]

def afterGuest : List (Action Request Choice) :=
  .start 1 (.putBlob (headersFor guest) ("blake3", Specimen.zeroBlake3, 1) ⟨[[0]], none⟩) ::
    List.replicate 6 (.move 1 (.main (calm 0))) ++ teamAlone

/-- The guest's object is stored, and the team is told the same. -/
theorem guest_unseen :
    ((reached MemoryMetadata ⟨1024, 4, true⟩ afterGuest).state.blobs Specimen.zeroDigest).isSome ∧
      ResultAlike askZero.Agree (.ok ⟨.ok, [], .missing [Specimen.zeroDigest]⟩)
        (.ok ⟨.ok, [], .missing [Specimen.zeroDigest]⟩) := by
  refine ⟨by decide +kernel, ?_⟩
  have moves : List.Forall₂ (Action.Alike Choice.Alike)
      (teamAlone.filter fun action => action.pid == 0)
      (afterGuest.filter fun action => action.pid == 0) :=
    .cons (.start 0 askZero) (.cons (.move 0 (.main ⟨calm_clean 0, calm_clean 0, rfl⟩)) .nil)
  have marks : Marks "team" (· == 0) teamAlone := by
    intro pid request started
    simp only [Concurrent.served, teamAlone, List.findSome?_cons, Action.request] at started
    by_cases team : 0 = pid
    · subst team
      cases started
      exact ⟨fun _ => rfl, fun _ => rfl⟩
    · rw [if_neg team] at started
      cases started
  have marks' : Marks "team" (· == 0) afterGuest := by
    intro pid request started
    simp only [Concurrent.served, afterGuest, teamAlone, List.replicate, List.cons_append,
      List.nil_append, List.findSome?_cons, Action.request] at started
    by_cases guest : 1 = pid
    · subst guest
      cases started
      exact ⟨fun wrong => absurd wrong (by decide), fun wrong =>
        absurd (Except.ok.inj wrong) (by decide)⟩
    · rw [if_neg guest] at started
      by_cases team : 0 = pid
      · subst team
        cases started
        exact ⟨fun _ => rfl, fun _ => rfl⟩
      · rw [if_neg team] at started
        cases started
  have distinct : (reached MemoryMetadata ⟨1024, 4, true⟩ teamAlone).state.CollisionFree
      (reached MemoryMetadata ⟨1024, 4, true⟩ afterGuest).state := by
    intro digest bytes bytes' stored
    cases stored
  have started : Concurrent.served teamAlone 0 = some askZero := rfl
  exact namespaces_isolated (.overlapping moves) marks marks' distinct started rfl
    (fun ns authorized => (Except.ok.inj authorized).symm) rfl rfl

end Guests
end MbxCache
