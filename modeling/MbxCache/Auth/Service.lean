import Mathlib.Data.List.Nodup
import MbxCache.Auth.StartUp
import MbxCache.Specimen

/-! Requests that are authorized while providers refresh their keys, and whom they were authorized
by (`auth.rs`). -/

namespace MbxCache

/-- `jsonwebtoken::Validation`, as `verify` sets it. -/
structure Validation where
  algorithm : SigningAlgorithm
  audiences : List String
  issuer : String
  requiredSpecClaims : List String
  validateNbf : Bool
  leeway : UInt64
  deriving DecidableEq, Repr

def OidcProviderConfig.validation (config : OidcProviderConfig) (algorithm : SigningAlgorithm) :
    Validation where
  algorithm := algorithm
  audiences := config.audiences
  issuer := config.issuer
  requiredSpecClaims := ["exp", "aud", "iss", "sub"]
  validateNbf := true
  leeway := config.clockSkewSeconds

structure TokenCrates where
  /-- `URL_SAFE_NO_PAD.decode` -/
  decodeSegment : List Char → Option Bytes
  decodeHeader : String → Option TokenHeader
  /-- The claims of a token at a moment, if the key has signed it and it passes the validation. -/
  decode : Nat → String → Jwk → Validation → Option Json

structure Verified where
  provider : OidcProvider
  token : String
  claims : Json

def TokenCrates.reader (crates : TokenCrates) (verified : Option Verified) : TokenReader where
  decodeSegment := crates.decodeSegment
  verify provider token := verified.bind fun known =>
    if known.provider = provider ∧ known.token = token then some known.claims else none

inductive AuthPhase
  | verifying (index call : Nat) (token : String)
  | answered (result : Except ApiError String)
  | dropped

structure AuthCall where
  headers : AuthHeaders
  access : Access
  phase : AuthPhase

structure AuthService where
  keys : List KeyService
  calls : List AuthCall

inductive AuthMove
  | tick (elapsed : Nat)
  | arrive (headers : AuthHeaders) (access : Access)
  | advance (index call : Nat) (web : Web) (usable : Bool)
  | finish (id : Nat)
  | drop (id : Nat)

def KeyService.tick (service : KeyService) (elapsed : Nat) : KeyService :=
  { service with cache := { service.cache with now := service.cache.now + elapsed } }

namespace StartedAuthorizer

variable [Protocol]

/-- The provider that a request waits for, and the token it is to verify: `authorize` up to its
await. -/
def consults (started : StartedAuthorizer) (crates : TokenCrates) (headers : AuthHeaders)
    (access : Access) : Option (Nat × String) :=
  let authorizer := started.authorizer
  if headers.protocol ≠ some "1" then none
  else
    match headers.ns.filter validNamespace with
    | none => none
    | some ns =>
        if authorizer.allowAnonymous && authorizer.grants.isEmpty && authorizer.oidc.isEmpty then
          none
        else if access == .read &&
            authorizer.anonymousReadNamespaces.any fun pattern => matchesNamespace pattern ns then
          none
        else
          match headers.authorization.bind fun value =>
              (stripPrefix "Bearer ".toList value.toList).map String.ofList with
          | none => none
          | some token =>
              match authorizer.grants.find? fun grant =>
                  constantTimeEq (asBytes grant.token) (asBytes token) with
              | some _ => none
              | none =>
                  match unverifiedIssuer (crates.reader none) token with
                  | none => none
                  | some issuer =>
                      (authorizer.oidc.findIdx? fun provider => provider.issuer == issuer).map
                        fun index => (index, token)

def answer (started : StartedAuthorizer) (crates : TokenCrates) (headers : AuthHeaders)
    (access : Access) (verified : Option Verified) : Except ApiError String :=
  started.authorizer.authorize (crates.reader verified) headers access

end StartedAuthorizer

namespace AuthService

def start (started : StartedAuthorizer) (now : Nat) : AuthService :=
  ⟨started.providers.map fun provider => KeyService.start provider.set now, []⟩

def turnKeys (started : StartedAuthorizer) (service : AuthService) (index : Nat)
    (move : StartedProvider → KeyMove) : List KeyService :=
  match started.providers[index]?, service.keys[index]? with
  | some provider, some keys => service.keys.set index (keys.step provider.verifier (move provider))
  | _, _ => service.keys

def outcome (started : StartedAuthorizer) (crates : TokenCrates) (service : AuthService)
    (index call : Nat) (token : String) : Option (Option Verified) :=
  match started.providers[index]?, service.keys[index]? with
  | some provider, some keys =>
      match keys.calls[call]? with
      | some ⟨header, .checking _ key⟩ =>
          some ((crates.decode keys.cache.now token key
            (provider.config.validation header.alg)).map fun claims =>
              ⟨provider.config.provider, token, claims⟩)
      | some ⟨_, .refused _⟩ => some none
      | _ => none
  | _, _ => none

variable [Protocol]

def step (started : StartedAuthorizer) (crates : TokenCrates) (service : AuthService) :
    AuthMove → AuthService
  | .tick elapsed => { service with keys := service.keys.map fun keys => keys.tick elapsed }
  | .arrive headers access =>
      let refused : AuthService := ⟨service.keys, service.calls ++
        [⟨headers, access, .answered (started.answer crates headers access none)⟩]⟩
      match started.consults crates headers access with
      | none => refused
      | some (index, token) =>
          match crates.decodeHeader token, service.keys[index]? with
          | some header, some keys =>
              ⟨service.turnKeys started index fun _ => .begin header,
                service.calls ++ [⟨headers, access, .verifying index keys.calls.length token⟩]⟩
          | _, _ => refused
  | .advance index call web usable =>
      ⟨service.turnKeys started index fun provider =>
          .advance call ⟨web.keySets provider.jwksUri, usable⟩, service.calls⟩
  | .finish id =>
      match service.calls[id]? with
      | some ⟨headers, access, .verifying index call token⟩ =>
          match service.outcome started crates index call token with
          | none => service
          | some verified =>
              ⟨service.keys, service.calls.set id
                ⟨headers, access, .answered (started.answer crates headers access verified)⟩⟩
      | _ => service
  | .drop id =>
      match service.calls[id]? with
      | some ⟨headers, access, .verifying index call _⟩ =>
          ⟨service.turnKeys started index fun _ => .drop call,
            service.calls.set id ⟨headers, access, .dropped⟩⟩
      | _ => service

def run (started : StartedAuthorizer) (crates : TokenCrates) (service : AuthService)
    (moves : List AuthMove) : AuthService :=
  moves.foldl (step started crates) service

end AuthService

def Phase.Carries (good : List Jwk → Prop) : Phase → Prop
  | .installing _ set => good set
  | _ => True

theorem Verifier.advance_carries {verifier : Verifier} {good : List Jwk → Prop} {id : Nat}
    {header : TokenHeader} {choice : FetchChoice} {cache : KeyCache} {phase : Phase}
    (held : good cache.keys.set) (carries : phase.Carries good)
    (served : ∀ set, choice.answer = some set → good set) :
    good (verifier.advance id header choice cache phase).1.keys.set ∧
      (verifier.advance id header choice cache phase).2.Carries good := by
  cases phase with
  | fetching kid known =>
      simp only [Verifier.advance]
      cases answer : choice.answer with
      | none => cases known <;> exact ⟨held, trivial⟩
      | some set => exact ⟨held, served set answer⟩
  | installing kid set => exact ⟨carries, trivial⟩
  | begun =>
      simp only [Verifier.advance]
      split
      · exact ⟨held, trivial⟩
      · split
        · exact ⟨held, trivial⟩
        · split <;> exact ⟨held, trivial⟩
  | refreshing kid known =>
      simp only [Verifier.advance]
      split <;> exact ⟨held, trivial⟩
  | rechecking kid known =>
      simp only [Verifier.advance]
      split <;> exact ⟨held, trivial⟩
  | selecting kid =>
      simp only [Verifier.advance]
      split
      · exact ⟨held, trivial⟩
      · split <;> exact ⟨held, trivial⟩
  | stamping kid known => exact ⟨held, trivial⟩
  | attempting kid known stamp => exact ⟨held, trivial⟩
  | checking kid key => exact ⟨held, trivial⟩
  | refused reason => exact ⟨held, trivial⟩
  | dropped => exact ⟨held, trivial⟩

namespace KeyService

variable {verifier : Verifier} {service : KeyService}

theorem step_header {id : Nat} {call : Verification} (present : service.calls[id]? = some call)
    (move : KeyMove) : ∃ phase, (service.step verifier move).calls[id]? =
      some ⟨call.header, phase⟩ := by
  have within := (List.getElem?_eq_some_iff.mp present).1
  cases move with
  | tick elapsed => exact ⟨call.phase, present⟩
  | begin header =>
      refine ⟨call.phase, ?_⟩
      simp only [step]
      rw [List.getElem?_append_left within]
      exact present
  | advance moved choice =>
      simp only [step]
      split
      next => exact ⟨call.phase, present⟩
      next other there =>
        by_cases same : moved = id
        · subst same
          rw [present] at there
          cases there
          exact ⟨_, List.getElem?_set_self within⟩
        · exact ⟨call.phase, (List.getElem?_set_ne same).trans present⟩
  | drop dropped =>
      simp only [step]
      split
      next => exact ⟨call.phase, present⟩
      next other there =>
        split
        next => exact ⟨call.phase, present⟩
        next =>
          by_cases same : dropped = id
          · subst same
            rw [present] at there
            cases there
            exact ⟨_, List.getElem?_set_self within⟩
          · exact ⟨call.phase, (List.getElem?_set_ne same).trans present⟩

def Carries (good : List Jwk → Prop) (service : KeyService) : Prop :=
  good service.cache.keys.set ∧ ∀ (id : Nat) (call : Verification),
    service.calls[id]? = some call → call.phase.Carries good

def Serves (good : List Jwk → Prop) (moves : List KeyMove) : Prop :=
  ∀ id choice, KeyMove.advance id choice ∈ moves → ∀ set, choice.answer = some set → good set

theorem step_carries {good : List Jwk → Prop} (carries : service.Carries good) {move : KeyMove}
    (served : Serves good [move]) : (service.step verifier move).Carries good := by
  have kept : good (service.step verifier move).cache.keys.set := by
    cases move with
    | tick elapsed => exact carries.1
    | begin header => exact carries.1
    | advance id choice =>
        simp only [step]
        split
        next => exact carries.1
        next call there =>
          exact (Verifier.advance_carries carries.1 (carries.2 id call there)
            (served id choice (List.mem_singleton_self _))).1
    | drop id =>
        simp only [step]
        split
        next => exact carries.1
        next =>
          split
          next => exact carries.1
          next => split <;> exact carries.1
  refine ⟨kept, fun id call present => ?_⟩
  cases move with
  | advance moved choice =>
      simp only [step] at present
      split at present
      next => exact carries.2 id call present
      next before there =>
        rcases set_cases present with ⟨rfl, rfl⟩ | ⟨-, old⟩
        · exact (Verifier.advance_carries carries.1 (carries.2 id before there)
            (served id choice (List.mem_singleton_self _))).2
        · exact carries.2 id call old
  | tick elapsed => exact carries.2 id call present
  | begin header =>
      rcases Concurrent.getElem?_snoc present with old | ⟨-, fresh⟩
      · exact carries.2 id call old
      · rw [fresh]
        trivial
  | drop dropped =>
      simp only [step] at present
      split at present
      next => exact carries.2 id call present
      next before there =>
        split at present
        next => exact carries.2 id call present
        next =>
          rcases set_cases present with ⟨rfl, rfl⟩ | ⟨-, old⟩
          · trivial
          · exact carries.2 id call old

theorem run_carries {good : List Jwk → Prop} (carries : service.Carries good)
    {moves : List KeyMove} (served : Serves good moves) :
    (service.run verifier moves).Carries good := by
  induction moves generalizing service with
  | nil => exact carries
  | cons move rest ih =>
      refine ih (step_carries carries fun id choice member => ?_) fun id choice member => ?_
      · exact served id choice (List.mem_singleton.mp member ▸ List.mem_cons_self)
      · exact served id choice (List.mem_cons_of_mem _ member)

theorem run_header {id : Nat} {call : Verification} (present : service.calls[id]? = some call)
    (moves : List KeyMove) : ∃ phase, (service.run verifier moves).calls[id]? =
      some ⟨call.header, phase⟩ := by
  induction moves generalizing service call with
  | nil => exact ⟨call.phase, present⟩
  | cons move rest ih =>
      obtain ⟨phase, next⟩ : ∃ phase, (service.step verifier move).calls[id]? =
          some ⟨call.header, phase⟩ := step_header present move
      obtain ⟨last, found⟩ := ih next
      exact ⟨last, found⟩

theorem run_append (front back : List KeyMove) :
    service.run verifier (front ++ back) = (service.run verifier front).run verifier back :=
  List.foldl_append

/-- A key that a call checks its token with was permitted in a set that was good. -/
theorem run_checked {good : List Jwk → Prop} {set : List Jwk} (now : Nat) {moves : List KeyMove}
    (held : good set) (served : Serves good moves) {id : Nat} {header : TokenHeader} {kid : String}
    {key : Jwk} (arrived : ((start set now).run verifier moves).calls[id]? =
      some ⟨header, .checking kid key⟩) :
    ∃ current, good current ∧ Permitted verifier current header kid key := by
  obtain ⟨front, ⟨back, rfl⟩, permitted⟩ := run_permitted set now moves arrived
  have fresh : (start set now).Carries good := ⟨held, fun id call present => by cases present⟩
  have carried : ((start set now).run verifier front).Carries good :=
    run_carries fresh fun id choice member =>
      served id choice (List.mem_append_left back member)
  exact ⟨_, carried.1, permitted⟩

end KeyService

/-- A set of keys that was found at the start, or that was served at the address of a provider when
it fetched them. -/
def Served (provider : StartedProvider) (index : Nat) (moves : List AuthMove) (set : List Jwk) :
    Prop :=
  set = provider.set ∨ ∃ call web usable, AuthMove.advance index call web usable ∈ moves ∧
    web.keySets provider.jwksUri = some set

theorem Served.later {provider : StartedProvider} {index : Nat} {moves : List AuthMove}
    {set : List Jwk} (served : Served provider index moves set) (more : List AuthMove) :
    Served provider index (moves ++ more) set := by
  rcases served with start | ⟨call, web, usable, met, found⟩
  · exact .inl start
  · exact .inr ⟨call, web, usable, List.mem_append_left _ met, found⟩

/-- A token that was signed with a key from one of some sets, permitted for its algorithm, and that
has passed the validation of a provider. -/
inductive Vouched (crates : TokenCrates) (provider : StartedProvider) (served : List Jwk → Prop)
    (token : String) (claims : Json) : Prop
  | signed (header : TokenHeader) (kid : String) (key : Jwk) (set : List Jwk) (moment : Nat)
      (read : crates.decodeHeader token = some header) (current : served set)
      (permitted : Permitted provider.verifier set header kid key)
      (decoded : crates.decode moment token key (provider.config.validation header.alg) =
        some claims)

theorem Vouched.mono {crates : TokenCrates} {provider : StartedProvider}
    {served wider : List Jwk → Prop} {token : String} {claims : Json}
    (vouched : Vouched crates provider served token claims)
    (wide : ∀ set, served set → wider set) : Vouched crates provider wider token claims := by
  obtain ⟨header, kid, key, set, moment, read, current, permitted, decoded⟩ := vouched
  exact .signed header kid key set moment read (wide set current) permitted decoded

namespace AuthService

section Turns
variable {started : StartedAuthorizer} {service : AuthService}

def Turned (started : StartedAuthorizer) (before after : List KeyService)
    (turns : Nat → StartedProvider → List KeyMove) : Prop :=
  after.length = before.length ∧ ∀ (index : Nat) (provider : StartedProvider) (keys : KeyService),
    started.providers[index]? = some provider → before[index]? = some keys →
      after[index]? = some (keys.run provider.verifier (turns index provider))

theorem turned_refl (keys : List KeyService) : Turned started keys keys fun _ _ => [] :=
  ⟨rfl, fun _ _ _ _ present => present⟩

theorem tick_turned (keys : List KeyService) (elapsed : Nat) :
    Turned started keys (keys.map fun service => service.tick elapsed)
      fun _ _ => [.tick elapsed] := by
  refine ⟨List.length_map _, fun index provider before known present => ?_⟩
  rw [List.getElem?_map, present]
  rfl

theorem turnKeys_turned (index : Nat) (move : StartedProvider → KeyMove) :
    Turned started service.keys (service.turnKeys started index move)
      fun other provider => if other = index then [move provider] else [] := by
  unfold turnKeys
  split
  next provider keys known present =>
    refine ⟨List.length_set, fun other provider' keys' known' present' => ?_⟩
    by_cases same : other = index
    · subst same
      rw [known] at known'
      rw [present] at present'
      cases known'
      cases present'
      simp only [if_true]
      exact List.getElem?_set_self (List.getElem?_eq_some_iff.mp present).1
    · simp only [if_neg same]
      exact (List.getElem?_set_ne (Ne.symm same)).trans present'
  next none =>
    refine ⟨rfl, fun other provider keys known present => ?_⟩
    by_cases same : other = index
    · subst same
      exact absurd present (none provider keys known)
    · simp only [if_neg same]
      exact present

end Turns

section Runs
variable [Protocol] {started : StartedAuthorizer} {crates : TokenCrates} {service : AuthService}
  {now : Nat} {moves : List AuthMove}

structure KeysSound (started : StartedAuthorizer) (now : Nat) (moves : List AuthMove)
    (keys : List KeyService) : Prop where
  length : keys.length = started.providers.length
  reached : ∀ (index : Nat) (provider : StartedProvider),
    started.providers[index]? = some provider → ∃ turns,
      keys[index]? = some ((KeyService.start provider.set now).run provider.verifier turns) ∧
        KeyService.Serves (Served provider index moves) turns

def Backed (started : StartedAuthorizer) (crates : TokenCrates) (moves : List AuthMove)
    (known : Verified) : Prop :=
  ∃ index provider, started.providers[index]? = some provider ∧
    known.provider = provider.config.provider ∧
    Vouched crates provider (Served provider index moves) known.token known.claims

/-- What holds of a request: its call is of the token's header, and its answer is what the
authorizer says of a token that some provider vouches for, or of none. -/
def CallSound (started : StartedAuthorizer) (crates : TokenCrates) (moves : List AuthMove)
    (keys : List KeyService) (request : AuthCall) : Prop :=
  match request.phase with
  | .verifying index call token => ∃ service header phase, keys[index]? = some service ∧
      service.calls[call]? = some ⟨header, phase⟩ ∧ crates.decodeHeader token = some header
  | .answered result => ∃ verified,
      result = started.answer crates request.headers request.access verified ∧
        ∀ known, verified = some known → Backed started crates moves known
  | .dropped => True

structure Sound (started : StartedAuthorizer) (crates : TokenCrates) (now : Nat)
    (moves : List AuthMove) (service : AuthService) : Prop where
  keys : KeysSound started now moves service.keys
  calls : ∀ request ∈ service.calls, CallSound started crates moves service.keys request

omit [Protocol] in
theorem KeysSound.provider {list : List KeyService} {keys : KeyService} {index : Nat}
    (sound : KeysSound started now moves list) (present : list[index]? = some keys) :
    ∃ provider, started.providers[index]? = some provider := by
  have within := (List.getElem?_eq_some_iff.mp present).1
  rw [sound.length] at within
  exact ⟨_, List.getElem?_eq_getElem within⟩

omit [Protocol] in
theorem KeysSound.turned {turns : Nat → StartedProvider → List KeyMove}
    {before after : List KeyService} (sound : KeysSound started now moves before)
    (turned : Turned started before after turns) (move : AuthMove)
    (serves : ∀ index provider, started.providers[index]? = some provider →
      KeyService.Serves (Served provider index (moves ++ [move])) (turns index provider)) :
    KeysSound started now (moves ++ [move]) after where
  length := turned.1.trans sound.length
  reached index provider known := by
    obtain ⟨past, present, served⟩ := sound.reached index provider known
    refine ⟨past ++ turns index provider, ?_, fun id choice member set found => ?_⟩
    · rw [KeyService.run_append]
      exact turned.2 index provider _ known present
    · rcases List.mem_append.mp member with old | new
      · exact (served id choice old set found).later [move]
      · exact serves index provider known id choice new set found

omit [Protocol] in
theorem Backed.later {known : Verified} (backed : Backed started crates moves known)
    (move : AuthMove) : Backed started crates (moves ++ [move]) known := by
  obtain ⟨index, provider, present, same, vouched⟩ := backed
  exact ⟨index, provider, present, same, vouched.mono fun set served => served.later [move]⟩

theorem CallSound.turned {turns : Nat → StartedProvider → List KeyMove}
    {before after : List KeyService} {request : AuthCall}
    (kept : KeysSound started now moves before)
    (sound : CallSound started crates moves before request)
    (turned : Turned started before after turns) (move : AuthMove) :
    CallSound started crates (moves ++ [move]) after request := by
  unfold CallSound at sound ⊢
  cases phase : request.phase with
  | verifying index call token =>
      rw [phase] at sound
      obtain ⟨keys, header, stage, present, there, read⟩ := sound
      obtain ⟨provider, known⟩ := kept.provider present
      have after := turned.2 index provider keys known present
      obtain ⟨last, found⟩ := KeyService.run_header there (turns index provider)
      exact ⟨_, header, last, after, found, read⟩
  | answered result =>
      rw [phase] at sound
      obtain ⟨verified, same, backed⟩ := sound
      exact ⟨verified, same, fun known given => (backed known given).later move⟩
  | dropped => trivial

omit [Protocol] in
/-- What a verification ends with is vouched for. -/
theorem outcome_backed {index call : Nat} {token : String} {header : TokenHeader} {phase : Phase}
    {keys : KeyService} {known : Verified} (sound : KeysSound started now moves service.keys)
    (present : service.keys[index]? = some keys) (there : keys.calls[call]? = some ⟨header, phase⟩)
    (read : crates.decodeHeader token = some header)
    (ended : service.outcome started crates index call token = some (some known)) :
    Backed started crates moves known := by
  unfold outcome at ended
  cases provided : started.providers[index]? with
  | none =>
      rw [provided] at ended
      cases ended
  | some provider =>
      simp only [provided, present, there] at ended
      cases phase with
      | checking kid key =>
          obtain ⟨claims, decoded, rfl⟩ := Option.map_eq_some_iff.mp (Option.some.inj ended)
          obtain ⟨turns, reached, serves⟩ := sound.reached index provider provided
          obtain rfl := Option.some.inj (present.symm.trans reached)
          obtain ⟨set, current, permitted⟩ := KeyService.run_checked now
            (show Served provider index moves provider.set from .inl rfl) serves there
          exact ⟨index, provider, provided, rfl,
            .signed header kid key set _ read current permitted decoded⟩
      | refused reason => cases Option.some.inj ended
      | _ => cases ended

theorem Sound.arrived (sound : service.Sound started crates now moves) {turns}
    {after : List KeyService} (turned : Turned started service.keys after turns) (move : AuthMove)
    (serves : ∀ index provider, started.providers[index]? = some provider →
      KeyService.Serves (Served provider index (moves ++ [move])) (turns index provider))
    {calls : List AuthCall} (fresh : ∀ request ∈ calls, request ∈ service.calls ∨
      CallSound started crates (moves ++ [move]) after request) :
    Sound started crates now (moves ++ [move]) ⟨after, calls⟩ where
  keys := sound.keys.turned turned move serves
  calls request member := by
    rcases fresh request member with old | new
    · exact (sound.calls request old).turned sound.keys turned move
    · exact new

omit [Protocol] in
theorem serves_nothing {provider : StartedProvider} {index : Nat} {turns : List KeyMove}
    (calm : ∀ id choice, KeyMove.advance id choice ∉ turns) :
    KeyService.Serves (Served provider index moves) turns :=
  fun id choice member => absurd member (calm id choice)

theorem unverified_sound (headers : AuthHeaders) (access : Access) (keys : List KeyService) :
    CallSound started crates moves keys
      ⟨headers, access, .answered (started.answer crates headers access none)⟩ :=
  ⟨none, rfl, fun known none => by cases none⟩

theorem step_sound (sound : service.Sound started crates now moves) (move : AuthMove) :
    (service.step started crates move).Sound started crates now (moves ++ [move]) := by
  have still : Sound started crates now (moves ++ [move]) service :=
    sound.arrived (turned_refl service.keys) move
      (fun _ _ _ => serves_nothing fun _ _ none => by cases none) fun request member => .inl member
  cases move with
  | tick elapsed =>
      refine sound.arrived (tick_turned service.keys elapsed) _ (fun _ _ _ => ?_)
        fun request member => .inl member
      exact serves_nothing fun id choice member => by simp at member
  | arrive headers access =>
      have refused : Sound started crates now (moves ++ [.arrive headers access])
          ⟨service.keys, service.calls ++
            [⟨headers, access, .answered (started.answer crates headers access none)⟩]⟩ := by
        refine sound.arrived (turned_refl service.keys) _
          (fun _ _ _ => serves_nothing fun _ _ none => by cases none) fun request member => ?_
        rcases List.mem_append.mp member with old | new
        · exact .inl old
        · rw [List.mem_singleton.mp new]
          exact .inr (unverified_sound headers access _)
      simp only [step]
      cases started.consults crates headers access with
      | none => exact refused
      | some asked =>
          obtain ⟨index, token⟩ := asked
          simp only
          cases read : crates.decodeHeader token with
          | none => exact refused
          | some header =>
              cases present : service.keys[index]? with
              | none => exact refused
              | some keys =>
                  have turned : Turned started service.keys _ _ :=
                    turnKeys_turned index fun _ => .begin header
                  refine sound.arrived turned _ (fun other provider _ => ?_)
                    fun request member => ?_
                  · refine serves_nothing fun id choice member => ?_
                    split at member <;> simp at member
                  · rcases List.mem_append.mp member with old | new
                    · exact .inl old
                    · rw [List.mem_singleton.mp new]
                      obtain ⟨provider, known⟩ := sound.keys.provider present
                      have after := turned.2 index provider keys known present
                      simp only [if_true] at after
                      exact .inr ⟨_, header, .begun, after, List.getElem?_concat_length .., read⟩
  | advance index call web usable =>
      refine sound.arrived (turnKeys_turned index _) _ (fun other provider known => ?_)
        fun request member => .inl member
      intro id choice member set found
      split at member
      next same =>
        obtain ⟨rfl, rfl⟩ : id = call ∧ choice = ⟨web.keySets provider.jwksUri, usable⟩ := by
          simpa using member
        exact .inr ⟨id, web, usable, by simp [same], found⟩
      next => cases member
  | finish id =>
      simp only [step]
      split
      next headers access index call token asking =>
        cases ended : service.outcome started crates index call token with
        | none => exact still
        | some verified =>
            refine sound.arrived (turned_refl service.keys) _
              (fun _ _ _ => serves_nothing fun _ _ none => by cases none) fun request member => ?_
            rcases List.mem_or_eq_of_mem_set member with old | rfl
            · exact .inl old
            · refine .inr ⟨verified, rfl, fun known given => ?_⟩
              obtain ⟨keys, header, phase, present, there, read⟩ :=
                sound.calls _ (List.mem_of_getElem? asking)
              exact (outcome_backed sound.keys present there read (given ▸ ended)).later _
      next => exact still
  | drop id =>
      simp only [step]
      split
      next headers access index call token asking =>
        refine sound.arrived (turnKeys_turned index _) _ (fun other provider known => ?_)
          fun request member => ?_
        · refine serves_nothing fun id choice member => ?_
          split at member <;> simp at member
        · rcases List.mem_or_eq_of_mem_set member with old | rfl
          · exact .inl old
          · exact .inr trivial
      next => exact still

theorem start_sound (started : StartedAuthorizer) (crates : TokenCrates) (now : Nat) :
    (start started now).Sound started crates now [] where
  keys := by
    refine ⟨List.length_map _, fun index provider known => ⟨[], ?_, fun _ _ none => by cases none⟩⟩
    simp only [start, List.getElem?_map, known]
    rfl
  calls request member := by cases member

/-- In every state that is reached, keys come of what was served, and answers of what was vouched
for. -/
theorem run_sound (started : StartedAuthorizer) (crates : TokenCrates) (now : Nat)
    (moves : List AuthMove) :
    ((start started now).run started crates moves).Sound started crates now moves := by
  induction moves using List.reverseRecOn with
  | nil => exact start_sound started crates now
  | append_singleton moves move ih =>
      rw [run, List.foldl_append]
      exact step_sound ih move

end Runs
end AuthService

section Tracing
variable [Protocol]

theorem Authorizer.authorize_admits {authorizer : Authorizer} {reader : TokenReader}
    {headers : AuthHeaders} {access : Access} {ns : String}
    (granted : authorizer.authorize reader headers access = .ok ns) :
    headers.protocol = some "1" ∧ headers.ns = some ns ∧ IsNamespace ns ∧
      authorizer.Admits reader headers access ns := by
  have whole := granted
  unfold authorize at granted
  split at granted
  · cases granted
  rename_i protocol
  rw [not_not] at protocol
  split at granted
  · cases granted
  rename_i other found
  obtain ⟨named, checked⟩ := Option.filter_eq_some_iff.mp found
  have valid : IsNamespace other := (validNamespace_iff other).mp checked
  obtain ⟨rfl, admitted⟩ := (authorize_named protocol named valid ns).mp whole
  exact ⟨protocol, named, valid, admitted⟩

/-- The way back from an identity: the only provider that is configured for the issuer its token
names, with keys that were served at its address; the address is configured or named by a document
about that issuer, the algorithm is agreed on by all sides and is no shared secret, and a rule that
requires some claim is met. -/
inductive Traced (crates : TokenCrates) (around : String → Surroundings)
    (configs : List OidcProviderConfig) (providers : List StartedProvider) (moves : List AuthMove)
    (token ns : String) (access : Access) : Prop
  | identity (index : Nat) (provider : StartedProvider) (claims : Json) (rule : OidcRule)
      (advertised : List String) (started : providers[index]? = some provider)
      (configured : provider.config ∈ configs)
      (only : ∀ config ∈ configs, config.issuer = provider.config.issuer →
        config = provider.config)
      (named : unverifiedIssuer (crates.reader none) token = some provider.config.issuer)
      (found : (around provider.config.issuer).Found provider.config
        ⟨provider.jwksUri, advertised, provider.set⟩)
      (agreed : ∀ algorithm ∈ provider.algorithms,
        Agreed provider.config.algorithms advertised algorithm ∧ algorithm.symmetric = false)
      (vouched : Vouched crates provider (Served provider index moves) token claims)
      (member : rule ∈ provider.config.rules) (requires : rule.claims ≠ [])
      (met : rule.Met claims) (covers : CoveredBy (rule.patterns access) ns) :
      Traced crates around configs providers moves token ns access

omit [Protocol] in
theorem started_provider {around : String → Surroundings} {configs : List OidcProviderConfig}
    {providers : List StartedProvider} (made : startProviders around configs [] = .ok providers)
    {index : Nat} {provider : StartedProvider} (present : providers[index]? = some provider) :
    provider.config ∈ configs ∧
      (∀ config ∈ configs, config.issuer = provider.config.issuer → config = provider.config) ∧
      Starts (around provider.config.issuer) provider.config provider := by
  obtain ⟨distinct, -, starts⟩ := startProviders_iff.mp made
  have configured : provider.config ∈ configs := by
    rw [← started_issuers starts]
    exact List.mem_map_of_mem (List.mem_of_getElem? present)
  refine ⟨configured, fun config member same => ?_, ?_⟩
  · exact List.inj_on_of_nodup_map distinct member configured same
  · obtain ⟨within, found⟩ := List.getElem?_eq_some_iff.mp present
    have start := starts.get (by rw [starts.length_eq]; exact within) within
    rw [List.get_eq_getElem, List.get_eq_getElem, found] at start
    rw [start.same]
    exact start

/-- Whatever requests come in, and whatever the network serves meanwhile: a request is authorized
for the namespace it names, because the service is open to all, because the namespace may be read
by all, because a configured token grants it, or because its identity can be traced back. -/
theorem authorizations_traced {reader : OptionReader} {around : String → Surroundings}
    {options : AuthOptions} {started : StartedAuthorizer}
    (made : StartedAuthorizer.new reader around options = .ok started) (crates : TokenCrates)
    (now : Nat) (moves : List AuthMove) {id : Nat} {headers : AuthHeaders} {access : Access}
    {ns : String} (granted : ((AuthService.start started now).run started crates moves).calls[id]? =
      some ⟨headers, access, .answered (.ok ns)⟩) :
    headers.protocol = some "1" ∧ headers.ns = some ns ∧ IsNamespace ns ∧
      (started.authorizer.Open ∨
        (access = .read ∧ CoveredBy started.authorizer.anonymousReadNamespaces ns) ∨
        ∃ token, headers.authorization = some ("Bearer " ++ token) ∧
          ((∃ grant, started.authorizer.FirstGrant token grant ∧
              CoveredBy (grant.patterns access) ns) ∨
            (∀ grant ∈ started.authorizer.grants, grant.token ≠ token) ∧
              ∃ configs, parseJsonArray reader.providers options.oidcProvidersJson
                  "OIDC providers" = .ok configs ∧
                Traced crates around configs started.providers moves token ns access)) := by
  obtain ⟨verified, same, backed⟩ := (AuthService.run_sound started crates now moves).calls _
    (List.mem_of_getElem? granted)
  obtain ⟨protocol, named, valid, admitted⟩ := Authorizer.authorize_admits same.symm
  refine ⟨protocol, named, valid, admitted.imp_right (Or.imp_right ?_)⟩
  rintro ⟨token, bearer, grants⟩
  refine ⟨token, bearer, grants.imp_right ?_⟩
  rintro ⟨unlisted, provider, member, claims, issuer, checked, rule, ruled, met, covers⟩
  refine ⟨unlisted, ?_⟩
  obtain ⟨known, rfl, told⟩ := Option.bind_eq_some_iff.mp checked
  split at told
  next same =>
    cases told
    obtain ⟨rfl, rfl⟩ := same
    obtain ⟨index, one, present, whose, vouched⟩ := backed known rfl
    obtain ⟨-, -, -, configs, parsed, begun⟩ := StartedAuthorizer.new_iff.mp made
    obtain ⟨configured, only, start⟩ := started_provider begun present
    obtain ⟨advertised, found, permitted⟩ := start.found
    rw [whose] at issuer ruled
    refine ⟨configs, parsed, .identity index one known.claims rule advertised present configured
      only issuer found (fun algorithm listed => ?_) vouched ruled
      (start.complete.claims rule ruled) met covers⟩
    have all := ((configuredAlgorithms_ok permitted).2 algorithm).mp listed
    exact ⟨all, symmetric_excluded all.1⟩
  next => cases told

end Tracing

section Team

def teamClaims : Json :=
  .object [("iss", .string "https://login"), ("repository", .string "team/app")]

abbrev teamProtocol : Protocol := { Specimen.protocol with parseValue := fun _ => some teamClaims }

attribute [local instance] teamProtocol

def teamRule : OidcRule := ⟨[("repository", .one (.string "team/app"))], ["team"], []⟩

def teamProvider : OidcProviderConfig :=
  ⟨"https://login", ["cache"], none, some "https://login/keys", ["ES256"], 300, 60, [teamRule]⟩

def teamKey : Jwk := ⟨some "first", some "ES256", some "sig", none⟩

def teamWeb : Web := ⟨fun _ => none, fun _ => some [teamKey]⟩

def teamReader : OptionReader := ⟨fun _ => none, fun _ => some [teamProvider], fun _ => none⟩

def teamOptions : AuthOptions := ⟨none, some "", false, none⟩

def teamCrates : TokenCrates :=
  ⟨fun _ => some [], fun _ => some ⟨.es256, some "first"⟩, fun _ _ _ _ => some teamClaims⟩

def teamStarted : StartedAuthorizer where
  authorizer := ⟨[], [teamProvider.provider], false, [], List.nodup_singleton _⟩
  providers := [⟨teamProvider, [.es256], "https://login/keys", [teamKey]⟩]
  known := rfl

theorem teamStarted_new :
    StartedAuthorizer.new teamReader (fun _ => ⟨true, fun _ => teamWeb⟩) teamOptions =
      .ok teamStarted :=
  StartedAuthorizer.new_iff.mpr ⟨rfl, rfl, rfl, [teamProvider], rfl, by decide +kernel⟩

def loginHeaders : AuthHeaders := ⟨some "1", some "team", some "Bearer head.body.tail"⟩

def teamMoves : List AuthMove :=
  [.arrive loginHeaders .read, .advance 0 0 teamWeb true, .advance 0 0 teamWeb true, .finish 0]

theorem team_authorizations_traced : ∃ token configs,
    loginHeaders.authorization = some ("Bearer " ++ token) ∧
      Traced teamCrates (fun _ => ⟨true, fun _ => teamWeb⟩) configs teamStarted.providers teamMoves
        token "team" .read := by
  have granted : ((AuthService.start teamStarted 0).run teamStarted teamCrates
      teamMoves).calls[0]? = some ⟨loginHeaders, .read, .answered (.ok "team")⟩ := rfl
  obtain ⟨-, -, -, ⟨-, -, none⟩ | ⟨-, none⟩ | ⟨token, bearer, ⟨grant, first, -⟩ |
    ⟨-, configs, -, traced⟩⟩⟩ :=
    authorizations_traced teamStarted_new teamCrates 0 teamMoves granted
  · cases none
  · obtain ⟨pattern, member, -⟩ := none
    cases member
  · cases first.member
  · exact ⟨token, configs, bearer, traced⟩

end Team
end MbxCache
