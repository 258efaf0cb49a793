import Mathlib.Data.List.Chain
import MbxCache.Auth.Authorizer

/-! The cached signing keys of a provider, under concurrent verifications (`auth.rs`). -/

namespace MbxCache

/-- `jsonwebtoken::Algorithm` -/
inductive SigningAlgorithm
  | hs256 | hs384 | hs512
  | es256 | es384
  | rs256 | rs384 | rs512
  | ps256 | ps384 | ps512
  | edDsa
  deriving DecidableEq, Repr

def SigningAlgorithm.fromStr : String → Option SigningAlgorithm
  | "HS256" => some .hs256
  | "HS384" => some .hs384
  | "HS512" => some .hs512
  | "ES256" => some .es256
  | "ES384" => some .es384
  | "RS256" => some .rs256
  | "RS384" => some .rs384
  | "RS512" => some .rs512
  | "PS256" => some .ps256
  | "PS384" => some .ps384
  | "PS512" => some .ps512
  | "EdDSA" => some .edDsa
  | _ => none

/-- What `verify` looks at in a key of a set. -/
structure Jwk where
  keyId : Option String
  keyAlgorithm : Option String
  publicKeyUse : Option String
  keyOperations : Option (List String)
  deriving DecidableEq, Repr

structure TokenHeader where
  alg : SigningAlgorithm
  kid : Option String
  deriving DecidableEq, Repr

def findKey (set : List Jwk) (kid : String) : Option Jwk :=
  set.find? fun key => key.keyId == some kid

def Jwk.fits (key : Jwk) (alg : SigningAlgorithm) : Bool :=
  noneOr key.keyAlgorithm (fun name => SigningAlgorithm.fromStr name == some alg) &&
    noneOr key.publicKeyUse (· == "sig") &&
    noneOr key.keyOperations (·.contains "verify")

/-- Durations and instants are in nanoseconds, on a clock that never goes back. -/
def seconds (count : Nat) : Nat := count * 1000000000

/-- `MIN_JWKS_REFRESH_SECONDS` -/
def minRefreshInterval : Nat := seconds 30

structure CachedKeys where
  set : List Jwk
  fetchedAt : Nat
  attemptedAt : Option Nat
  deriving DecidableEq, Repr

structure Verifier where
  provider : OidcProvider
  algorithms : List SigningAlgorithm

namespace Verifier

def stale (verifier : Verifier) (keys : CachedKeys) (now : Nat) : Bool :=
  seconds verifier.provider.jwksRefreshSeconds ≤ now - keys.fetchedAt

def settled (verifier : Verifier) (keys : CachedKeys) (kid : String) (now : Nat) : Bool :=
  keys.attemptedAt.any (fun attempted => decide (now - attempted < minRefreshInterval)) ||
    (!verifier.stale keys now && (findKey keys.set kid).isSome)

end Verifier

inductive Refusal
  | missingKid
  | disallowedAlgorithm
  | refreshFailed
  | keyNotFound
  | unfitKey
  deriving DecidableEq, Repr

/-- Where a verification is between two awaits. `known` is whether its key was in the
set when it first looked. -/
inductive Phase
  | begun
  | refreshing (kid : String) (known : Bool)
  | rechecking (kid : String) (known : Bool)
  | stamping (kid : String) (known : Bool)
  | attempting (kid : String) (known : Bool) (stamp : Nat)
  | fetching (kid : String) (known : Bool)
  | installing (kid : String) (set : List Jwk)
  | selecting (kid : String)
  | checking (kid : String) (key : Jwk)
  | refused (reason : Refusal)
  | dropped
  deriving DecidableEq, Repr

namespace Phase

def holding : Phase → Bool
  | .rechecking _ _ | .stamping _ _ | .attempting _ _ _ | .fetching _ _ | .installing _ _ => true
  | _ => false

def ended : Phase → Bool
  | .checking _ _ | .refused _ | .dropped => true
  | _ => false

end Phase

inductive KeyEvent
  | attempted (stamp : Nat)
  | fetched (set : List Jwk)
  | installed (set : List Jwk) (fetchedAt : Nat)
  | selected (kid : String)
  deriving DecidableEq, Repr

structure KeyCache where
  keys : CachedKeys
  refresh : Option Nat
  now : Nat
  log : List KeyEvent
  deriving DecidableEq, Repr

structure FetchChoice where
  answer : Option (List Jwk)
  usable : Bool
  deriving DecidableEq, Repr

namespace KeyCache

def note (cache : KeyCache) (event : KeyEvent) : KeyCache :=
  { cache with log := cache.log ++ [event] }

def release (cache : KeyCache) : KeyCache := { cache with refresh := none }

end KeyCache

/-- What a call does from one await to the next, as `verify` and `refresh_keys` have it.
The clock is read before the wait for the lock under which the attempt is written. -/
def Verifier.advance (verifier : Verifier) (id : Nat) (header : TokenHeader)
    (choice : FetchChoice) (cache : KeyCache) : Phase → KeyCache × Phase
  | .begun =>
      match header.kid with
      | none => (cache, .refused .missingKid)
      | some kid =>
          if !verifier.algorithms.contains header.alg then
            (cache, .refused .disallowedAlgorithm)
          else
            let known := (findKey cache.keys.set kid).isSome
            if verifier.stale cache.keys cache.now || !known then (cache, .refreshing kid known)
            else (cache, .selecting kid)
  | .refreshing kid known =>
      if cache.refresh.isNone then ({ cache with refresh := some id }, .rechecking kid known)
      else (cache, .refreshing kid known)
  | .rechecking kid known =>
      if verifier.settled cache.keys kid cache.now then (cache.release, .selecting kid)
      else (cache, .stamping kid known)
  | .stamping kid known => (cache, .attempting kid known cache.now)
  | .attempting kid known stamp =>
      ({ cache with keys := { cache.keys with attemptedAt := some stamp } }.note (.attempted stamp),
        .fetching kid known)
  | .fetching kid known =>
      match choice.answer with
      | none => (cache.release, if known then .selecting kid else .refused .refreshFailed)
      | some set => (cache.note (.fetched set), .installing kid set)
  | .installing kid set =>
      (({ cache with keys := { cache.keys with set := set, fetchedAt := cache.now } }.note
        (.installed set cache.now)).release, .selecting kid)
  | .selecting kid =>
      match findKey cache.keys.set kid with
      | none => (cache, .refused .keyNotFound)
      | some key =>
          if key.fits header.alg && choice.usable then
            (cache.note (.selected kid), .checking kid key)
          else (cache, .refused .unfitKey)
  | ended => (cache, ended)

structure Verification where
  header : TokenHeader
  phase : Phase
  deriving DecidableEq, Repr

structure KeyService where
  cache : KeyCache
  calls : List Verification
  deriving DecidableEq, Repr

inductive KeyMove
  | tick (elapsed : Nat)
  | begin (header : TokenHeader)
  | advance (id : Nat) (choice : FetchChoice)
  | drop (id : Nat)

namespace KeyService

/-- The cache right after `OidcProvider::new` fetched the first set. -/
def start (set : List Jwk) (now : Nat) : KeyService :=
  ⟨⟨⟨set, now, none⟩, none, now, []⟩, []⟩

def step (verifier : Verifier) (service : KeyService) : KeyMove → KeyService
  | .tick elapsed =>
      { service with cache := { service.cache with now := service.cache.now + elapsed } }
  | .begin header => { service with calls := service.calls ++ [⟨header, .begun⟩] }
  | .advance id choice =>
      match service.calls[id]? with
      | none => service
      | some call =>
          ⟨(verifier.advance id call.header choice service.cache call.phase).1,
            service.calls.set id { call with
              phase := (verifier.advance id call.header choice service.cache call.phase).2 }⟩
  | .drop id =>
      match service.calls[id]? with
      | none => service
      | some call =>
          if call.phase.ended then service
          else
            ⟨if call.phase.holding then service.cache.release else service.cache,
              service.calls.set id { call with phase := .dropped }⟩

def run (verifier : Verifier) (service : KeyService) (moves : List KeyMove) : KeyService :=
  moves.foldl (step verifier) service

end KeyService
def attempts (log : List KeyEvent) : List Nat :=
  log.filterMap fun event =>
    match event with
    | .attempted stamp => some stamp
    | _ => none

def currentSet (start : List Jwk × Nat) (log : List KeyEvent) : List Jwk × Nat :=
  log.foldl (fun held event =>
    match event with
    | .installed set fetchedAt => (set, fetchedAt)
    | _ => held) start

def Listed (kid : String) (set : List Jwk) : Prop := (findKey set kid).isSome = true

theorem attempts_append (front back : List KeyEvent) :
    attempts (front ++ back) = attempts front ++ attempts back := List.filterMap_append

theorem currentSet_append (start : List Jwk × Nat) (front back : List KeyEvent) :
    currentSet start (front ++ back) = currentSet (currentSet start front) back :=
  List.foldl_append

theorem currentSet_cases (start : List Jwk × Nat) (log : List KeyEvent) :
    currentSet start log = start ∨
      ∃ set fetchedAt, KeyEvent.installed set fetchedAt ∈ log ∧
        currentSet start log = (set, fetchedAt) := by
  induction log generalizing start with
  | nil => exact .inl rfl
  | cons event rest ih =>
      cases event with
      | installed set fetchedAt =>
          rcases ih (set, fetchedAt) with same | ⟨later, moment, member, found⟩
          · exact .inr ⟨set, fetchedAt, List.mem_cons_self, same⟩
          · exact .inr ⟨later, moment, List.mem_cons_of_mem _ member, found⟩
      | attempted stamp =>
          rcases ih start with same | ⟨later, moment, member, found⟩
          · exact .inl same
          · exact .inr ⟨later, moment, List.mem_cons_of_mem _ member, found⟩
      | fetched set =>
          rcases ih start with same | ⟨later, moment, member, found⟩
          · exact .inl same
          · exact .inr ⟨later, moment, List.mem_cons_of_mem _ member, found⟩
      | selected kid =>
          rcases ih start with same | ⟨later, moment, member, found⟩
          · exact .inl same
          · exact .inr ⟨later, moment, List.mem_cons_of_mem _ member, found⟩

structure Ordered (start : List Jwk × Nat) (log : List KeyEvent) : Prop where
  spaced : (attempts log).IsChain fun earlier later => earlier + minRefreshInterval ≤ later
  sourced : ∀ front back set fetchedAt, log = front ++ .installed set fetchedAt :: back →
    KeyEvent.fetched set ∈ front
  chosen : ∀ front back kid, log = front ++ .selected kid :: back →
    Listed kid (currentSet start front).1

namespace Ordered

variable {start : List Jwk × Nat} {log : List KeyEvent}

theorem nil (start : List Jwk × Nat) : Ordered start [] where
  spaced := .nil
  sourced front back set fetchedAt split := by simp at split
  chosen front back kid split := by simp at split

theorem split_last {log front back : List KeyEvent} {event seen : KeyEvent}
    (split : log ++ [event] = front ++ seen :: back) :
    (front = log ∧ seen = event) ∨ ∃ before, log = front ++ seen :: before := by
  rcases List.eq_nil_or_concat back with rfl | ⟨before, last, rfl⟩
  · obtain ⟨rfl, same⟩ := List.append_inj' split rfl
    cases same
    exact .inl ⟨rfl, rfl⟩
  · have moved : log ++ [event] = (front ++ seen :: before) ++ [last] := by
      rw [split]
      simp
    exact .inr ⟨before, (List.append_inj' moved rfl).1⟩

theorem attempted {stamp : Nat} (ordered : Ordered start log)
    (spaced : ∀ earlier, (attempts log).getLast? = some earlier →
      earlier + minRefreshInterval ≤ stamp) : Ordered start (log ++ [.attempted stamp]) where
  spaced := by
    rw [attempts_append]
    refine List.isChain_append.mpr ⟨ordered.spaced, .singleton _, ?_⟩
    intro earlier last later first
    cases first
    exact spaced earlier last
  sourced front back set fetchedAt split := by
    rcases split_last split with ⟨_, same⟩ | ⟨before, split⟩
    · cases same
    · exact ordered.sourced front before set fetchedAt split
  chosen front back kid split := by
    rcases split_last split with ⟨_, same⟩ | ⟨before, split⟩
    · cases same
    · exact ordered.chosen front before kid split

theorem fetched (ordered : Ordered start log) (set : List Jwk) :
    Ordered start (log ++ [.fetched set]) where
  spaced := by
    rw [attempts_append]
    exact (List.append_nil _).symm ▸ ordered.spaced
  sourced front back set fetchedAt split := by
    rcases split_last split with ⟨_, same⟩ | ⟨before, split⟩
    · cases same
    · exact ordered.sourced front before set fetchedAt split
  chosen front back kid split := by
    rcases split_last split with ⟨_, same⟩ | ⟨before, split⟩
    · cases same
    · exact ordered.chosen front before kid split

theorem installed {set : List Jwk} (ordered : Ordered start log) (fetchedAt : Nat)
    (source : KeyEvent.fetched set ∈ log) :
    Ordered start (log ++ [.installed set fetchedAt]) where
  spaced := by
    rw [attempts_append]
    exact (List.append_nil _).symm ▸ ordered.spaced
  sourced front back set fetchedAt split := by
    rcases split_last split with ⟨rfl, same⟩ | ⟨before, split⟩
    · cases same
      exact source
    · exact ordered.sourced front before set fetchedAt split
  chosen front back kid split := by
    rcases split_last split with ⟨_, same⟩ | ⟨before, split⟩
    · cases same
    · exact ordered.chosen front before kid split

theorem selected {kid : String} (ordered : Ordered start log)
    (listed : Listed kid (currentSet start log).1) :
    Ordered start (log ++ [.selected kid]) where
  spaced := by
    rw [attempts_append]
    exact (List.append_nil _).symm ▸ ordered.spaced
  sourced front back set fetchedAt split := by
    rcases split_last split with ⟨_, same⟩ | ⟨before, split⟩
    · cases same
    · exact ordered.sourced front before set fetchedAt split
  chosen front back kid split := by
    rcases split_last split with ⟨rfl, same⟩ | ⟨before, split⟩
    · cases same
      exact listed
    · exact ordered.chosen front before kid split

end Ordered

/-- The cache and its log tell the same story. -/
structure KeyCache.Sound (start : List Jwk × Nat) (cache : KeyCache) : Prop where
  ordered : Ordered start cache.log
  current : (cache.keys.set, cache.keys.fetchedAt) = currentSet start cache.log
  last : (attempts cache.log).getLast? = cache.keys.attemptedAt
  past : ∀ stamp, cache.keys.attemptedAt = some stamp → stamp ≤ cache.now

/-- What a call relies on between two of its steps. Whoever holds the mutex knows the
attempts before its own. -/
def Phase.Relies (id : Nat) (cache : KeyCache) : Phase → Prop
  | .rechecking _ _ | .fetching _ _ => cache.refresh = some id
  | .stamping _ _ => cache.refresh = some id ∧
      ∀ earlier, cache.keys.attemptedAt = some earlier → earlier + minRefreshInterval ≤ cache.now
  | .attempting _ _ stamp => cache.refresh = some id ∧ stamp ≤ cache.now ∧
      ∀ earlier, cache.keys.attemptedAt = some earlier → earlier + minRefreshInterval ≤ stamp
  | .installing _ set => cache.refresh = some id ∧ KeyEvent.fetched set ∈ cache.log
  | _ => True

namespace Phase.Relies

variable {id other : Nat} {cache next : KeyCache} {phase : Phase}

theorem holder (relies : phase.Relies id cache) (holding : phase.holding = true) :
    cache.refresh = some id := by
  cases phase with
  | rechecking => exact relies
  | fetching => exact relies
  | stamping => exact relies.1
  | attempting => exact relies.1
  | installing => exact relies.1
  | _ => cases holding

theorem free (idle : phase.holding = false) : phase.Relies id cache := by
  cases phase <;> first | exact trivial | cases idle

theorem later (relies : phase.Relies id cache) (refresh : next.refresh = cache.refresh)
    (keys : next.keys = cache.keys) (now : cache.now ≤ next.now) (log : cache.log ⊆ next.log) :
    phase.Relies id next := by
  cases phase with
  | rechecking => exact refresh.trans relies
  | fetching => exact refresh.trans relies
  | stamping =>
      refine ⟨refresh.trans relies.1, fun earlier attempted => ?_⟩
      exact (relies.2 earlier (keys ▸ attempted)).trans now
  | attempting =>
      obtain ⟨held, before, spaced⟩ := relies
      exact ⟨refresh.trans held, before.trans now, fun earlier attempted =>
        spaced earlier (keys ▸ attempted)⟩
  | installing => exact ⟨refresh.trans relies.1, log relies.2⟩
  | _ => exact trivial

theorem excluded (relies : phase.Relies id cache) (held : cache.refresh = some other)
    (distinct : id ≠ other) : phase.Relies id next := by
  apply free
  cases holding : phase.holding with
  | false => rfl
  | true =>
      have mine := relies.holder holding
      rw [held] at mine
      exact absurd (Option.some.inj mine).symm distinct

end Phase.Relies

section Step
variable {verifier : Verifier} {id other : Nat} {header : TokenHeader} {choice : FetchChoice}
  {start : List Jwk × Nat} {cache : KeyCache} {phase kept : Phase}

theorem KeyCache.Sound.note {event : KeyEvent} (sound : cache.Sound start)
    (ordered : Ordered start (cache.log ++ [event])) (quiet : attempts [event] = [])
    (keeps : ∀ held, currentSet held [event] = held) : (cache.note event).Sound start where
  ordered := ordered
  current := by
    change _ = currentSet start (cache.log ++ [event])
    rw [currentSet_append, keeps]
    exact sound.current
  last := by
    change (attempts (cache.log ++ [event])).getLast? = _
    rw [attempts_append, quiet, List.append_nil]
    exact sound.last
  past := sound.past

theorem KeyCache.Sound.tick (sound : cache.Sound start) (elapsed : Nat) :
    KeyCache.Sound start { cache with now := cache.now + elapsed } :=
  ⟨sound.ordered, sound.current, sound.last, fun stamp recorded =>
    (sound.past stamp recorded).trans (Nat.le_add_right _ _)⟩

theorem Verifier.unsettled {kid : String} (sound : cache.Sound start)
    (needed : ¬ verifier.settled cache.keys kid cache.now = true) (earlier : Nat)
    (attempted : cache.keys.attemptedAt = some earlier) :
    earlier + minRefreshInterval ≤ cache.now := by
  have before := sound.past earlier attempted
  simp only [Verifier.settled, attempted, Option.any_some, Bool.or_eq_true, decide_eq_true_eq,
    not_or] at needed
  omega

/-- A step of a call keeps the cache sound and leaves it what it relies on next. -/
theorem Verifier.advance_sound (header : TokenHeader) (choice : FetchChoice)
    (sound : cache.Sound start) (relies : phase.Relies id cache) :
    (verifier.advance id header choice cache phase).1.Sound start ∧
      (verifier.advance id header choice cache phase).2.Relies id
        (verifier.advance id header choice cache phase).1 := by
  cases phase with
  | begun =>
      simp only [Verifier.advance]
      split
      · exact ⟨sound, trivial⟩
      · split
        · exact ⟨sound, trivial⟩
        · split <;> exact ⟨sound, trivial⟩
  | refreshing kid known =>
      simp only [Verifier.advance]
      split
      · exact ⟨⟨sound.ordered, sound.current, sound.last, sound.past⟩, rfl⟩
      · exact ⟨sound, trivial⟩
  | rechecking kid known =>
      simp only [Verifier.advance]
      split
      · exact ⟨⟨sound.ordered, sound.current, sound.last, sound.past⟩, trivial⟩
      · rename_i needed
        exact ⟨sound, relies, Verifier.unsettled sound needed⟩
  | stamping kid known => exact ⟨sound, relies.1, Nat.le_refl _, relies.2⟩
  | attempting kid known stamp =>
      obtain ⟨held, before, spaced⟩ := relies
      have ordered : Ordered start (cache.log ++ [.attempted stamp]) := by
        apply sound.ordered.attempted
        intro earlier last
        rw [sound.last] at last
        exact spaced earlier last
      refine ⟨⟨ordered, ?_, ?_, ?_⟩, held⟩
      · change _ = currentSet start (cache.log ++ [.attempted stamp])
        rw [currentSet_append]
        exact sound.current
      · change (attempts (cache.log ++ [.attempted stamp])).getLast? = _
        rw [attempts_append]
        exact List.getLast?_concat
      · intro recorded same
        cases same
        exact before
  | fetching kid known =>
      simp only [Verifier.advance]
      split
      · refine ⟨⟨sound.ordered, sound.current, sound.last, sound.past⟩, ?_⟩
        split <;> exact trivial
      · rename_i set _
        exact ⟨sound.note (sound.ordered.fetched set) rfl fun _ => rfl, relies,
          List.mem_append_right _ List.mem_cons_self⟩
  | installing kid set =>
      refine ⟨⟨sound.ordered.installed cache.now relies.2, ?_, ?_, sound.past⟩, trivial⟩
      · change _ = currentSet start (cache.log ++ [.installed set cache.now])
        rw [currentSet_append]
        rfl
      · change (attempts (cache.log ++ [.installed set cache.now])).getLast? = _
        rw [attempts_append]
        exact (List.append_nil _).symm ▸ sound.last
  | selecting kid =>
      simp only [Verifier.advance]
      split
      · exact ⟨sound, trivial⟩
      · rename_i key found
        split
        · have listed : Listed kid (currentSet start cache.log).1 := by
            rw [← sound.current]
            exact Option.isSome_iff_exists.mpr ⟨key, found⟩
          exact ⟨sound.note (sound.ordered.selected listed) rfl fun _ => rfl, trivial⟩
        · exact ⟨sound, trivial⟩
  | checking kid key => exact ⟨sound, trivial⟩
  | refused reason => exact ⟨sound, trivial⟩
  | dropped => exact ⟨sound, trivial⟩

theorem Verifier.advance_frame (relies : phase.Relies id cache)
    (others : kept.Relies other cache) (distinct : other ≠ id) :
    kept.Relies other (verifier.advance id header choice cache phase).1 := by
  cases holding : phase.holding with
  | true => exact others.excluded (relies.holder holding) distinct
  | false =>
      cases phase with
      | begun =>
          simp only [Verifier.advance]
          split
          · exact others
          · split
            · exact others
            · split <;> exact others
      | refreshing kid known =>
          simp only [Verifier.advance]
          split
          · rename_i open_
            apply Phase.Relies.free
            cases mine : kept.holding with
            | false => rfl
            | true =>
                rw [others.holder mine] at open_
                cases open_
          · exact others
      | selecting kid =>
          simp only [Verifier.advance]
          split
          · exact others
          · split
            · exact others.later rfl rfl (Nat.le_refl _) (List.subset_append_left _ _)
            · exact others
      | checking kid key => exact others
      | refused reason => exact others
      | dropped => exact others
      | rechecking kid known => cases holding
      | stamping kid known => cases holding
      | attempting kid known stamp => cases holding
      | fetching kid known => cases holding
      | installing kid set => cases holding

/-- The set and its age change together, and only when a fetched set is installed. -/
theorem Verifier.advance_keys (relies : phase.Relies id cache) :
    ((verifier.advance id header choice cache phase).1.keys.set = cache.keys.set ∧
        (verifier.advance id header choice cache phase).1.keys.fetchedAt = cache.keys.fetchedAt) ∨
      ∃ set, KeyEvent.fetched set ∈ cache.log ∧
        (verifier.advance id header choice cache phase).1.keys.set = set ∧
        (verifier.advance id header choice cache phase).1.keys.fetchedAt = cache.now := by
  cases phase with
  | installing kid set => exact .inr ⟨set, relies.2, rfl, rfl⟩
  | begun =>
      refine .inl ?_
      simp only [Verifier.advance]
      split
      · exact ⟨rfl, rfl⟩
      · split
        · exact ⟨rfl, rfl⟩
        · split <;> exact ⟨rfl, rfl⟩
  | refreshing kid known =>
      refine .inl ?_
      simp only [Verifier.advance]
      split <;> exact ⟨rfl, rfl⟩
  | rechecking kid known =>
      refine .inl ?_
      simp only [Verifier.advance]
      split <;> exact ⟨rfl, rfl⟩
  | fetching kid known =>
      refine .inl ?_
      simp only [Verifier.advance]
      split <;> exact ⟨rfl, rfl⟩
  | selecting kid =>
      refine .inl ?_
      simp only [Verifier.advance]
      split
      · exact ⟨rfl, rfl⟩
      · split <;> exact ⟨rfl, rfl⟩
  | stamping kid known => exact .inl ⟨rfl, rfl⟩
  | attempting kid known stamp => exact .inl ⟨rfl, rfl⟩
  | checking kid key => exact .inl ⟨rfl, rfl⟩
  | refused reason => exact .inl ⟨rfl, rfl⟩
  | dropped => exact .inl ⟨rfl, rfl⟩

def Phase.Steady (kid : String) : Phase → Prop
  | .refreshing other known | .rechecking other known | .stamping other known
  | .attempting other known _ | .fetching other known => other = kid ∧ known = true
  | .installing other _ | .selecting other => other = kid
  | .refused reason => reason ≠ .refreshFailed ∧ reason ≠ .keyNotFound
  | .begun | .checking _ _ | .dropped => True

theorem Verifier.advance_steady {kid : String} (named : header.kid = some kid)
    (listed : Listed kid cache.keys.set) (steady : phase.Steady kid) :
    (verifier.advance id header choice cache phase).2.Steady kid := by
  have known : (findKey cache.keys.set kid).isSome = true := listed
  cases phase with
  | begun =>
      simp only [Verifier.advance, named]
      split
      · exact ⟨by decide, by decide⟩
      · split
        · exact ⟨rfl, known⟩
        · exact rfl
  | refreshing other flag =>
      simp only [Verifier.advance]
      split <;> exact steady
  | rechecking other flag =>
      simp only [Verifier.advance]
      split
      · exact steady.1
      · exact steady
  | stamping other flag => exact steady
  | attempting other flag stamp => exact steady
  | fetching other flag =>
      obtain ⟨rfl, rfl⟩ := steady
      simp only [Verifier.advance]
      split <;> exact rfl
  | installing other set => exact steady
  | selecting other =>
      obtain rfl : other = kid := steady
      simp only [Verifier.advance]
      split
      · rename_i missing
        rw [missing] at known
        cases known
      · split
        · exact trivial
        · exact ⟨by decide, by decide⟩
  | checking other key => exact trivial
  | refused reason => exact steady
  | dropped => exact trivial

theorem Verifier.advance_arrives {kid : String} {key : Jwk}
    (arrived : (verifier.advance id header choice cache phase).2 = .checking kid key) :
    phase = .checking kid key ∨ phase = .selecting kid ∧
      findKey cache.keys.set kid = some key ∧ key.fits header.alg = true := by
  cases phase with
  | selecting other =>
      simp only [Verifier.advance] at arrived
      split at arrived
      · cases arrived
      · rename_i found
        split at arrived
        · rename_i fits
          cases arrived
          exact .inr ⟨rfl, found, (Bool.and_eq_true_iff.mp fits).1⟩
        · cases arrived
  | begun =>
      simp only [Verifier.advance] at arrived
      split at arrived
      · cases arrived
      · split at arrived
        · cases arrived
        · split at arrived <;> cases arrived
  | refreshing other known =>
      simp only [Verifier.advance] at arrived
      split at arrived <;> cases arrived
  | rechecking other known =>
      simp only [Verifier.advance] at arrived
      split at arrived <;> cases arrived
  | fetching other known =>
      simp only [Verifier.advance] at arrived
      split at arrived
      · split at arrived <;> cases arrived
      · cases arrived
  | stamping other known => cases arrived
  | attempting other known stamp => cases arrived
  | installing other set => cases arrived
  | checking other kept => exact .inl arrived
  | refused reason => cases arrived
  | dropped => cases arrived

theorem Verifier.advance_checking {kid : String} {key : Jwk}
    (arrived : (verifier.advance id header choice cache phase).2 = .checking kid key) :
    phase = .checking kid key ∨ findKey cache.keys.set kid = some key :=
  (Verifier.advance_arrives arrived).imp_right fun selected => selected.2.1

end Step

namespace KeyService

structure Sound (start : List Jwk × Nat) (service : KeyService) : Prop where
  cache : service.cache.Sound start
  calls : ∀ id (call : Verification), service.calls[id]? = some call →
    call.phase.Relies id service.cache

section Runs
variable {verifier : Verifier} {origin : List Jwk × Nat} {service : KeyService}

theorem start_sound (set : List Jwk) (now : Nat) : (start set now).Sound (set, now) where
  cache := ⟨.nil _, rfl, rfl, fun stamp none => by cases none⟩
  calls id call present := by simp [start] at present

/-- Everyone's next move leaves the service sound. -/
theorem step_sound (sound : service.Sound origin) (move : KeyMove) :
    (service.step verifier move).Sound origin := by
  cases move with
  | tick elapsed =>
      refine ⟨sound.cache.tick elapsed, fun id call present => ?_⟩
      exact (sound.calls id call present).later rfl rfl (Nat.le_add_right _ _)
        (List.Subset.refl _)
  | begin header =>
      refine ⟨sound.cache, fun id call present => ?_⟩
      change (service.calls ++ [⟨header, .begun⟩])[id]? = some call at present
      rcases Concurrent.getElem?_snoc present with old | ⟨-, rfl⟩
      · exact sound.calls id call old
      · exact trivial
  | advance id choice =>
      simp only [step]
      split
      · exact sound
      · rename_i call present
        have relies := sound.calls id call present
        obtain ⟨cache, mine⟩ := verifier.advance_sound call.header choice sound.cache relies
        refine ⟨cache, fun other found there => ?_⟩
        by_cases same : other = id
        · subst same
          rw [List.getElem?_set_self (List.getElem?_eq_some_iff.mp present).1] at there
          cases there
          exact mine
        · rw [List.getElem?_set_ne (Ne.symm same)] at there
          exact verifier.advance_frame relies (sound.calls other found there) same
  | drop id =>
      simp only [step]
      split
      · exact sound
      · rename_i call present
        split
        · exact sound
        · have relies := sound.calls id call present
          refine ⟨?_, fun other found there => ?_⟩
          · split
            · exact ⟨sound.cache.ordered, sound.cache.current, sound.cache.last, sound.cache.past⟩
            · exact sound.cache
          · by_cases same : other = id
            · subst same
              rw [List.getElem?_set_self (List.getElem?_eq_some_iff.mp present).1] at there
              cases there
              exact trivial
            · rw [List.getElem?_set_ne (Ne.symm same)] at there
              have kept := sound.calls other found there
              split
              · rename_i holding
                exact kept.excluded (relies.holder holding) same
              · exact kept

theorem run_sound (sound : service.Sound origin) (moves : List KeyMove) :
    (service.run verifier moves).Sound origin := by
  induction moves generalizing service with
  | nil => exact sound
  | cons move rest ih => exact ih (step_sound sound move)

/-- Two calls that wait for a fetch are one. -/
theorem Sound.one_fetch (sound : service.Sound origin) {one other : Nat}
    {first second : Verification} (there : service.calls[one]? = some first)
    (here : service.calls[other]? = some second) {kid kid' : String} {known known' : Bool}
    (fetching : first.phase = .fetching kid known)
    (fetching' : second.phase = .fetching kid' known') : one = other := by
  have holds := (sound.calls one first there).holder (by rw [fetching]; rfl)
  have holds' := (sound.calls other second here).holder (by rw [fetching']; rfl)
  rw [holds] at holds'
  exact Option.some.inj holds'

/-- A key that an installed set no longer lists is not selected until another lists it. -/
theorem Sound.forgotten (sound : service.Sound origin) {front middle back : List KeyEvent}
    {set : List Jwk} {fetchedAt : Nat} {kid : String}
    (history : service.cache.log =
      front ++ .installed set fetchedAt :: middle ++ .selected kid :: back)
    (gone : ¬ Listed kid set) :
    ∃ later moment, KeyEvent.installed later moment ∈ middle ∧ Listed kid later := by
  have chosen := sound.cache.ordered.chosen _ back kid history
  rw [show front ++ KeyEvent.installed set fetchedAt :: middle =
    (front ++ [.installed set fetchedAt]) ++ middle by simp, currentSet_append,
    currentSet_append] at chosen
  rcases currentSet_cases (set, fetchedAt) middle with same | ⟨later, moment, member, found⟩
  · exact absurd (show Listed kid (set, fetchedAt).1 from same ▸ chosen) gone
  · rw [show currentSet _ [KeyEvent.installed set fetchedAt] = (set, fetchedAt) from rfl, found]
      at chosen
    exact ⟨later, moment, member, chosen⟩

theorem step_keys (sound : service.Sound origin) (move : KeyMove) :
    ((service.step verifier move).cache.keys.set = service.cache.keys.set ∧
        (service.step verifier move).cache.keys.fetchedAt = service.cache.keys.fetchedAt) ∨
      ∃ set, KeyEvent.fetched set ∈ service.cache.log ∧
        (service.step verifier move).cache.keys.set = set ∧
        (service.step verifier move).cache.keys.fetchedAt = service.cache.now := by
  cases move with
  | tick elapsed => exact .inl ⟨rfl, rfl⟩
  | begin header => exact .inl ⟨rfl, rfl⟩
  | advance id choice =>
      simp only [step]
      split
      · exact .inl ⟨rfl, rfl⟩
      · rename_i call present
        exact verifier.advance_keys (sound.calls id call present)
  | drop id =>
      refine .inl ?_
      simp only [step]
      split
      · exact ⟨rfl, rfl⟩
      · split
        · exact ⟨rfl, rfl⟩
        · split <;> exact ⟨rfl, rfl⟩

theorem step_call {id : Nat} {move : KeyMove} {call : Verification}
    (present : (service.step verifier move).calls[id]? = some call) :
    service.calls[id]? = some call ∨ call.phase = .begun ∨ call.phase = .dropped ∨
      ∃ phase choice, service.calls[id]? = some ⟨call.header, phase⟩ ∧
        call.phase = (verifier.advance id call.header choice service.cache phase).2 := by
  cases move with
  | tick elapsed => exact .inl present
  | begin header =>
      rcases Concurrent.getElem?_snoc present with old | ⟨-, fresh⟩
      · exact .inl old
      · exact .inr (.inl (by rw [fresh]))
  | advance moved choice =>
      simp only [step] at present
      split at present
      next => exact .inl present
      next before there =>
        by_cases same : id = moved
        · subst same
          rw [List.getElem?_set_self (List.getElem?_eq_some_iff.mp there).1] at present
          cases present
          exact .inr (.inr (.inr ⟨before.phase, choice, there, rfl⟩))
        · exact .inl ((List.getElem?_set_ne (Ne.symm same)).symm.trans present)
  | drop dropped =>
      simp only [step] at present
      split at present
      next => exact .inl present
      next before there =>
        split at present
        next => exact .inl present
        next =>
          by_cases same : id = dropped
          · subst same
            rw [List.getElem?_set_self (List.getElem?_eq_some_iff.mp there).1] at present
            cases present
            exact .inr (.inr (.inl rfl))
          · exact .inl ((List.getElem?_set_ne (Ne.symm same)).symm.trans present)

theorem step_checking {id : Nat} {move : KeyMove} {header : TokenHeader} {kid : String} {key : Jwk}
    (arrived : (service.step verifier move).calls[id]? = some ⟨header, .checking kid key⟩) :
    service.calls[id]? = some ⟨header, .checking kid key⟩ ∨
      findKey service.cache.keys.set kid = some key := by
  rcases step_call arrived with old | begun | dropped | ⟨phase, choice, before, moved⟩
  · exact .inl old
  · cases begun
  · cases dropped
  · rcases Verifier.advance_checking moved.symm with same | found
    · exact .inl (same ▸ before)
    · exact .inr found

/-- A call whose key stays in the set is never refused for want of it. -/
theorem run_steady {id : Nat} {call : Verification} {kid : String}
    (present : service.calls[id]? = some call) (named : call.header.kid = some kid)
    (steady : call.phase.Steady kid) (moves : List KeyMove)
    (kept : ∀ front, front <+: moves → Listed kid (service.run verifier front).cache.keys.set) :
    ∃ after, (service.run verifier moves).calls[id]? = some after ∧
      after.header = call.header ∧ after.phase.Steady kid := by
  induction moves generalizing service call with
  | nil => exact ⟨call, present, rfl, steady⟩
  | cons move rest ih =>
      have listed := kept [] List.nil_prefix
      have next : ∃ after, (service.step verifier move).calls[id]? = some after ∧
          after.header = call.header ∧ after.phase.Steady kid := by
        cases move with
        | tick elapsed => exact ⟨call, present, rfl, steady⟩
        | begin header =>
            refine ⟨call, ?_, rfl, steady⟩
            exact (List.getElem?_append_left (List.getElem?_eq_some_iff.mp present).1).trans present
        | advance moved choice =>
            simp only [step]
            split
            · exact ⟨call, present, rfl, steady⟩
            · rename_i other there
              by_cases same : id = moved
              · subst same
                rw [present] at there
                cases there
                refine ⟨_, List.getElem?_set_self (List.getElem?_eq_some_iff.mp present).1, rfl, ?_⟩
                exact verifier.advance_steady named listed steady
              · exact ⟨call, (List.getElem?_set_ne (Ne.symm same)).trans present, rfl, steady⟩
        | drop dropped =>
            simp only [step]
            split
            · exact ⟨call, present, rfl, steady⟩
            · split
              · exact ⟨call, present, rfl, steady⟩
              · rename_i other there _
                by_cases same : id = dropped
                · subst same
                  rw [present] at there
                  cases there
                  exact ⟨_, List.getElem?_set_self (List.getElem?_eq_some_iff.mp present).1, rfl,
                    trivial⟩
                · exact ⟨call, (List.getElem?_set_ne (Ne.symm same)).trans present, rfl, steady⟩
      obtain ⟨after, present', header, steady'⟩ := next
      obtain ⟨last, found, header', steady''⟩ := ih present' (header ▸ named) steady'
        fun front starts => kept (move :: front) (List.cons_prefix_cons.mpr ⟨rfl, starts⟩)
      exact ⟨last, found, header'.trans header, steady''⟩

end Runs
end KeyService

/-- Whatever verifications do, in any order: one fetch at a time, attempts spaced by the
cooldown, the set and its age replaced together and only by what was fetched, keys taken
only from the set as it is, and no refusal for want of a key that stays listed. -/
theorem key_cache_limits_and_fails_safe (verifier : Verifier) (set : List Jwk) (now : Nat)
    (moves : List KeyMove) :
    let service := (KeyService.start set now).run verifier moves
    (∀ (one other : Nat) (first second : Verification) (kid kid' : String) (known known' : Bool),
      service.calls[one]? = some first → service.calls[other]? = some second →
      first.phase = .fetching kid known → second.phase = .fetching kid' known' → one = other) ∧
    ((attempts service.cache.log).IsChain
      fun earlier later => earlier + minRefreshInterval ≤ later) ∧
    (attempts service.cache.log).getLast? = service.cache.keys.attemptedAt ∧
    (∀ move, let next := service.step verifier move
      (next.cache.keys.set = service.cache.keys.set ∧
          next.cache.keys.fetchedAt = service.cache.keys.fetchedAt) ∨
        ∃ fetched, KeyEvent.fetched fetched ∈ service.cache.log ∧
          next.cache.keys.set = fetched ∧ next.cache.keys.fetchedAt = service.cache.now) ∧
    (∀ move (id : Nat) (header : TokenHeader) (kid : String) (key : Jwk),
      (service.step verifier move).calls[id]? = some ⟨header, .checking kid key⟩ →
      service.calls[id]? = some ⟨header, .checking kid key⟩ ∨
        findKey service.cache.keys.set kid = some key) ∧
    (∀ front middle back dropped fetchedAt kid, service.cache.log =
        front ++ .installed dropped fetchedAt :: middle ++ .selected kid :: back →
      ¬ Listed kid dropped →
      ∃ later moment, KeyEvent.installed later moment ∈ middle ∧ Listed kid later) ∧
    (∀ (id : Nat) (header : TokenHeader) (kid : String) (later : List KeyMove),
      service.calls[id]? = some ⟨header, .begun⟩ → header.kid = some kid →
      (∀ front, front <+: later → Listed kid (service.run verifier front).cache.keys.set) →
      ∀ reason : Refusal, (service.run verifier later).calls[id]? = some ⟨header, .refused reason⟩ →
        reason ≠ .refreshFailed ∧ reason ≠ .keyNotFound) := by
  intro service
  have sound : service.Sound (set, now) := KeyService.run_sound (KeyService.start_sound set now) moves
  refine ⟨?_, sound.cache.ordered.spaced, sound.cache.last, KeyService.step_keys sound, ?_, ?_, ?_⟩
  · intro one other first second kid kid' known known' there here fetching fetching'
    exact sound.one_fetch there here fetching fetching'
  · intro move id header kid key arrived
    exact KeyService.step_checking arrived
  · intro front middle back dropped fetchedAt kid history gone
    exact sound.forgotten history gone
  · intro id header kid later present named kept reason refused
    obtain ⟨after, found, _, steady⟩ := KeyService.run_steady present named trivial later kept
    rw [refused] at found
    cases found
    exact steady

end MbxCache
