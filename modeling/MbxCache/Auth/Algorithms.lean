import MbxCache.Auth.KeyCache

/-! The signing algorithms a provider may use, and the way from a token to its signature
check (`auth.rs`). -/

namespace MbxCache

/-- `DEFAULT_ALGORITHMS` -/
def defaultAlgorithms : List SigningAlgorithm :=
  [.rs256, .rs384, .rs512, .ps256, .ps384, .ps512, .es256, .es384, .edDsa]

def SigningAlgorithm.symmetric : SigningAlgorithm → Bool
  | .hs256 | .hs384 | .hs512 => true
  | _ => false

inductive AlgorithmError
  /-- `unsupported OIDC algorithm` -/
  | unsupported (name : String)
  /-- `OIDC provider has no mutually supported asymmetric signing algorithm` -/
  | disjoint
  deriving DecidableEq, Repr

def parseAlgorithms : List String → Except AlgorithmError (List SigningAlgorithm)
  | [] => .ok []
  | name :: rest => do
      match SigningAlgorithm.fromStr name with
      | none => throw (.unsupported name)
      | some algorithm => return algorithm :: (← parseAlgorithms rest)

def chosenAlgorithms (configured : List String) : Except AlgorithmError (List SigningAlgorithm) :=
  if configured.isEmpty then .ok defaultAlgorithms else parseAlgorithms configured

/-- The two `retain` steps. Advertised names that are unknown are passed over. -/
def retainAlgorithms (advertised : List String) (chosen : List SigningAlgorithm) :
    List SigningAlgorithm :=
  let asymmetric := chosen.filter defaultAlgorithms.contains
  if advertised.isEmpty then asymmetric
  else asymmetric.filter (advertised.filterMap SigningAlgorithm.fromStr).contains

def configuredAlgorithms (configured advertised : List String) :
    Except AlgorithmError (List SigningAlgorithm) := do
  let chosen ← chosenAlgorithms configured
  let algorithms := retainAlgorithms advertised chosen
  if algorithms.isEmpty then .error .disjoint else .ok algorithms

def Allows (names : List String) (algorithm : SigningAlgorithm) : Prop :=
  names ≠ [] → ∃ name ∈ names, SigningAlgorithm.fromStr name = some algorithm

def Agreed (configured advertised : List String) (algorithm : SigningAlgorithm) : Prop :=
  algorithm ∈ defaultAlgorithms ∧ Allows configured algorithm ∧ Allows advertised algorithm

theorem symmetric_excluded {algorithm : SigningAlgorithm} (member : algorithm ∈ defaultAlgorithms) :
    algorithm.symmetric = false := by
  cases algorithm <;> first | rfl | exact absurd member (by decide)

theorem parseAlgorithms_ok {names : List String} {algorithms : List SigningAlgorithm} :
    parseAlgorithms names = .ok algorithms ↔ names.map SigningAlgorithm.fromStr =
      algorithms.map some := by
  induction names generalizing algorithms with
  | nil => cases algorithms <;> simp [parseAlgorithms]
  | cons name rest ih =>
      simp only [parseAlgorithms, List.map_cons]
      cases known : SigningAlgorithm.fromStr name with
      | none =>
          constructor
          · intro failed
            cases failed
          · intro same
            cases algorithms <;> simp at same
      | some algorithm =>
          cases parsed : parseAlgorithms rest with
          | error failure =>
              constructor
              · intro failed
                cases failed
              · intro same
                cases algorithms with
                | nil => cases same
                | cons first others =>
                    have tail : parseAlgorithms rest = .ok others := ih.mpr (List.cons.inj same).2
                    rw [parsed] at tail
                    cases tail
          | ok others =>
              have tail := ih.mp parsed
              rw [tail]
              constructor
              · intro same
                cases same
                rfl
              · intro same
                cases algorithms with
                | nil => cases same
                | cons first kept =>
                    obtain ⟨head, back⟩ := List.cons.inj same
                    have front : algorithm = first := Option.some.inj head
                    have rear : others = kept :=
                      List.map_injective_iff.mpr (Option.some_injective _) back
                    rw [front, rear]
                    rfl

theorem mem_parseAlgorithms {names : List String} {algorithms : List SigningAlgorithm}
    (parsed : parseAlgorithms names = .ok algorithms) (algorithm : SigningAlgorithm) :
    algorithm ∈ algorithms ↔ ∃ name ∈ names, SigningAlgorithm.fromStr name = some algorithm := by
  have same := parseAlgorithms_ok.mp parsed
  calc
    algorithm ∈ algorithms ↔ some algorithm ∈ algorithms.map some := by simp
    _ ↔ some algorithm ∈ names.map SigningAlgorithm.fromStr := by rw [same]
    _ ↔ ∃ name ∈ names, SigningAlgorithm.fromStr name = some algorithm := List.mem_map

theorem mem_chosenAlgorithms {configured : List String} {chosen : List SigningAlgorithm}
    (parsed : chosenAlgorithms configured = .ok chosen) (algorithm : SigningAlgorithm) :
    algorithm ∈ chosen ∧ algorithm ∈ defaultAlgorithms ↔
      algorithm ∈ defaultAlgorithms ∧ Allows configured algorithm := by
  cases configured with
  | nil =>
      cases parsed
      simp [Allows]
  | cons name rest =>
      have listed : algorithm ∈ chosen ↔ ∃ given ∈ name :: rest,
          SigningAlgorithm.fromStr given = some algorithm := mem_parseAlgorithms parsed algorithm
      simp [Allows, listed, and_comm]

theorem mem_retainAlgorithms (advertised : List String) (chosen : List SigningAlgorithm)
    (algorithm : SigningAlgorithm) :
    algorithm ∈ retainAlgorithms advertised chosen ↔
      (algorithm ∈ chosen ∧ algorithm ∈ defaultAlgorithms) ∧ Allows advertised algorithm := by
  cases advertised with
  | nil => simp [retainAlgorithms, Allows]
  | cons name rest =>
      simp only [retainAlgorithms, Allows, List.isEmpty_cons, Bool.false_eq_true, if_false,
        List.mem_filter, List.contains_iff_mem, List.mem_filterMap, ne_eq, reduceCtorEq,
        not_false_eq_true, true_implies]

theorem mem_permitted {configured advertised : List String} {chosen : List SigningAlgorithm}
    (parsed : chosenAlgorithms configured = .ok chosen) (algorithm : SigningAlgorithm) :
    algorithm ∈ retainAlgorithms advertised chosen ↔ Agreed configured advertised algorithm := by
  rw [mem_retainAlgorithms, mem_chosenAlgorithms parsed, Agreed, and_assoc]

/-- Whatever list comes back holds exactly what all sides agree on, and holds something. -/
theorem configuredAlgorithms_ok {configured advertised : List String}
    {algorithms : List SigningAlgorithm}
    (agreed : configuredAlgorithms configured advertised = .ok algorithms) :
    algorithms ≠ [] ∧
      ∀ algorithm, algorithm ∈ algorithms ↔ Agreed configured advertised algorithm := by
  unfold configuredAlgorithms at agreed
  cases parsed : chosenAlgorithms configured with
  | error failure =>
      rw [parsed] at agreed
      cases agreed
  | ok chosen =>
      simp only [parsed, bind, Except.bind] at agreed
      split at agreed
      next => cases agreed
      next some =>
        cases agreed
        exact ⟨by simpa using some, mem_permitted parsed⟩

theorem parseAlgorithms_fails (names : List String) :
    (∃ failure, parseAlgorithms names = .error failure) ↔
      ∃ name ∈ names, SigningAlgorithm.fromStr name = none := by
  induction names with
  | nil => simp [parseAlgorithms]
  | cons name rest ih =>
      simp only [parseAlgorithms, List.exists_mem_cons_iff, ← ih]
      cases known : SigningAlgorithm.fromStr name with
      | none => simp [throw, throwThe, MonadExceptOf.throw]
      | some algorithm =>
          cases parsed : parseAlgorithms rest with
          | error failure => simp [bind, Except.bind]
          | ok others => simp [bind, Except.bind, pure, Except.pure]

theorem configuredAlgorithms_fails (configured advertised : List String) :
    (∃ failure, configuredAlgorithms configured advertised = .error failure) ↔
      (∃ name ∈ configured, SigningAlgorithm.fromStr name = none) ∨
        ∀ algorithm, ¬ Agreed configured advertised algorithm := by
  have unknown : (∃ failure, chosenAlgorithms configured = .error failure) ↔
      ∃ name ∈ configured, SigningAlgorithm.fromStr name = none := by
    cases configured with
    | nil => simp [chosenAlgorithms]
    | cons name rest => exact parseAlgorithms_fails (name :: rest)
  rw [← unknown]
  unfold configuredAlgorithms
  cases parsed : chosenAlgorithms configured with
  | error failure => simp [bind, Except.bind]
  | ok chosen =>
      have empty : (retainAlgorithms advertised chosen).isEmpty = true ↔
          ∀ algorithm, ¬ Agreed configured advertised algorithm := by
        simp only [← mem_permitted parsed, List.isEmpty_iff, List.eq_nil_iff_forall_not_mem]
      rw [← empty]
      by_cases none : (retainAlgorithms advertised chosen).isEmpty <;>
        simp [bind, Except.bind, none]

structure Permitted (verifier : Verifier) (set : List Jwk) (header : TokenHeader) (kid : String)
    (key : Jwk) : Prop where
  listed : header.alg ∈ verifier.algorithms
  named : header.kid = some kid
  found : findKey set kid = some key
  declared : ∀ name, key.keyAlgorithm = some name →
    SigningAlgorithm.fromStr name = some header.alg
  signing : ∀ usage, key.publicKeyUse = some usage → usage = "sig"
  verifying : ∀ operations, key.keyOperations = some operations → "verify" ∈ operations

theorem Jwk.fits_iff (key : Jwk) (alg : SigningAlgorithm) :
    key.fits alg = true ↔
      (∀ name, key.keyAlgorithm = some name → SigningAlgorithm.fromStr name = some alg) ∧
      (∀ usage, key.publicKeyUse = some usage → usage = "sig") ∧
      ∀ operations, key.keyOperations = some operations → "verify" ∈ operations := by
  simp [Jwk.fits, noneOr, Option.all_eq_true, and_assoc]

def Phase.Cleared (verifier : Verifier) (header : TokenHeader) : Phase → Prop
  | .refreshing kid _ | .rechecking kid _ | .stamping kid _ | .attempting kid _ _
  | .fetching kid _ | .installing kid _ | .selecting kid =>
      header.alg ∈ verifier.algorithms ∧ header.kid = some kid
  | .begun | .checking _ _ | .refused _ | .dropped => True

section Step
variable {verifier : Verifier} {header : TokenHeader} {choice : FetchChoice} {cache : KeyCache}
  {phase : Phase} {id : Nat}

theorem Verifier.advance_cleared (cleared : phase.Cleared verifier header) :
    (verifier.advance id header choice cache phase).2.Cleared verifier header := by
  cases phase with
  | begun =>
      simp only [Verifier.advance]
      split
      next => trivial
      next kid named =>
        split
        next => trivial
        next listed =>
          have member : header.alg ∈ verifier.algorithms := by simpa using listed
          split <;> exact ⟨member, named⟩
  | refreshing kid known =>
      simp only [Verifier.advance]
      split <;> exact cleared
  | rechecking kid known =>
      simp only [Verifier.advance]
      split <;> exact cleared
  | stamping kid known => exact cleared
  | attempting kid known stamp => exact cleared
  | fetching kid known =>
      simp only [Verifier.advance]
      split
      next =>
        split
        next => exact cleared
        next => trivial
      next => exact cleared
  | installing kid set => exact cleared
  | selecting kid =>
      simp only [Verifier.advance]
      split
      next => trivial
      next => split <;> trivial
  | checking kid key => trivial
  | refused reason => trivial
  | dropped => trivial

theorem Verifier.advance_permitted {kid : String} {key : Jwk}
    (cleared : phase.Cleared verifier header)
    (arrived : (verifier.advance id header choice cache phase).2 = .checking kid key) :
    phase = .checking kid key ∨ Permitted verifier cache.keys.set header kid key := by
  rcases Verifier.advance_arrives arrived with before | ⟨rfl, found, fits⟩
  · exact .inl before
  · obtain ⟨declared, signing, verifying⟩ := (Jwk.fits_iff key header.alg).mp fits
    exact .inr ⟨cleared.1, cleared.2, found, declared, signing, verifying⟩

end Step

namespace KeyService

section Runs
variable {verifier : Verifier} {service : KeyService}

def Cleared (verifier : Verifier) (service : KeyService) : Prop :=
  ∀ (id : Nat) (call : Verification), service.calls[id]? = some call →
    call.phase.Cleared verifier call.header

theorem step_cleared (cleared : service.Cleared verifier) (move : KeyMove) :
    (service.step verifier move).Cleared verifier := by
  intro id call present
  rcases step_call present with old | begun | dropped | ⟨phase, choice, before, moved⟩
  · exact cleared id call old
  · rw [begun]
    trivial
  · rw [dropped]
    trivial
  · rw [moved]
    exact Verifier.advance_cleared (cleared id _ before)

theorem run_snoc (moves : List KeyMove) (move : KeyMove) :
    service.run verifier (moves ++ [move]) = (service.run verifier moves).step verifier move := by
  simp [run]

theorem run_cleared (cleared : service.Cleared verifier) (moves : List KeyMove) :
    (service.run verifier moves).Cleared verifier := by
  induction moves using List.reverseRecOn with
  | nil => exact cleared
  | append_singleton moves move ih =>
      rw [run_snoc]
      exact step_cleared ih move

theorem start_cleared (verifier : Verifier) (set : List Jwk) (now : Nat) : (start set now).Cleared verifier := by
  intro id call present
  simp [start] at present

/-- A call is at its signature only since a moment at which its key was permitted. -/
theorem run_permitted (set : List Jwk) (now : Nat) (moves : List KeyMove) {id : Nat}
    {header : TokenHeader} {kid : String} {key : Jwk}
    (arrived : ((start set now).run verifier moves).calls[id]? = some ⟨header, .checking kid key⟩) :
    ∃ front, front <+: moves ∧
      Permitted verifier ((start set now).run verifier front).cache.keys.set header kid key := by
  induction moves using List.reverseRecOn with
  | nil => simp [run, start] at arrived
  | append_singleton moves move ih =>
      have earlier : ((start set now).run verifier moves).calls[id]? =
          some ⟨header, .checking kid key⟩ →
          ∃ front, front <+: moves ++ [move] ∧
            Permitted verifier ((start set now).run verifier front).cache.keys.set header kid key := by
        intro present
        obtain ⟨front, before, permitted⟩ := ih present
        exact ⟨front, before.trans (List.prefix_append moves [move]), permitted⟩
      rw [run_snoc] at arrived
      rcases step_call arrived with old | begun | dropped | ⟨phase, choice, before, moved⟩
      · exact earlier old
      · cases begun
      · cases dropped
      · have cleared := run_cleared (start_cleared verifier set now) moves id _ before
        rcases Verifier.advance_permitted cleared moved.symm with same | permitted
        · exact earlier (same ▸ before)
        · exact ⟨moves, List.prefix_append moves [move], permitted⟩

end Runs
end KeyService

/-- The agreed list is what configuration, discovery and server have in common, and a token
gets to its signature only by an algorithm of that list and a key made for it. -/
theorem only_agreed_signatures (configured advertised : List String) :
    (∀ algorithms, configuredAlgorithms configured advertised = .ok algorithms →
      algorithms ≠ [] ∧
        ∀ algorithm, algorithm ∈ algorithms ↔ Agreed configured advertised algorithm) ∧
    ∀ (provider : OidcProvider) (algorithms : List SigningAlgorithm),
      configuredAlgorithms configured advertised = .ok algorithms →
      ∀ (set : List Jwk) (now : Nat) (moves : List KeyMove) (id : Nat) (header : TokenHeader)
        (kid : String) (key : Jwk),
        ((KeyService.start set now).run ⟨provider, algorithms⟩ moves).calls[id]? =
          some ⟨header, .checking kid key⟩ →
        Agreed configured advertised header.alg ∧ header.alg.symmetric = false ∧
          ∃ front, front <+: moves ∧ Permitted ⟨provider, algorithms⟩
            ((KeyService.start set now).run ⟨provider, algorithms⟩ front).cache.keys.set
            header kid key := by
  refine ⟨fun algorithms agreed => configuredAlgorithms_ok agreed, ?_⟩
  intro provider algorithms agreed set now moves id header kid key arrived
  obtain ⟨front, before, permitted⟩ := KeyService.run_permitted set now moves arrived
  have both : Agreed configured advertised header.alg :=
    ((configuredAlgorithms_ok agreed).2 header.alg).mp permitted.listed
  exact ⟨both, symmetric_excluded both.1, front, before, permitted⟩

end MbxCache
