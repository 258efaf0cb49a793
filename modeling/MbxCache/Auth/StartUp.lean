import Mathlib.Data.List.Forall2
import Mathlib.Data.List.DropRight
import MbxCache.Auth.Algorithms

/-! How an authorizer starts, and what it then trusts (`auth.rs`). -/

namespace MbxCache

structure OidcProviderConfig where
  issuer : String
  audiences : List String
  discoveryUri : Option String
  jwksUri : Option String
  algorithms : List String
  jwksRefreshSeconds : UInt64
  clockSkewSeconds : UInt64
  rules : List OidcRule
  deriving DecidableEq, Repr

structure DiscoveryDocument where
  issuer : String
  jwksUri : String
  idTokenSigningAlgValuesSupported : List String
  deriving DecidableEq, Repr

inductive FetchError
  /-- `discover OIDC issuer` -/
  | discover (issuer : String)
  /-- `OIDC discovery issuer mismatch` -/
  | mismatch (configured received : String)
  /-- `fetch OIDC keys for` -/
  | keys (issuer : String)
  deriving DecidableEq, Repr

inductive StartError
  /-- `parse .. JSON` -/
  | unparsed (label : String)
  /-- `OIDC issuer .. is configured more than once` -/
  | repeatedIssuer (issuer : String)
  /-- `each OIDC provider requires issuer, audiences, and rules` -/
  | incomplete
  /-- `OIDC jwks_refresh_seconds must be greater than zero` -/
  | zeroRefresh
  /-- `each OIDC authorization rule must require at least one claim` -/
  | claimlessRule
  | noClient
  /-- `initialize OIDC issuer` -/
  | initializing (issuer : String) (cause : FetchError)
  | algorithms (cause : AlgorithmError)
  deriving DecidableEq, Repr

/-- `serde_json::from_str`, at the types of the options. -/
structure OptionReader where
  grants : String → Option (List TokenGrant)
  providers : String → Option (List OidcProviderConfig)
  patterns : String → Option (List String)

structure AuthOptions where
  tokensJson : Option String
  oidcProvidersJson : Option String
  allowAnonymous : Bool
  anonymousReadNamespacesJson : Option String
  deriving DecidableEq, Repr

def parseJsonArray {α : Type} (parse : String → Option (List α)) (json : Option String)
    (label : String) : Except StartError (List α) :=
  match json with
  | none => .ok []
  | some text =>
      match parse text with
      | none => .error (.unparsed label)
      | some values => .ok values

def validateProviderConfig (config : OidcProviderConfig) : Except StartError Unit :=
  if config.issuer.isEmpty || config.audiences.isEmpty || config.rules.isEmpty then
    .error .incomplete
  else if config.jwksRefreshSeconds == 0 then .error .zeroRefresh
  else if config.rules.any fun rule => rule.claims.isEmpty then .error .claimlessRule
  else .ok ()

structure Web where
  documents : String → Option DiscoveryDocument
  keySets : String → Option (List Jwk)

structure ProviderData where
  jwksUri : String
  advertised : List String
  set : List Jwk
  deriving DecidableEq, Repr

def OidcProviderConfig.discoveryAddress (config : OidcProviderConfig) : String :=
  config.discoveryUri.getD
    (String.ofList (config.issuer.toList.rdropWhile (· == '/')) ++
      "/.well-known/openid-configuration")

def fetchJwks (web : Web) (config : OidcProviderConfig) (uri : String) (advertised : List String) :
    Except FetchError ProviderData :=
  match web.keySets uri with
  | none => .error (.keys config.issuer)
  | some set => .ok ⟨uri, advertised, set⟩

def fetchProviderData (web : Web) (config : OidcProviderConfig) :
    Except FetchError ProviderData :=
  match config.jwksUri with
  | some uri => fetchJwks web config uri []
  | none =>
      match web.documents config.discoveryAddress with
      | none => .error (.discover config.issuer)
      | some document =>
          if document.issuer ≠ config.issuer then
            .error (.mismatch config.issuer document.issuer)
          else fetchJwks web config document.jwksUri document.idTokenSigningAlgValuesSupported

def tryEach {α β ε : Type} (attempt : α → Except ε β) (first : α) : List α → Except ε β
  | [] => attempt first
  | next :: rest =>
      match attempt first with
      | .ok value => .ok value
      | .error _ => tryEach attempt next rest

def initialFetchAttempts : Nat := 3

def fetchInitialProviderData (webs : Nat → Web) (config : OidcProviderConfig) :
    Except StartError ProviderData :=
  match tryEach (fun attempt => fetchProviderData (webs attempt) config) 1
      (List.range' 2 (initialFetchAttempts - 1)) with
  | .ok data => .ok data
  | .error cause => .error (.initializing config.issuer cause)

def OidcProviderConfig.provider (config : OidcProviderConfig) : OidcProvider :=
  ⟨config.issuer, config.rules, config.jwksRefreshSeconds.toNat⟩

structure StartedProvider where
  config : OidcProviderConfig
  algorithms : List SigningAlgorithm
  jwksUri : String
  set : List Jwk
  deriving DecidableEq, Repr

def StartedProvider.verifier (started : StartedProvider) : Verifier :=
  ⟨started.config.provider, started.algorithms⟩

/-- What a provider finds as it starts: whether there is a client, and what is served. -/
structure Surroundings where
  client : Bool
  webs : Nat → Web

/-- `OidcProvider::new` -/
def StartedProvider.new (around : Surroundings) (config : OidcProviderConfig) :
    Except StartError StartedProvider := do
  validateProviderConfig config
  if !around.client then throw .noClient
  let data ← fetchInitialProviderData around.webs config
  match configuredAlgorithms config.algorithms data.advertised with
  | .error cause => throw (.algorithms cause)
  | .ok algorithms => return ⟨config, algorithms, data.jwksUri, data.set⟩

def startProviders (around : String → Surroundings) :
    List OidcProviderConfig → List String → Except StartError (List StartedProvider)
  | [], _ => .ok []
  | config :: rest, issuers => do
      if issuers.contains config.issuer then throw (.repeatedIssuer config.issuer)
      let started ← StartedProvider.new (around config.issuer) config
      return started :: (← startProviders around rest (config.issuer :: issuers))

/-- A provider needs an issuer, audiences and rules, and every rule a claim. -/
structure OidcProviderConfig.Complete (config : OidcProviderConfig) : Prop where
  issuer : config.issuer ≠ ""
  audiences : config.audiences ≠ []
  rules : config.rules ≠ []
  refresh : config.jwksRefreshSeconds ≠ 0
  claims : ∀ rule ∈ config.rules, rule.claims ≠ []

theorem validateProviderConfig_iff (config : OidcProviderConfig) :
    validateProviderConfig config = .ok () ↔ config.Complete := by
  unfold validateProviderConfig
  constructor
  · intro checked
    split at checked
    · cases checked
    rename_i whole
    split at checked
    · cases checked
    rename_i refresh
    split at checked
    · cases checked
    rename_i claims
    simp only [Bool.or_eq_true, List.isEmpty_iff, not_or, String.isEmpty_iff] at whole
    refine ⟨whole.1.1, whole.1.2, whole.2, by simpa using refresh,
      fun rule member empty => claims ?_⟩
    exact List.any_eq_true.mpr ⟨rule, member, List.isEmpty_iff.mpr empty⟩
  · rintro ⟨issuer, audiences, rules, refresh, claims⟩
    have claimed : ¬ (config.rules.any fun rule => rule.claims.isEmpty) = true := by
      intro found
      obtain ⟨rule, member, empty⟩ := List.any_eq_true.mp found
      exact claims rule member (List.isEmpty_iff.mp empty)
    simp [issuer, audiences, rules, refresh, claimed]

/-- What is served for a provider: keys at the address it is configured with, or at one that a
document about its own issuer names. -/
inductive Web.Offers (web : Web) (config : OidcProviderConfig) : ProviderData → Prop
  | configured (uri : String) (set : List Jwk) (given : config.jwksUri = some uri)
      (served : web.keySets uri = some set) : Offers web config ⟨uri, [], set⟩
  | discovered (document : DiscoveryDocument) (set : List Jwk) (absent : config.jwksUri = none)
      (found : web.documents config.discoveryAddress = some document)
      (own : document.issuer = config.issuer) (served : web.keySets document.jwksUri = some set) :
      Offers web config ⟨document.jwksUri, document.idTokenSigningAlgValuesSupported, set⟩

theorem fetchJwks_iff {web : Web} {config : OidcProviderConfig} {uri : String}
    {advertised : List String} {data : ProviderData} :
    fetchJwks web config uri advertised = .ok data ↔
      ∃ set, web.keySets uri = some set ∧ data = ⟨uri, advertised, set⟩ := by
  unfold fetchJwks
  cases served : web.keySets uri with
  | none => simp
  | some set => simp [eq_comm]

theorem fetchProviderData_iff {web : Web} {config : OidcProviderConfig} {data : ProviderData} :
    fetchProviderData web config = .ok data ↔ web.Offers config data := by
  unfold fetchProviderData
  constructor
  · intro fetched
    cases given : config.jwksUri with
    | some uri =>
        rw [given] at fetched
        obtain ⟨set, served, rfl⟩ := fetchJwks_iff.mp fetched
        exact .configured uri set given served
    | none =>
        rw [given] at fetched
        cases found : web.documents config.discoveryAddress with
        | none =>
            rw [found] at fetched
            cases fetched
        | some document =>
            rw [found] at fetched
            simp only at fetched
            split at fetched
            · cases fetched
            rename_i own
            obtain ⟨set, served, rfl⟩ := fetchJwks_iff.mp fetched
            exact .discovered document set given found (not_not.mp own) served
  · rintro (⟨uri, set, given, served⟩ | ⟨document, set, given, found, own, served⟩)
    · rw [given]
      exact fetchJwks_iff.mpr ⟨set, served, rfl⟩
    · rw [given]
      simp only [found, own, ne_eq, not_true, if_false]
      exact fetchJwks_iff.mpr ⟨set, served, rfl⟩

theorem tryEach_iff {α β ε : Type} {attempt : α → Except ε β} {first : α} {rest : List α}
    {value : β} : tryEach attempt first rest = .ok value ↔
      ∃ front made back, first :: rest = front ++ made :: back ∧ attempt made = .ok value ∧
        ∀ earlier ∈ front, ∃ cause, attempt earlier = .error cause := by
  induction rest generalizing first with
  | nil =>
      constructor
      · exact fun made => ⟨[], first, [], rfl, made, fun _ none => absurd none List.not_mem_nil⟩
      · rintro ⟨front, made, back, split, tried, -⟩
        cases front with
        | nil =>
            cases split
            exact tried
        | cons head front =>
            have lengths := congrArg List.length split
            simp at lengths
  | cons next rest ih =>
      simp only [tryEach]
      constructor
      · intro found
        cases tried : attempt first with
        | ok known =>
            rw [tried] at found
            cases found
            exact ⟨[], first, next :: rest, rfl, tried,
              fun _ none => absurd none List.not_mem_nil⟩
        | error cause =>
            rw [tried] at found
            obtain ⟨front, made, back, split, succeeds, failed⟩ := ih.mp found
            refine ⟨first :: front, made, back, by rw [split]; rfl, succeeds, ?_⟩
            intro earlier member
            rcases List.mem_cons.mp member with rfl | later
            · exact ⟨cause, tried⟩
            · exact failed earlier later
      · rintro ⟨front, made, back, split, succeeds, failed⟩
        cases front with
        | nil =>
            cases split
            rw [succeeds]
        | cons head front =>
            obtain ⟨rfl, later⟩ : first = head ∧ next :: rest = front ++ made :: back :=
              List.cons.inj split
            obtain ⟨cause, tried⟩ := failed first List.mem_cons_self
            rw [tried]
            exact ih.mpr ⟨front, made, back, later, succeeds,
              fun earlier member => failed earlier (List.mem_cons_of_mem _ member)⟩

def Surroundings.Found (around : Surroundings) (config : OidcProviderConfig)
    (data : ProviderData) : Prop :=
  ∃ attempt, 1 ≤ attempt ∧ attempt ≤ initialFetchAttempts ∧
    (around.webs attempt).Offers config data ∧ ∀ earlier, 1 ≤ earlier → earlier < attempt → ∀ other,
      ¬ (around.webs earlier).Offers config other

theorem fetchInitialProviderData_iff {around : Surroundings} {config : OidcProviderConfig}
    {data : ProviderData} :
    fetchInitialProviderData around.webs config = .ok data ↔ around.Found config data := by
  have decides : fetchInitialProviderData around.webs config = .ok data ↔
      tryEach (fun attempt => fetchProviderData (around.webs attempt) config) 1
        (List.range' 2 (initialFetchAttempts - 1)) = .ok data := by
    unfold fetchInitialProviderData
    generalize tryEach _ 1 _ = tried
    cases tried <;> simp
  have fails (attempt : Nat) : (∃ cause, fetchProviderData (around.webs attempt) config =
      .error cause) ↔ ∀ other, ¬ (around.webs attempt).Offers config other := by
    constructor
    · rintro ⟨cause, failed⟩ other offers
      rw [fetchProviderData_iff.mpr offers] at failed
      cases failed
    · intro nothing
      cases fetched : fetchProviderData (around.webs attempt) config with
      | ok other => exact absurd (fetchProviderData_iff.mp fetched) (nothing other)
      | error cause => exact ⟨cause, rfl⟩
  have numbers : 1 :: List.range' 2 (initialFetchAttempts - 1) =
      List.range' 1 initialFetchAttempts := rfl
  rw [decides, tryEach_iff, numbers]
  constructor
  · rintro ⟨front, attempt, back, split, fetched, failed⟩
    obtain ⟨count, few, rfl, rest⟩ := List.range'_eq_append_iff.mp split
    obtain ⟨rfl, some, -⟩ := List.range'_eq_cons_iff.mp rest.symm
    rw [Nat.mul_one] at fetched
    refine ⟨1 + count, by omega, by omega, fetchProviderData_iff.mp fetched, ?_⟩
    intro earlier one before
    exact (fails earlier).mp (failed earlier (List.mem_range'_1.mpr ⟨one, before⟩))
  · rintro ⟨attempt, one, few, offers, nothing⟩
    refine ⟨List.range' 1 (attempt - 1), attempt,
      List.range' (attempt + 1) (initialFetchAttempts - attempt), ?_,
      fetchProviderData_iff.mpr offers, fun earlier member => ?_⟩
    · refine List.range'_eq_append_iff.mpr ⟨attempt - 1, by omega, rfl, ?_⟩
      refine (List.range'_eq_cons_iff.mpr ⟨by omega, by omega, ?_⟩).symm
      congr 1
      omega
    · obtain ⟨least, before⟩ := List.mem_range'_1.mp member
      exact (fails earlier).mpr (nothing earlier least (by omega))

structure Starts (around : Surroundings) (config : OidcProviderConfig)
    (started : StartedProvider) : Prop where
  complete : config.Complete
  client : around.client = true
  same : started.config = config
  found : ∃ advertised, around.Found config ⟨started.jwksUri, advertised, started.set⟩ ∧
    configuredAlgorithms config.algorithms advertised = .ok started.algorithms

theorem StartedProvider.new_iff {around : Surroundings} {config : OidcProviderConfig}
    {started : StartedProvider} :
    StartedProvider.new around config = .ok started ↔ Starts around config started := by
  unfold StartedProvider.new
  constructor
  · intro made
    cases checked : validateProviderConfig config with
    | error cause =>
        rw [checked] at made
        cases made
    | ok done =>
        rw [checked] at made
        cases client : around.client with
        | false =>
            rw [client] at made
            cases made
        | true =>
            cases fetched : fetchInitialProviderData around.webs config with
            | error cause =>
                rw [client, fetched] at made
                cases made
            | ok data =>
                cases agreed : configuredAlgorithms config.algorithms data.advertised with
                | error cause =>
                    simp only [client, fetched, bind, Except.bind, Bool.not_true,
                      Bool.false_eq_true, if_false, agreed] at made
                    cases made
                | ok algorithms =>
                    simp only [client, fetched, bind, Except.bind, Bool.not_true,
                      Bool.false_eq_true, if_false, pure, Except.pure, agreed] at made
                    cases made
                    exact ⟨(validateProviderConfig_iff config).mp checked, client, rfl,
                      data.advertised, fetchInitialProviderData_iff.mp fetched, agreed⟩
  · rintro ⟨complete, client, same, advertised, found, agreed⟩
    obtain ⟨config, algorithms, uri, set⟩ := started
    cases same
    simp only [(validateProviderConfig_iff config).mpr complete, client,
      fetchInitialProviderData_iff.mpr found, bind, Except.bind, Bool.not_true, Bool.false_eq_true,
      if_false, pure, Except.pure, agreed]

theorem startProviders_iff {around : String → Surroundings} {configs : List OidcProviderConfig}
    {issuers : List String} {providers : List StartedProvider} :
    startProviders around configs issuers = .ok providers ↔
      (configs.map OidcProviderConfig.issuer).Nodup ∧
        (∀ config ∈ configs, config.issuer ∉ issuers) ∧
        List.Forall₂ (fun config started => Starts (around config.issuer) config started) configs
          providers := by
  induction configs generalizing issuers providers with
  | nil => simp [startProviders, eq_comm]
  | cons config rest ih =>
      simp only [startProviders, bind, Except.bind]
      by_cases repeated : config.issuer ∈ issuers
      · rw [if_pos (List.contains_iff_mem.mpr repeated)]
        refine iff_of_false (fun wrong => by cases wrong) ?_
        rintro ⟨-, fresh, -⟩
        exact fresh config List.mem_cons_self repeated
      · rw [if_neg (fun found => repeated (List.contains_iff_mem.mp found))]
        simp only [pure, Except.pure]
        constructor
        · intro made
          cases first : StartedProvider.new (around config.issuer) config with
          | error cause =>
              rw [first] at made
              cases made
          | ok started =>
              rw [first] at made
              cases others : startProviders around rest (config.issuer :: issuers) with
              | error cause =>
                  simp only [others] at made
                  cases made
              | ok more =>
                  simp only [others] at made
                  cases made
                  obtain ⟨distinct, fresh, start⟩ := ih.mp others
                  refine ⟨?_, ?_, .cons (StartedProvider.new_iff.mp first) start⟩
                  · rw [List.map_cons, List.nodup_cons]
                    refine ⟨fun member => ?_, distinct⟩
                    obtain ⟨other, among, same⟩ := List.mem_map.mp member
                    exact fresh other among (same ▸ List.mem_cons_self)
                  · intro other member
                    rcases List.mem_cons.mp member with rfl | later
                    · exact repeated
                    · exact fun known => fresh other later (List.mem_cons_of_mem _ known)
        · rintro ⟨distinct, fresh, starts⟩
          rw [List.map_cons, List.nodup_cons] at distinct
          cases starts with
          | @cons _ started _ more start others =>
              have remaining :
                  startProviders around rest (config.issuer :: issuers) = .ok more := by
                refine ih.mpr ⟨distinct.2, fun other member known => ?_, others⟩
                rcases List.mem_cons.mp known with same | known
                · exact distinct.1 (same ▸ List.mem_map_of_mem member)
                · exact fresh other (List.mem_cons_of_mem _ member) known
              rw [StartedProvider.new_iff.mpr start]
              simp only [remaining]

theorem started_issuers {around : String → Surroundings} {configs : List OidcProviderConfig}
    {providers : List StartedProvider}
    (starts : List.Forall₂ (fun config started => Starts (around config.issuer) config started)
      configs providers) :
    providers.map StartedProvider.config = configs := by
  induction starts with
  | nil => rfl
  | cons start _ ih => rw [List.map_cons, start.same, ih]

structure StartedAuthorizer where
  authorizer : Authorizer
  providers : List StartedProvider
  known : authorizer.oidc = providers.map fun started => started.config.provider

/-- `Authorizer::new` -/
def StartedAuthorizer.new (reader : OptionReader) (around : String → Surroundings)
    (options : AuthOptions) : Except StartError StartedAuthorizer := do
  let grants ← parseJsonArray reader.grants options.tokensJson "token grants"
  let configs ← parseJsonArray reader.providers options.oidcProvidersJson "OIDC providers"
  let patterns ← parseJsonArray reader.patterns options.anonymousReadNamespacesJson
    "anonymous read namespace patterns"
  match made : startProviders around configs [] with
  | .error cause => throw cause
  | .ok providers =>
      return {
        authorizer := {
          grants
          oidc := providers.map fun started => started.config.provider
          allowAnonymous := options.allowAnonymous
          anonymousReadNamespaces := patterns
          distinct := by
            obtain ⟨distinct, -, starts⟩ := startProviders_iff.mp made
            rw [← started_issuers starts] at distinct
            rw [List.map_map] at distinct ⊢
            exact distinct }
        providers
        known := rfl }

section Starting
variable {reader : OptionReader} {around : String → Surroundings} {options : AuthOptions}

/-- What an authorizer is started with. -/
theorem StartedAuthorizer.new_iff {started : StartedAuthorizer} :
    StartedAuthorizer.new reader around options = .ok started ↔
      parseJsonArray reader.grants options.tokensJson "token grants" =
          .ok started.authorizer.grants ∧
        parseJsonArray reader.patterns options.anonymousReadNamespacesJson
          "anonymous read namespace patterns" = .ok started.authorizer.anonymousReadNamespaces ∧
        started.authorizer.allowAnonymous = options.allowAnonymous ∧
        ∃ configs, parseJsonArray reader.providers options.oidcProvidersJson "OIDC providers" =
            .ok configs ∧
          startProviders around configs [] = .ok started.providers := by
  simp only [StartedAuthorizer.new, bind, Except.bind]
  cases parsed : parseJsonArray reader.grants options.tokensJson "token grants" with
  | error cause => simp
  | ok grants =>
      cases listed : parseJsonArray reader.providers options.oidcProvidersJson "OIDC providers" with
      | error cause => simp
      | ok configs =>
          cases covered : parseJsonArray reader.patterns options.anonymousReadNamespacesJson
            "anonymous read namespace patterns" with
          | error cause => simp
          | ok patterns =>
              simp only
              obtain ⟨⟨grants', oidc, allowed, patterns', distinct⟩, providers, known⟩ := started
              split
              next cause failed =>
                refine iff_of_false (fun wrong => by cases wrong) ?_
                rintro ⟨-, -, -, others, same, made⟩
                cases same
                rw [failed] at made
                cases made
              next others made =>
                constructor
                · intro built
                  cases built
                  exact ⟨rfl, rfl, rfl, configs, rfl, made⟩
                · rintro ⟨one, two, three, others', same, made'⟩
                  cases one
                  cases two
                  cases three
                  cases same
                  obtain rfl := Except.ok.inj (made.symm.trans made')
                  cases known
                  rfl

/-- A provider can be started: its configuration is complete, one of the attempts finds its keys,
and its configuration, its discovery document and the server agree on an algorithm. -/
structure OidcProviderConfig.Startable (config : OidcProviderConfig) (around : Surroundings) :
    Prop where
  complete : config.Complete
  client : around.client = true
  named : ∀ name ∈ config.algorithms, SigningAlgorithm.fromStr name ≠ none
  agreed : ∃ data, around.Found config data ∧
    ∃ algorithm, Agreed config.algorithms data.advertised algorithm

theorem startable_iff (config : OidcProviderConfig) (around : Surroundings) :
    (∃ started, Starts around config started) ↔ config.Startable around := by
  constructor
  · rintro ⟨started, complete, client, same, advertised, found, permitted⟩
    have sound := (configuredAlgorithms_fails config.algorithms advertised).not.mp
      fun ⟨cause, failed⟩ => by
        rw [permitted] at failed
        cases failed
    simp only [not_or, not_exists, not_and, not_forall, not_not] at sound
    exact ⟨complete, client, sound.1, _, found, sound.2⟩
  · rintro ⟨complete, client, named, data, found, algorithm, agreed⟩
    cases permitted : configuredAlgorithms config.algorithms data.advertised with
    | ok algorithms =>
        exact ⟨⟨config, algorithms, data.jwksUri, data.set⟩, complete, client, rfl,
          data.advertised, found, permitted⟩
    | error cause =>
        rcases (configuredAlgorithms_fails _ _).mp ⟨cause, permitted⟩ with
          ⟨name, member, unknown⟩ | none
        · exact absurd unknown (named name member)
        · exact absurd agreed (none algorithm)

theorem parseJsonArray_ok {α : Type} (parse : String → Option (List α)) (json : Option String)
    (label : String) : (∃ values, parseJsonArray parse json label = .ok values) ↔
      ∀ text, json = some text → (parse text).isSome := by
  unfold parseJsonArray
  cases json with
  | none => simp
  | some text => cases parsed : parse text <;> simp [parsed]

theorem all_start_iff (configs : List OidcProviderConfig) :
    (∃ providers, List.Forall₂ (fun config started => Starts (around config.issuer) config started)
      configs providers) ↔ ∀ config ∈ configs, config.Startable (around config.issuer) := by
  induction configs with
  | nil => exact ⟨fun _ _ none => absurd none List.not_mem_nil, fun _ => ⟨[], .nil⟩⟩
  | cons config rest ih =>
      rw [List.forall_mem_cons, ← ih, ← startable_iff]
      constructor
      · rintro ⟨providers, starts⟩
        cases starts with
        | cons start others => exact ⟨⟨_, start⟩, _, others⟩
      · rintro ⟨⟨started, start⟩, providers, others⟩
        exact ⟨started :: providers, .cons start others⟩

/-- The server starts exactly when its options can be read, no issuer is configured twice, and all
providers can be started. -/
theorem starts_exactly_when (reader : OptionReader) (around : String → Surroundings)
    (options : AuthOptions) :
    (∃ started, StartedAuthorizer.new reader around options = .ok started) ↔
      (∀ text, options.tokensJson = some text → (reader.grants text).isSome) ∧
        (∀ text, options.anonymousReadNamespacesJson = some text →
          (reader.patterns text).isSome) ∧
        ∃ configs, parseJsonArray reader.providers options.oidcProvidersJson "OIDC providers" =
            .ok configs ∧
          (configs.map OidcProviderConfig.issuer).Nodup ∧
          ∀ config ∈ configs, config.Startable (around config.issuer) := by
  rw [← parseJsonArray_ok reader.grants _ "token grants", ← parseJsonArray_ok reader.patterns _
    "anonymous read namespace patterns"]
  constructor
  · rintro ⟨started, made⟩
    obtain ⟨grants, patterns, -, configs, parsed, starts⟩ := StartedAuthorizer.new_iff.mp made
    obtain ⟨distinct, -, all⟩ := startProviders_iff.mp starts
    exact ⟨⟨_, grants⟩, ⟨_, patterns⟩, configs, parsed, distinct,
      (all_start_iff configs).mp ⟨_, all⟩⟩
  · rintro ⟨⟨grants, one⟩, ⟨patterns, other⟩, configs, parsed, distinct, startable⟩
    obtain ⟨providers, all⟩ := (all_start_iff configs).mpr startable
    have issuers : (configs.map OidcProviderConfig.issuer) =
        (providers.map fun started => started.config.provider).map OidcProvider.issuer := by
      rw [← started_issuers all, List.map_map, List.map_map]
      rfl
    have made : startProviders around configs [] = .ok providers :=
      startProviders_iff.mpr ⟨distinct, fun _ _ => List.not_mem_nil, all⟩
    exact ⟨⟨⟨grants, _, options.allowAnonymous, patterns, issuers ▸ distinct⟩, providers, rfl⟩,
      StartedAuthorizer.new_iff.mpr ⟨one, other, rfl, configs, parsed, made⟩⟩

end Starting
end MbxCache
