import MbxCache.Auth.Namespace
import MbxCache.Server.Http

/-! Which requests may read or write which namespace (`auth.rs`). -/

namespace MbxCache

namespace Json

/-- `Value::get` with a key: only an object has fields. -/
def get (value : Json) (name : String) : Option Json :=
  value.asObject.bind fun fields => fields.lookup name

/-- A float zero without its sign. -/
def unsignedZero : Json → Json
  | .number text => .number (if text = "-0.0" then "0.0" else text)
  | value => value

end Json

/-- `==` on numbers that are no `u64`. Floats are written with the fewest digits that read
back to them, so only the two zeros are equal under different texts. -/
def numberEq (one other : String) : Bool :=
  one == other || (["0.0", "-0.0"].contains one && ["0.0", "-0.0"].contains other)

theorem numberEq_iff (one other : String) :
    numberEq one other = true ↔
      (Json.number one).unsignedZero = (Json.number other).unsignedZero := by
  simp only [numberEq, Json.unsignedZero, Bool.or_eq_true, Bool.and_eq_true, beq_iff_eq,
    List.contains_cons, List.contains_nil, Bool.or_false, Json.number.injEq]
  by_cases first : one = "-0.0" <;> by_cases second : other = "-0.0"
  · simp [first, second]
  · simp [first, second, eq_comm]
  · simp [first, second]
  · simp only [first, second, if_false, or_false]
    constructor
    · rintro (same | ⟨rfl, rfl⟩)
      · exact same
      · rfl
    · exact .inl

inductive ScalarValue
  | string (value : String)
  /-- A number that is an unsigned integer. -/
  | unsigned (value : UInt64)
  | number (text : String)
  | bool (value : Bool)
  deriving DecidableEq, Repr

namespace ScalarValue

def asJson : ScalarValue → Json
  | .string value => .string value
  | .unsigned value => .unsigned value
  | .number text => .number text
  | .bool value => .bool value

/-- `ScalarValue::matches` -/
def matchesJson : ScalarValue → Json → Bool
  | .string expected, .string actual => expected == actual
  | .unsigned expected, .unsigned actual => expected == actual
  | .number expected, .number actual => numberEq expected actual
  | .bool expected, .bool actual => expected == actual
  | _, _ => false

theorem matchesJson_iff (expected : ScalarValue) (actual : Json) :
    expected.matchesJson actual = true ↔ expected.asJson.unsignedZero = actual.unsignedZero := by
  cases expected with
  | number text =>
      cases actual with
      | number found => exact numberEq_iff text found
      | _ => simp [matchesJson, asJson, Json.unsignedZero]
  | _ => cases actual <;> simp [matchesJson, asJson, Json.unsignedZero]

example : (ScalarValue.number "0.0").matchesJson (.number "-0.0") = true := by decide

end ScalarValue

inductive ClaimRequirement
  | one (value : ScalarValue)
  | any (values : List ScalarValue)
  deriving DecidableEq, Repr

namespace ClaimRequirement

def expected : ClaimRequirement → List ScalarValue
  | .one value => [value]
  | .any values => values

/-- `ClaimRequirement::matches` -/
def matchesJson (requirement : ClaimRequirement) : Json → Bool
  | .array values =>
      values.any fun actual => requirement.expected.any fun value => value.matchesJson actual
  | actual => requirement.expected.any fun value => value.matchesJson actual

def offered : Json → List Json
  | .array values => values
  | actual => [actual]

/-- Some accepted value is among those the claim offers, zeros of either sign being one. -/
def Met (requirement : ClaimRequirement) (actual : Json) : Prop :=
  ∃ value ∈ requirement.expected, ∃ found ∈ offered actual,
    value.asJson.unsignedZero = found.unsignedZero

theorem matchesJson_iff (requirement : ClaimRequirement) (actual : Json) :
    requirement.matchesJson actual = true ↔ requirement.Met actual := by
  have scalar : ∀ found : Json,
      (requirement.expected.any fun value => value.matchesJson found) = true ↔
        ∃ value ∈ requirement.expected, value.asJson.unsignedZero = found.unsignedZero := by
    intro found
    simp only [List.any_eq_true, ScalarValue.matchesJson_iff]
  cases actual with
  | array values =>
      simp only [matchesJson, List.any_eq_true (l := values), scalar, Met, offered]
      constructor
      · rintro ⟨found, member, value, accepted, same⟩
        exact ⟨value, accepted, found, member, same⟩
      · rintro ⟨value, accepted, found, member, same⟩
        exact ⟨found, member, value, accepted, same⟩
  | _ => simp only [matchesJson, scalar, Met, offered, List.mem_singleton, exists_eq_left]

end ClaimRequirement

structure TokenGrant where
  token : String
  read : List String
  write : List String
  deriving DecidableEq, Repr

structure OidcRule where
  claims : StringMap ClaimRequirement
  read : List String
  write : List String
  deriving DecidableEq, Repr

structure OidcProvider where
  issuer : String
  rules : List OidcRule
  jwksRefreshSeconds : Nat
  deriving DecidableEq, Repr

/-- `patterns` -/
def TokenGrant.patterns (grant : TokenGrant) : Access → List String
  | .read => grant.read
  | .write => grant.write

def OidcRule.patterns (rule : OidcRule) : Access → List String
  | .read => rule.read
  | .write => rule.write

def OidcRule.matchesClaims (rule : OidcRule) (claims : Json) : Bool :=
  rule.claims.all fun (name, requirement) =>
    match claims.get name with
    | some actual => requirement.matchesJson actual
    | none => false

/-- `constant_time_eq`: lengths may leak, contents may not. -/
def constantTimeEq (left right : Bytes) : Bool :=
  left.length == right.length &&
    (List.zipWith (· ^^^ ·) left right).foldl (· ||| ·) (0 : UInt8) == 0

/-- `new` refuses to configure an issuer twice. -/
structure Authorizer where
  grants : List TokenGrant
  oidc : List OidcProvider
  allowAnonymous : Bool
  anonymousReadNamespaces : List String
  distinct : (oidc.map OidcProvider.issuer).Nodup

structure AuthHeaders where
  protocol : Option String
  ns : Option String
  authorization : Option String
  deriving DecidableEq, Repr

structure TokenReader where
  /-- `URL_SAFE_NO_PAD.decode` -/
  decodeSegment : List Char → Option Bytes
  /-- The claims of a token that a provider verifies at this moment. -/
  verify : OidcProvider → String → Option Json

def unverifiedIssuer [Protocol] (reader : TokenReader) (token : String) : Option String :=
  match splitOn '.' token.toList with
  | [_, payload, _] =>
      ((reader.decodeSegment payload).bind Protocol.parseValue).bind fun claims =>
        (claims.get "iss").bind Json.asStr
  | _ => none

def authorizePatterns (patterns : List String) (ns : String) : Except ApiError String :=
  if patterns.any fun pattern => matchesNamespace pattern ns then .ok ns
  else .error (.forbidden "token is not authorized for this namespace")

namespace Authorizer

variable [Protocol]

def authorizeIdentity (authorizer : Authorizer) (reader : TokenReader) (token ns : String)
    (access : Access) : Except ApiError String :=
  match unverifiedIssuer reader token with
  | none => .error (.unauthorized "invalid bearer token")
  | some issuer =>
      match authorizer.oidc.find? fun provider => provider.issuer == issuer with
      | none => .error (.unauthorized "invalid bearer token")
      | some provider =>
          match reader.verify provider token with
          | none => .error (.unauthorized "invalid bearer token")
          | some claims =>
              if provider.rules.any fun rule => rule.matchesClaims claims &&
                  (rule.patterns access).any fun pattern => matchesNamespace pattern ns then
                .ok ns
              else .error (.forbidden "identity is not authorized for this namespace")

def authorizeBearer (authorizer : Authorizer) (reader : TokenReader) (headers : AuthHeaders)
    (ns : String) (access : Access) : Except ApiError String :=
  match headers.authorization.bind fun value =>
      (stripPrefix "Bearer ".toList value.toList).map String.ofList with
  | none => .error (.unauthorized "a bearer token is required")
  | some token =>
      match authorizer.grants.find? fun grant =>
          constantTimeEq (asBytes grant.token) (asBytes token) with
      | some grant => authorizePatterns (grant.patterns access) ns
      | none => authorizer.authorizeIdentity reader token ns access

def authorize (authorizer : Authorizer) (reader : TokenReader) (headers : AuthHeaders)
    (access : Access) : Except ApiError String :=
  if headers.protocol ≠ some "1" then .error .upgradeRequired
  else
    match headers.ns.filter validNamespace with
    | none => .error (.badRequest "a valid Mbx-Cache-Namespace header is required")
    | some ns =>
        if authorizer.allowAnonymous && authorizer.grants.isEmpty && authorizer.oidc.isEmpty then
          .ok ns
        else if access == .read &&
            authorizer.anonymousReadNamespaces.any fun pattern => matchesNamespace pattern ns then
          .ok ns
        else authorizer.authorizeBearer reader headers ns access

end Authorizer

theorem foldl_or_zero (diffs : List UInt8) (start : UInt8) :
    diffs.foldl (· ||| ·) start = 0 ↔ start = 0 ∧ ∀ diff ∈ diffs, diff = 0 := by
  induction diffs generalizing start with
  | nil => simp
  | cons diff rest ih =>
      have both : start ||| diff = 0 ↔ start = 0 ∧ diff = 0 := UInt8.or_eq_zero_iff
      rw [List.foldl_cons, ih, both, List.forall_mem_cons, and_assoc]

theorem constantTimeEq_iff (left right : Bytes) :
    constantTimeEq left right = true ↔ left = right := by
  simp only [constantTimeEq, Bool.and_eq_true, beq_iff_eq, foldl_or_zero, true_and]
  induction left generalizing right with
  | nil => cases right <;> simp
  | cons first rest ih =>
      cases right with
      | nil => simp
      | cons other others =>
          have both : first ^^^ other = 0 ↔ first = other := UInt8.xor_eq_zero_iff
          simp only [List.length_cons, Nat.add_right_cancel_iff, List.zipWith_cons_cons,
            List.forall_mem_cons, both, List.cons.injEq, ← ih]
          tauto

def OidcRule.Met (rule : OidcRule) (claims : Json) : Prop :=
  ∀ name requirement, (name, requirement) ∈ rule.claims →
    ∃ actual, claims.get name = some actual ∧ requirement.Met actual

theorem OidcRule.matchesClaims_iff (rule : OidcRule) (claims : Json) :
    rule.matchesClaims claims = true ↔ rule.Met claims := by
  simp only [matchesClaims, List.all_eq_true, Prod.forall, Met]
  apply forall_congr'
  intro name
  apply forall_congr'
  intro requirement
  apply imp_congr_right
  intro _
  cases claims.get name with
  | none => simp
  | some actual => simp [ClaimRequirement.matchesJson_iff]

def CoveredBy (patterns : List String) (ns : String) : Prop :=
  ∃ pattern ∈ patterns, Covers pattern ns

theorem any_matchesNamespace {ns : String} (valid : IsNamespace ns) (patterns : List String) :
    (patterns.any fun pattern => matchesNamespace pattern ns) = true ↔ CoveredBy patterns ns := by
  simp only [List.any_eq_true, matchesNamespace_iff valid, CoveredBy]

theorem OidcProvider.any_rule {ns : String} (provider : OidcProvider) (claims : Json)
    (access : Access) (valid : IsNamespace ns) :
    (provider.rules.any fun rule => rule.matchesClaims claims &&
      (rule.patterns access).any fun pattern => matchesNamespace pattern ns) = true ↔
      ∃ rule ∈ provider.rules, rule.Met claims ∧ CoveredBy (rule.patterns access) ns := by
  rw [List.any_eq_true]
  simp only [Bool.and_eq_true, any_matchesNamespace valid, OidcRule.matchesClaims_iff]

namespace Authorizer

def Open (authorizer : Authorizer) : Prop :=
  authorizer.allowAnonymous = true ∧ authorizer.grants = [] ∧ authorizer.oidc = []

def FirstGrant (authorizer : Authorizer) (token : String) (grant : TokenGrant) : Prop :=
  grant.token = token ∧ ∃ front back, authorizer.grants = front ++ grant :: back ∧
    ∀ earlier ∈ front, earlier.token ≠ token

theorem find_provider {authorizer : Authorizer} {provider : OidcProvider}
    (member : provider ∈ authorizer.oidc) :
    authorizer.oidc.find? (fun other => other.issuer == provider.issuer) = some provider := by
  have distinct := authorizer.distinct
  revert member distinct
  induction authorizer.oidc with
  | nil => exact fun member => by cases member
  | cons first rest ih =>
      intro member distinct
      rw [List.map_cons, List.nodup_cons] at distinct
      rcases List.mem_cons.mp member with rfl | later
      · simp
      · have other : first.issuer ≠ provider.issuer := fun same =>
          distinct.1 (same ▸ List.mem_map_of_mem later)
        rw [List.find?_cons_of_neg (by simpa using other)]
        exact ih later distinct.2

theorem find_grant {authorizer : Authorizer} {token : String} {grant : TokenGrant} :
    authorizer.grants.find? (fun grant => constantTimeEq (asBytes grant.token) (asBytes token)) =
      some grant ↔ authorizer.FirstGrant token grant := by
  have equal : ∀ other : TokenGrant,
      constantTimeEq (asBytes other.token) (asBytes token) = true ↔ other.token = token :=
    fun other => (constantTimeEq_iff _ _).trans ⟨asBytes_injective, congrArg asBytes⟩
  rw [List.find?_eq_some_iff_append, FirstGrant, equal]
  apply and_congr_right
  intro _
  simp only [Bool.not_eq_true', ← Bool.not_eq_true, equal]

theorem find_no_grant {authorizer : Authorizer} {token : String} :
    authorizer.grants.find? (fun grant => constantTimeEq (asBytes grant.token) (asBytes token)) =
      none ↔ ∀ grant ∈ authorizer.grants, grant.token ≠ token := by
  have equal : ∀ other : TokenGrant,
      constantTimeEq (asBytes other.token) (asBytes token) = true ↔ other.token = token :=
    fun other => (constantTimeEq_iff _ _).trans ⟨asBytes_injective, congrArg asBytes⟩
  simp only [List.find?_eq_none, equal, ne_eq]

theorem FirstGrant.unique {authorizer : Authorizer} {token : String} {one other : TokenGrant}
    (first : authorizer.FirstGrant token one) (second : authorizer.FirstGrant token other) :
    one = other := by
  rw [← find_grant] at first second
  exact Option.some.inj (first.symm.trans second)

theorem FirstGrant.member {authorizer : Authorizer} {token : String} {grant : TokenGrant}
    (first : authorizer.FirstGrant token grant) : grant ∈ authorizer.grants :=
  List.mem_of_find?_eq_some (find_grant.mpr first)

theorem bearer_iff (headers : AuthHeaders) (token : String) :
    (headers.authorization.bind fun value =>
      (stripPrefix "Bearer ".toList value.toList).map String.ofList) = some token ↔
      headers.authorization = some ("Bearer " ++ token) := by
  cases headers.authorization with
  | none =>
      constructor
      · intro wrong
        cases wrong
      · intro wrong
        cases wrong
  | some value =>
      simp only [Option.bind_some, Option.map_eq_some_iff, stripPrefix_iff, Option.some.injEq]
      constructor
      · rintro ⟨rest, spelled, rfl⟩
        apply String.toList_injective
        simp [spelled]
      · rintro rfl
        exact ⟨token.toList, by simp, by simp⟩

variable [Protocol]

/-- The provider whose issuer the token names verifies it, and one of its rules is met
and grants the namespace. -/
def Identified (authorizer : Authorizer) (reader : TokenReader) (token ns : String)
    (access : Access) : Prop :=
  ∃ provider ∈ authorizer.oidc, ∃ claims, unverifiedIssuer reader token = some provider.issuer ∧
    reader.verify provider token = some claims ∧
    ∃ rule ∈ provider.rules, rule.Met claims ∧ CoveredBy (rule.patterns access) ns

theorem authorizeIdentity_iff {ns : String} (authorizer : Authorizer) (reader : TokenReader)
    (token : String) (access : Access) (valid : IsNamespace ns) (m : String) :
    authorizer.authorizeIdentity reader token ns access = .ok m ↔
      m = ns ∧ authorizer.Identified reader token ns access := by
  unfold authorizeIdentity Identified
  cases named : unverifiedIssuer reader token with
  | none => simp
  | some issuer =>
      simp only [Option.some.injEq]
      cases found : authorizer.oidc.find? fun provider => provider.issuer == issuer with
      | none =>
          refine iff_of_false (by simp) ?_
          rintro ⟨_, provider, member, claims, rfl, _⟩
          rw [find_provider member] at found
          cases found
      | some provider =>
          have member := List.mem_of_find?_eq_some found
          have same : provider.issuer = issuer := by simpa using List.find?_some found
          have only : ∀ other ∈ authorizer.oidc, issuer = other.issuer → other = provider := by
            rintro other known rfl
            rw [find_provider known] at found
            exact Option.some.inj found
          cases verified : reader.verify provider token with
          | none =>
              refine iff_of_false (by simp [verified]) ?_
              rintro ⟨_, other, known, claims, named, verified', _⟩
              rw [only other known named, verified] at verified'
              cases verified'
          | some claims =>
              simp only [verified]
              have granted := provider.any_rule claims access valid
              constructor
              · intro answered
                split at answered <;> cases answered
                rename_i allowed
                exact ⟨rfl, provider, member, claims, same.symm, verified, granted.mp allowed⟩
              · rintro ⟨rfl, other, known, claims', named, verified', allowed⟩
                obtain rfl := only other known named
                rw [verified] at verified'
                cases verified'
                rw [if_pos (granted.mpr allowed)]

/-- What a bearer token grants: the patterns of the first grant that has it, and only
without one what its issuer says. -/
def Grants (authorizer : Authorizer) (reader : TokenReader) (token ns : String)
    (access : Access) : Prop :=
  (∃ grant, authorizer.FirstGrant token grant ∧ CoveredBy (grant.patterns access) ns) ∨
    ((∀ grant ∈ authorizer.grants, grant.token ≠ token) ∧
      authorizer.Identified reader token ns access)

omit [Protocol] in
theorem authorizePatterns_iff {ns : String} (valid : IsNamespace ns) (patterns : List String)
    (m : String) : authorizePatterns patterns ns = .ok m ↔ m = ns ∧ CoveredBy patterns ns := by
  rw [authorizePatterns, ← any_matchesNamespace valid]
  split <;> rename_i covered
  · simp [covered, eq_comm]
  · simp [covered]

theorem authorizeBearer_iff {ns : String} (authorizer : Authorizer) (reader : TokenReader)
    (headers : AuthHeaders) (access : Access) (valid : IsNamespace ns) (m : String) :
    authorizer.authorizeBearer reader headers ns access = .ok m ↔
      m = ns ∧ ∃ token, headers.authorization = some ("Bearer " ++ token) ∧
        authorizer.Grants reader token ns access := by
  unfold authorizeBearer
  split
  · rename_i missing
    refine iff_of_false (by simp) ?_
    rintro ⟨_, token, given, _⟩
    rw [← bearer_iff, missing] at given
    cases given
  rename_i token given
  have sent := (bearer_iff headers token).mp given
  have only : ∀ other, headers.authorization = some ("Bearer " ++ other) → other = token := by
    intro other given'
    rw [← bearer_iff, given] at given'
    exact (Option.some.inj given').symm
  split
  · rename_i grant found
    have first := find_grant.mp found
    rw [authorizePatterns_iff valid]
    apply and_congr_right
    intro _
    constructor
    · exact fun covered => ⟨token, sent, .inl ⟨grant, first, covered⟩⟩
    · rintro ⟨other, given', granted⟩
      obtain rfl := only other given'
      rcases granted with ⟨same, first', covered⟩ | ⟨none, _⟩
      · rwa [first.unique first']
      · exact absurd first.1 (none grant first.member)
  · rename_i found
    have none := find_no_grant.mp found
    rw [authorizeIdentity_iff authorizer reader token access valid m]
    apply and_congr_right
    intro _
    constructor
    · exact fun identified => ⟨token, sent, .inr ⟨none, identified⟩⟩
    · rintro ⟨other, given', granted⟩
      obtain rfl := only other given'
      rcases granted with ⟨grant, first, _⟩ | ⟨_, identified⟩
      · exact absurd first.1 (none grant first.member)
      · exact identified

/-- What authorizes a request for a namespace. -/
def Admits (authorizer : Authorizer) (reader : TokenReader) (headers : AuthHeaders)
    (access : Access) (ns : String) : Prop :=
  authorizer.Open ∨
    (access = .read ∧ CoveredBy authorizer.anonymousReadNamespaces ns) ∨
    ∃ token, headers.authorization = some ("Bearer " ++ token) ∧
      authorizer.Grants reader token ns access

/-- Once the headers name a namespace, only what admits them to it decides. -/
theorem authorize_named {authorizer : Authorizer} {reader : TokenReader} {headers : AuthHeaders}
    {access : Access} {ns : String} (protocol : headers.protocol = some "1")
    (named : headers.ns = some ns) (valid : IsNamespace ns) (m : String) :
    authorizer.authorize reader headers access = .ok m ↔
      m = ns ∧ authorizer.Admits reader headers access ns := by
  have found : headers.ns.filter validNamespace = some ns :=
    Option.filter_eq_some_iff.mpr ⟨named, (validNamespace_iff ns).mpr valid⟩
  simp only [authorize, protocol, ne_eq, not_true, if_false, found]
  have answer : (Except.ok ns : Except ApiError String) = .ok m ↔ m = ns := by
    rw [Except.ok.injEq, eq_comm]
  split
  · rename_i unguarded
    simp only [Bool.and_eq_true, List.isEmpty_iff, and_assoc] at unguarded
    exact answer.trans (and_iff_left (.inl unguarded)).symm
  rename_i guarded
  split
  · rename_i anonymous
    simp only [Bool.and_eq_true, beq_iff_eq, any_matchesNamespace valid] at anonymous
    exact answer.trans (and_iff_left (.inr (.inl anonymous))).symm
  rename_i unlisted
  simp only [Bool.and_eq_true, List.isEmpty_iff, and_assoc] at guarded
  simp only [Bool.and_eq_true, beq_iff_eq, any_matchesNamespace valid] at unlisted
  rw [authorizeBearer_iff authorizer reader headers access valid]
  simp only [Admits, Open, guarded, unlisted, false_or]

/-- A request is authorized for exactly the namespace it names, and exactly when the
service is open, the namespace may be read anonymously, or its token grants it. What a
prefix pattern covers lies properly below the prefix. -/
theorem authorize_iff (authorizer : Authorizer) (reader : TokenReader) (headers : AuthHeaders)
    (access : Access) (m : String) :
    (authorizer.authorize reader headers access = .ok m ↔
      headers.protocol = some "1" ∧ headers.ns = some m ∧ IsNamespace m ∧
        authorizer.Admits reader headers access m) ∧
    (IsNamespace m → ∀ front rest, m = front ++ "/" ++ rest →
      front ≠ "" ∧ rest ≠ "" ∧
        splitOn '/' m.toList = splitOn '/' front.toList ++ splitOn '/' rest.toList) := by
  refine ⟨?_, fun valid front rest same => by subst same; exact valid.front⟩
  constructor
  · intro answered
    have whole := answered
    unfold authorize at answered
    split at answered
    · cases answered
    rename_i protocol
    rw [not_not] at protocol
    split at answered
    · cases answered
    rename_i ns found
    obtain ⟨named, valid⟩ := Option.filter_eq_some_iff.mp found
    rw [validNamespace_iff] at valid
    obtain ⟨rfl, admitted⟩ := (authorize_named protocol named valid m).mp whole
    exact ⟨protocol, named, valid, admitted⟩
  · rintro ⟨protocol, named, valid, admitted⟩
    exact (authorize_named protocol named valid m).mpr ⟨rfl, admitted⟩

end Authorizer
end MbxCache
