import Mathlib.Data.Set.Card
import MbxCache.Server.Integrity
import MbxCache.Server.ReadPaths

namespace MbxCache

open Concurrent

section keys
variable {Key Value : Type}

theorem nodup_filterMap {found : Key → Option Value} {key : Value → Key}
    (bound : ∀ k value, found k = some value → key value = k) {keys : List Key}
    (distinct : keys.Nodup) : ((keys.filterMap found).map key).Nodup := by
  induction keys with
  | nil => exact List.nodup_nil
  | cons k rest ih =>
      obtain ⟨fresh, others⟩ := List.nodup_cons.mp distinct
      cases held : found k with
      | none => simpa [held] using ih others
      | some value =>
          rw [List.filterMap_cons_some held, List.map_cons, List.nodup_cons]
          refine ⟨fun member => ?_, ih others⟩
          obtain ⟨other, listed, same⟩ := List.mem_map.mp member
          obtain ⟨k', member', held'⟩ := List.mem_filterMap.mp listed
          rw [bound k' other held', bound k value held] at same
          exact fresh (same ▸ member')

theorem find?_filterMap [DecidableEq Key] {found : Key → Option Value} {key : Value → Key}
    (bound : ∀ k value, found k = some value → key value = k) {keys : List Key} {k : Key}
    (member : k ∈ keys) : (keys.filterMap found).find? (fun value => key value = k) = found k := by
  induction keys with
  | nil => cases member
  | cons first rest ih =>
      cases held : found first with
      | none =>
          rw [List.filterMap_cons_none held]
          rcases List.mem_cons.mp member with rfl | later
          · rw [held, List.find?_eq_none]
            intro value listed
            obtain ⟨other, _, held'⟩ := List.mem_filterMap.mp listed
            simp only [bound other value held', decide_eq_true_eq]
            rintro rfl
            rw [held] at held'
            cases held'
          · exact ih later
      | some value =>
          rw [List.filterMap_cons_some held, List.find?_cons]
          by_cases same : k = first
          · simp [same, bound first value held, held]
          · have other : decide (key value = k) = false := by
              simpa [bound first value held] using Ne.symm same
            rw [other]
            exact ih ((List.mem_cons.mp member).resolve_left same)

theorem nodup_eraseDups [DecidableEq Key] (keys : List Key) : keys.eraseDups.Nodup := by
  generalize size : keys.length = count
  induction count using Nat.strong_induction_on generalizing keys with
  | _ count ih =>
      cases keys with
      | nil => exact List.nodup_nil
      | cons k rest =>
          have fewer := List.length_filter_le (fun other => !other == k) rest
          rw [List.length_cons] at size
          rw [List.eraseDups_cons, List.nodup_cons]
          exact ⟨by simp [List.mem_eraseDups], ih _ (by omega) _ rfl⟩

theorem filterMap_missed (found : Key → Option Value) (keys : List Key) :
    (keys.filterMap found).length + (keys.filter fun k => (found k).isNone).length =
      keys.length := by
  induction keys with
  | nil => rfl
  | cons k rest ih =>
      cases held : found k with
      | none =>
          simp only [List.filterMap_cons_none held, List.filter_cons, held, Option.isNone_none,
            if_true, List.length_cons]
          omega
      | some value =>
          simp only [List.filterMap_cons_some held, List.filter_cons, held, Option.isNone_some,
            Bool.false_eq_true, if_false, List.length_cons]
          omega

end keys

section Lookup
variable [Protocol] {M : Type} [MetadataStore M]

section Rules
variable {ns : String} {state : ServerState M}

theorem getResult_answers (valid : MetadataStore.valid state.metadata) {action : Digest}
    (named : MetadataStore.names M ns action = true) :
    (getResult ns action).Answers (fun result _ =>
      result = .ok (state.view.result ns action)) state := by
  apply Handler.Answers.ask (.getResult ns action)
  intro choice _
  refine ⟨state, state.view.result ns action, ?_, rfl⟩
  change state.look (MetadataStore.get state.metadata ns action) = _
  rw [MetadataStore.get_view valid named]
  rfl

theorem getBatch_answers (valid : MetadataStore.valid state.metadata) {actions : List Digest}
    (listed : MetadataStore.lists M ns actions = true) :
    (getBatch ns actions).Answers (fun result _ =>
      result = .ok (actions.filterMap (state.view.result ns))) state := by
  apply Handler.Answers.ask (.getBatch ns actions)
  intro choice _
  refine ⟨state, actions.filterMap (state.view.result ns), ?_, rfl⟩
  change state.look (MetadataStore.getBatch state.metadata ns actions) = _
  rw [MetadataStore.getBatch_view valid listed]
  rfl

end Rules

def resultAnswer : Option ActionResult → Except ApiError Response
  | some result => .ok ⟨.ok, [("content-type", "application/json")], .result result⟩
  | none => .error (.notFound "action result not found")

def batchAnswer (results : List ActionResult) : Except ApiError Response :=
  .ok ⟨.ok, [("content-type", "application/vnd.mbx.cache-action-result-batch.v1+json")],
    .results results⟩

omit [Protocol] in
theorem batchRequest_ok {digests : List Digest} (keys : ∀ digest ∈ digests, IsActionDigest digest)
    (requested : List Digest) :
    batchRequest digests requested =
      .ok (requested ++ (digests.filter fun digest => !requested.contains digest).eraseDups) := by
  induction digests generalizing requested with
  | nil => simp [batchRequest]
  | cons digest rest ih =>
      obtain ⟨key, others⟩ := List.forall_mem_cons.mp keys
      simp only [batchRequest, validateActionDigest_ok key, bind, Except.bind]
      cases known : requested.contains digest with
      | true =>
          have skipped : (!requested.contains digest) ≠ true := by rw [known]; decide
          rw [if_pos rfl, ih others requested, List.filter_cons, if_neg skipped]
      | false =>
          have taken : (!requested.contains digest) = true := by rw [known]; rfl
          have both : (rest.filter fun other => (!(other == digest)) && !requested.contains other)
              = rest.filter fun other => !(requested ++ [digest]).contains other := by
            apply List.filter_congr
            intro other _
            simp [Bool.and_comm, beq_eq_decide]
          rw [if_neg Bool.false_ne_true, ih others, List.filter_cons, if_pos taken,
            List.eraseDups_cons, List.filter_filter, both, List.append_assoc, List.singleton_append]

section lookups
variable {headers : Headers} {ns : String} {state : ServerState M}

theorem getActionResult_answers (authorized : headers.authorize .read = .ok ns)
    (valid : MetadataStore.valid state.metadata) {digest : Digest} (key : IsActionDigest digest) :
    (getActionResult headers (digest.algorithm, digest.hash, digest.size)).Answers
      (fun result _ => result = resultAnswer (state.view.result ns digest)) state := by
  rw [getActionResult, authorized, Handler.pureStep_ok, parseActionDigest_ok key,
    Handler.pureStep_ok]
  apply Handler.Answers.bind
    (getResult_answers valid (MetadataStore.names_valid (headers.named authorized) key.1))
  · intro error after wrong
    cases wrong
  · intro found after same
    cases same
    cases state.view.result ns digest with
    | none => exact Handler.Answers.refuse rfl
    | some result => exact Handler.Answers.pure rfl

theorem batchActionResults_answers (authorized : headers.authorize .read = .ok ns)
    (valid : MetadataStore.valid state.metadata) {digests : List Digest}
    (few : digests.length ≤ maxBatchItems) (keys : ∀ digest ∈ digests, IsActionDigest digest) :
    (batchActionResults headers digests).Answers (fun result _ =>
      result = batchAnswer (digests.eraseDups.filterMap (state.view.result ns))) state := by
  have requested : batchRequest digests [] = .ok digests.eraseDups := by
    simpa using batchRequest_ok keys []
  have listed : MetadataStore.lists M ns digests.eraseDups = true :=
    lists_valid (headers.named authorized) fun digest member =>
      (keys digest (List.mem_eraseDups.mp member)).1
  rw [batchActionResults, authorized, Handler.pureStep_ok, if_neg (Nat.not_lt_of_le few),
    requested, Handler.pureStep_ok]
  apply Handler.Answers.bind (getBatch_answers valid listed)
  · intro error after wrong
    cases wrong
  · intro results after same
    cases same
    exact Handler.Answers.pure rfl

end lookups

structure BatchLookup (M : Type) [MetadataStore M] where
  config : ServerConfig
  actions : List (Action Request Choice)
  headers : Headers
  ns : String
  authorized : headers.authorize .read = .ok ns
  digests : List Digest
  few : digests.length ≤ maxBatchItems
  keys : ∀ digest ∈ digests, IsActionDigest digest

namespace BatchLookup

variable (lookup : BatchLookup M)

def state : ServerState M := (reached M lookup.config lookup.actions).state

def single (digest : Digest) : Except ApiError Response → Prop :=
  AnswersWith lookup.state
    (getActionResult lookup.headers (digest.algorithm, digest.hash, digest.size))

/-- Every result that is stored says under which action. -/
theorem bound (digest : Digest) (result : ActionResult)
    (held : lookup.state.view.result lookup.ns digest = some result) : result.action = digest := by
  have sound := (reached_disciplined (M := M) lookup.config lookup.actions).inv
  obtain ⟨kind, published⟩ := sound.closed lookup.ns digest result held
  exact published.key

theorem valid : MetadataStore.valid lookup.state.metadata :=
  (reached_disciplined (M := M) lookup.config lookup.actions).inv.valid

theorem single_iff {digest : Digest} (member : digest ∈ lookup.digests)
    (answer : Except ApiError Response) :
    lookup.single digest answer ↔
      answer = resultAnswer (lookup.state.view.result lookup.ns digest) :=
  answersWith_iff (getActionResult_answers lookup.authorized lookup.valid
    (lookup.keys digest member)) answer

/-- A batch answers what lookups of its distinct digests answer, every result under the digest
it names, and misses as many digests as have no result. -/
theorem batch_is_singles :
    ∃ requested results, batchRequest lookup.digests [] = .ok requested ∧ requested.Nodup ∧
      (∀ digest, digest ∈ requested ↔ digest ∈ lookup.digests) ∧
      (∀ answer, AnswersWith lookup.state (batchActionResults lookup.headers lookup.digests) answer ↔
        answer = batchAnswer results) ∧
      (∀ digest ∈ requested, ∀ answer, lookup.single digest answer ↔
        answer = resultAnswer (results.find? fun result => result.action = digest)) ∧
      (∀ result ∈ results, result.action ∈ requested) ∧
      (results.map ActionResult.action).Nodup ∧ results.length ≤ requested.length ∧
      requested.length - results.length =
        {digest | digest ∈ requested ∧
          lookup.single digest (.error (.notFound "action result not found"))}.ncard := by
  let found := lookup.state.view.result lookup.ns
  let requested := lookup.digests.eraseDups
  have distinct : requested.Nodup := nodup_eraseDups lookup.digests
  have asked (digest : Digest) : digest ∈ requested ↔ digest ∈ lookup.digests := List.mem_eraseDups
  have missed := filterMap_missed found requested
  refine ⟨requested, requested.filterMap found, ?_, distinct, asked, ?_, ?_, ?_, ?_, ?_, ?_⟩
  · simpa using batchRequest_ok lookup.keys []
  · exact answersWith_iff (batchActionResults_answers lookup.authorized lookup.valid lookup.few
      lookup.keys)
  · intro digest member answer
    rw [find?_filterMap lookup.bound member]
    exact lookup.single_iff ((asked digest).mp member) answer
  · intro result member
    obtain ⟨digest, listed, held⟩ := List.mem_filterMap.mp member
    exact lookup.bound digest result held ▸ listed
  · exact nodup_filterMap lookup.bound distinct
  · omega
  · have misses : {digest | digest ∈ requested ∧
        lookup.single digest (.error (.notFound "action result not found"))} =
        ((requested.filter fun digest => (found digest).isNone).toFinset : Set Digest) := by
      ext digest
      simp only [Set.mem_ofPred_eq, List.coe_toFinset, List.mem_filter, Option.isNone_iff_eq_none,
        and_congr_right_iff]
      intro member
      rw [lookup.single_iff ((asked digest).mp member)]
      cases held : found digest <;> simp [resultAnswer, found, held]
    rw [misses, Set.ncard_coe_finset, List.toFinset_card_of_nodup (distinct.filter _)]
    omega

end BatchLookup
end Lookup

section Bare
attribute [local instance] Specimen.taskProtocol

def bareHeaders : Headers :=
  ⟨fun _ => .ok "team", granted_named Specimen.team, some "*", none, none, none⟩

def bareResult : ActionResult := ⟨1, Specimen.taskDigest, none, none⟩

def missedAnswer : Except ApiError Response := .error (.notFound "action result not found")

def bareLookup : BatchLookup MemoryMetadata where
  config := ⟨1024, 4, true⟩
  actions :=
    .start 1 (.putBlob bareHeaders ("blake3", Specimen.taskBlake3, 198)
        ⟨[Specimen.taskBytes], none⟩) :: List.replicate 6 (.move 1 (.main (calm 0))) ++
      .start 2 (.putActionResult bareHeaders ("blake3", Specimen.taskBlake3, 198) bareResult) ::
        List.replicate 3 (.move 2 (.main (calm 0)))
  headers := bareHeaders
  ns := "team"
  authorized := rfl
  digests := [Specimen.taskDigest, Specimen.zeroDigest, Specimen.taskDigest]
  few := by decide
  keys := by
    unfold IsActionDigest
    decide +kernel

/-- The batch answers the one result, and one of its two distinct digests has none. -/
theorem bare_batch_is_singles :
    (∀ answer, AnswersWith bareLookup.state
      (batchActionResults bareLookup.headers bareLookup.digests) answer ↔
        answer = batchAnswer [bareResult]) ∧
    (∀ answer, bareLookup.single Specimen.taskDigest answer ↔ answer = resultAnswer bareResult) ∧
    {digest | digest ∈ [Specimen.taskDigest, Specimen.zeroDigest] ∧
      bareLookup.single digest missedAnswer}.ncard = 1 := by
  obtain ⟨requested, results, asked, -, -, batch, single, -, -, -, missed⟩ :=
    bareLookup.batch_is_singles
  have distinct : requested = [Specimen.taskDigest, Specimen.zeroDigest] := by
    have known : batchRequest bareLookup.digests [] =
        .ok [Specimen.taskDigest, Specimen.zeroDigest] := by decide +kernel
    exact Except.ok.inj (asked.symm.trans known)
  have answered : AnswersWith bareLookup.state
      (batchActionResults bareLookup.headers bareLookup.digests) (batchAnswer [bareResult]) := by
    refine ⟨[.main (calm 0)], fun move member => ?_, by decide +kernel⟩
    obtain rfl := List.mem_singleton.mp member
    exact calm_clean 0
  have found : results = [bareResult] := by
    have same := (batch _).mp answered
    cases same
    rfl
  subst distinct found
  refine ⟨batch, single _ List.mem_cons_self, missed.symm⟩

end Bare
end MbxCache
