import MbxCache.Server.Delivers
import MbxCache.Server.TreeWalk

namespace MbxCache

open Concurrent

variable [Protocol] {M : Type} [MetadataStore M] {ns : String}

structure GoodObject (state : ServerState M) (ns : String) (digest : Digest) (value : Json) :
    Prop where
  valid : digest.validate = true
  size : digest.size.toNat ≤ maxObjectBytes
  seen : state.Sees ns digest
  stored : ∃ bytes, state.blobs digest = some bytes ∧ Protocol.parseValue bytes = some value ∧
    Protocol.writeValue value = bytes
  object : value.asObject.isSome

structure GoodOutputs {A : Type} (state : ServerState M) (ns : String)
    (decode : Json → Except String A) (valid : A → Bool) (stdout stderr : A → Digest)
    (value : Json) (version : UInt64) : Prop where
  version : version = 1
  outputs : ∃ record, decode value = .ok record ∧ valid record = true ∧
    ∀ digest ∈ [stdout record, stderr record], digest.validate = true ∧ state.Sees ns digest

def GoodFields (state : ServerState M) (ns : String) (value : Json) (version : UInt64) :
    ActionKind → Prop
  | .task => validateTaskMetadata value version = .ok ()
  | .buildScript => GoodOutputs state ns Protocol.buildScriptMetadata BuildScriptMetadata.validate
      BuildScriptMetadata.stdout BuildScriptMetadata.stderr value version
  | .cc => GoodOutputs state ns Protocol.ccMetadata CompilerMetadata.valid CompilerMetadata.stdout
      CompilerMetadata.stderr value version
  | .rustc => GoodOutputs state ns Protocol.rustcMetadata CompilerMetadata.valid
      CompilerMetadata.stdout CompilerMetadata.stderr value version

structure GoodMetadata (state : ServerState M) (ns : String) (kind : ActionKind)
    (digest : Digest) : Prop where
  good : ∃ value version, GoodObject state ns digest value ∧
    metadataVersion kind value = .ok version ∧ GoodFields state ns value version kind

/-- A result whose action, metadata and tree are all in place. -/
structure Publishable (state : ServerState M) (ns : String) (action : Digest)
    (kind : ActionKind) (result : ActionResult) : Prop where
  names : checkResult result action = .ok ()
  descriptor : ∃ value, GoodObject state ns action value ∧ descriptorKind value = .ok kind
  shape : validateActionResultShape result kind = .ok ()
  metadata : ∀ digest, result.metadata = some digest → GoodMetadata state ns kind digest
  tree : ∀ root, result.outputRoot = some root → ValidTree state ns root

section Closure
variable {state : ServerState M}

theorem GoodObject.at {digest : Digest} {value : Json} (good : GoodObject state ns digest value) :
    objectAt state.blobs digest = some value := by
  obtain ⟨bytes, stored, parsed, _⟩ := good.stored
  exact Option.bind_eq_some_iff.mpr ⟨bytes, stored, parsed⟩

theorem GoodOutputs.sees {A : Type} {decode : Json → Except String A} {valid : A → Bool}
    {stdout stderr : A → Digest} {value : Json} {version : UInt64}
    (good : GoodOutputs state ns decode valid stdout stderr value version) :
    ∃ one other, (decode value).toOption.map (fun record => (stdout record, stderr record)) =
      some (one, other) ∧ state.Sees ns one ∧ state.Sees ns other := by
  obtain ⟨record, decoded, _, seen⟩ := good.outputs
  refine ⟨stdout record, stderr record, by simp [decoded, Except.toOption], ?_, ?_⟩
  · exact (seen _ List.mem_cons_self).2
  · exact (seen _ (List.mem_cons_of_mem _ List.mem_cons_self)).2

theorem GoodMetadata.sees {kind : ActionKind} {digest : Digest}
    (good : GoodMetadata state ns kind digest) : state.SeesMetadata ns kind digest := by
  obtain ⟨value, version, object, read, fields⟩ := good.good
  refine ⟨object.seen, value, object.at, metadataVersion_declared read, fun compiler => ?_⟩
  cases kind with
  | task => exact absurd rfl compiler
  | buildScript => exact fields.sees
  | cc => exact fields.sees
  | rustc => exact fields.sees

theorem ValidTree.sees {root : Digest} (tree : ValidTree state ns root) :
    state.SeesTree ns root := by
  intro digest reached
  obtain ⟨directory, good⟩ := tree.good digest reached
  exact ⟨good.seen, directory, good.at, fun file member => (good.files file member).2⟩

theorem Publishable.published {action : Digest} {kind : ActionKind} {result : ActionResult}
    (publishable : Publishable state ns action kind result) :
    state.Published ns action kind result := by
  obtain ⟨value, object, checked⟩ := publishable.descriptor
  exact {
    key := checkResult_key publishable.names
    descriptor := ⟨object.seen, value, object.at, descriptorKind_declared checked⟩
    complete := validateActionResultShape_complete publishable.shape
    metadata := fun digest named => (publishable.metadata digest named).sees
    tree := fun root named => (publishable.tree root named).sees }

end Closure

section Walk
variable {base : ServerState M} {state : Shared M} (grows : ServerState.Grows base state.1)
include grows

theorem readCanonicalObject_delivers {digest : Digest} {value : Json} (label : String)
    (good : GoodObject base ns digest value) :
    (readCanonicalObject ns digest label).Delivers ns (fun found _ => found = value) state := by
  obtain ⟨bytes, stored, parsed, canonical⟩ := good.stored
  have valid : validateDigest digest = .ok () := by rw [validateDigest, good.valid, if_pos rfl]
  rw [readCanonicalObject, valid, Handler.pureStep_ok, if_neg (Nat.not_lt_of_le good.size)]
  apply Handler.Delivers.bind (readVisible_delivers _ (grows.rows ns digest good.seen)
    (grows.blobs digest bytes stored))
  rintro found after _ rfl
  refine Handler.Delivers.passes value ?_ fun _ _ => rfl
  have object : value.asObject.isNone = false := by
    rw [Option.isNone_eq_false_iff]
    exact good.object
  simp [parseCanonicalObject, parsed, object, canonical]

theorem requireBlob_delivers {digest : Digest} (label : String) (valid : digest.validate = true)
    (seen : base.Sees ns digest) :
    (requireBlob ns digest label).Delivers ns (fun _ _ => True) state := by
  rw [requireBlob, validateDigest, valid, if_pos rfl, Handler.pureStep_ok]
  apply Handler.Delivers.bind (isVisible_delivers (grows.rows ns digest seen))
  rintro visible after _ rfl
  exact Handler.Delivers.pure fun _ _ => trivial

theorem validateOutputs_delivers {A : Type} (kind : String) {decode : Json → Except String A}
    {valid : A → Bool} {stdout stderr : A → Digest} {value : Json} {version : UInt64}
    (good : GoodOutputs base ns decode valid stdout stderr value version) :
    (validateOutputs ns kind decode valid stdout stderr value version).Delivers ns
      (fun _ _ => True) state := by
  obtain ⟨record, decoded, accepted, seen⟩ := good.outputs
  have checked : decodeValid s!"{kind} metadata" decode valid value = .ok record := by
    rw [decodeValid, decoded]
    exact if_pos accepted
  obtain ⟨valid_out, sees_out⟩ := seen _ List.mem_cons_self
  obtain ⟨valid_err, sees_err⟩ := seen _ (List.mem_cons_of_mem _ List.mem_cons_self)
  rw [validateOutputs, if_neg (not_not.mpr good.version), checked, Handler.pureStep_ok]
  apply Handler.Delivers.bind (requireBlob_delivers grows _ valid_out sees_out)
  intro _ after more _
  exact requireBlob_delivers (grows.trans more) _ valid_err sees_err

theorem validateClientMetadata_delivers {digest : Digest} {kind : ActionKind}
    (good : GoodMetadata base ns kind digest) :
    (validateClientMetadata ns digest kind).Delivers ns (fun _ _ => True) state := by
  obtain ⟨value, version, object, read, fields⟩ := good.good
  apply Handler.Delivers.bind (readCanonicalObject_delivers grows _ object)
  rintro found after more rfl
  rw [read, Handler.pureStep_ok]
  cases kind with
  | task => exact .passes _ fields fun _ _ => trivial
  | buildScript => exact validateOutputs_delivers (grows.trans more) _ fields
  | cc => exact validateOutputs_delivers (grows.trans more) _ fields
  | rustc => exact validateOutputs_delivers (grows.trans more) _ fields

theorem validateDirectory_delivers {digest : Digest} {directory : Directory}
    (good : GoodDirectory base ns digest directory) :
    (validateDirectory ns digest).Delivers ns
      (fun children _ => children = directory.directories.map (·.digest)) state := by
  obtain ⟨bytes, stored, parsed, canonical⟩ := good.stored
  have read : parseDirectory bytes = .ok directory :=
    (parseDirectory_iff bytes directory).mpr ⟨parsed, canonical, good.version, good.entries,
      fun file member => (good.files file member).1⟩
  rw [validateDirectory, if_neg (Nat.not_lt_of_le good.size)]
  apply Handler.Delivers.bind (readVisible_delivers _ (grows.rows ns digest good.seen)
    (grows.blobs digest bytes stored))
  rintro found after more rfl
  rw [read, Handler.pureStep_ok]
  apply Handler.Delivers.bind (visibleBlobs_all (distinctFiles directory) ?_)
  · rintro visible last _ rfl
    rw [if_neg (not_not.mpr rfl)]
    exact Handler.Delivers.pure fun _ _ => rfl
  · intro file member
    rw [distinctFiles, List.mem_dedup, List.mem_map] at member
    obtain ⟨node, listed, rfl⟩ := member
    exact (grows.trans more).rows ns _ (good.files node listed).2

/-- By the recursion of the walk, over the tree as it was: what is added meanwhile changes no
directory below the root. -/
theorem visitTree_delivers {root : Digest} (tree : ValidTree base ns root) (pending : List Visit)
    (visiting seen : Finset Digest) (descent : Descent base ns root pending visiting seen) :
    (visitTree ns pending visiting seen).Delivers ns (fun _ _ => True) state := by
  fun_induction visitTree ns pending visiting seen generalizing state with
  | case1 => exact Handler.Delivers.pure fun _ _ => trivial
  | case2 visiting seen digest rest ih => exact ih grows descent.exit
  | case3 visiting seen digest rest known ih => exact ih grows (descent.skip known)
  | case4 visiting seen digest rest unseen open_ =>
      exact absurd (descent.cycle open_) (tree.acyclic digest descent.entered)
  | case5 visiting seen digest rest unseen fresh full =>
      exact absurd tree (descent.crowded unseen full)
  | case6 visiting seen digest rest unseen fresh room ih =>
      obtain ⟨directory, good⟩ := tree.good digest descent.entered
      apply Handler.Delivers.bind (validateDirectory_delivers grows good)
      rintro children after more rfl
      exact ih _ (grows.trans more) (descent.enter unseen fresh room good)

theorem validateTree_delivers {root : Digest} (tree : ValidTree base ns root) :
    (validateTree ns root).Delivers ns (fun _ _ => True) state :=
  visitTree_delivers grows tree _ _ _ (Descent.start base ns root)

end Walk

def Decides (ns : String) (action : Digest) (result : ActionResult) (outcome : CommitOutcome)
    (state : ServerState M) : Prop :=
  if outcome = .conflict then ∃ other, state.view.result ns action = some other ∧ other ≠ result
  else state.view.result ns action = some result

theorem verdict_decides {action : Digest} {result held : ActionResult} {state : ServerState M}
    (stored : state.view.result ns action = some held) :
    Decides ns action result (View.verdict held result) state := by
  unfold View.verdict Decides
  by_cases same : held = result
  · rw [if_pos same, if_neg (by decide), stored, same]
  · rw [if_neg same, if_pos rfl]
    exact ⟨held, stored, same⟩

theorem Decides.later {action : Digest} {result : ActionResult} {outcome : CommitOutcome}
    {before after : ServerState M} (decides : Decides ns action result outcome before)
    (grows : ServerState.Grows before after) : Decides ns action result outcome after := by
  unfold Decides at decides ⊢
  split
  · rename_i conflict
    rw [if_pos conflict] at decides
    obtain ⟨other, held, differs⟩ := decides
    exact ⟨other, grows.results ns action other held, differs⟩
  · rename_i agreed
    rw [if_neg agreed] at decides
    exact grows.results ns action result decides

/-- The first statement of a commit answers for what is stored, or leaves it to the second one
when something is. -/
theorem commit_performed {action : Digest} {result : ActionResult} {choice : Choice}
    {before after : ServerState M} {step : CommitStep}
    (valid : MetadataStore.valid before.metadata)
    (performed : perform choice before (.commit ns action result) = .ok (after, step)) :
    step = .pending ∨
      ∃ outcome, step = .answered outcome ∧ Decides ns action result outcome after := by
  obtain ⟨metadata, written, rfl⟩ := write_ok performed
  cases fits : MetadataStore.representsResult M ns action result with
  | false =>
      rw [MetadataStore.commit_refused _ _ _ _ _ fits] at written
      cases written
  | true =>
      obtain ⟨after, done, _, view⟩ :=
        MetadataStore.commit_view choice.now ns action result valid fits
      rw [done] at written
      cases written
      cases stored : before.view.result ns action with
      | none =>
          refine .inr ⟨.created, ?_, ?_⟩
          · change View.commitStep before.view _ ns action result = _
            simp [View.commitStep, stored, View.commit]
          · change (if CommitOutcome.created = .conflict then _ else _)
            rw [if_neg (by decide), ServerState.view, view]
            change (View.commit before.view ns action result).1.result ns action = some result
            rw [View.commit, stored]
            exact View.assign_same _ _ _ _
      | some held =>
          have kept : ServerState.view { before with metadata := metadata } = before.view := by
            rw [ServerState.view, view]
            change (View.commit before.view ns action result).1 = before.view
            rw [View.commit, stored]
          have still := stored
          rw [← kept] at still
          change View.commitStep before.view _ ns action result = _ ∨ _
          cases deferring : MetadataStore.defers M with
          | true =>
              refine .inl ?_
              simp [View.commitStep, stored]
          | false =>
              refine .inr ⟨View.verdict held result, ?_, verdict_decides still⟩
              change View.commitStep before.view _ ns action result = _
              simp [View.commitStep, stored, View.commit]

theorem resolve_performed {action : Digest} {result : ActionResult} {choice : Choice}
    {before after : ServerState M} {outcome : CommitOutcome}
    (valid : MetadataStore.valid before.metadata)
    (performed : perform choice before (.resolve ns action result) = .ok (after, outcome)) :
    Decides ns action result outcome after := by
  obtain ⟨looked, rfl⟩ := look_ok performed
  rw [MetadataStore.resolve_view ns action result valid] at looked
  split at looked
  · cases looked
  · rename_i held stored
    cases looked
    exact verdict_decides stored

theorem commit_decides {action : Digest} {result : ActionResult} {kind : ActionKind}
    {state : Shared M} (published : state.1.Published ns action kind result) :
    (commit ns action result).Delivers ns (Decides ns action result) state := by
  have first : Handler.Delivers (A := CommitStep) ns (.call (.commit ns action result)
      Handler.internally) (fun step after => step = .pending ∨
        ∃ outcome, step = .answered outcome ∧ Decides ns action result outcome after) state := by
    apply Handler.Delivers.ask
    · exact fun _ grows => ⟨rfl, kind, published.later grows⟩
    · intro choice before after step _ performed last grows
      rcases commit_performed before.2.valid performed with deferred |
        ⟨outcome, answered, decides⟩
      · exact .inl deferred
      · exact .inr ⟨outcome, answered, decides.later grows⟩
  apply Handler.Delivers.bind first
  rintro step asked _ (rfl | ⟨outcome, rfl, decides⟩)
  · apply Handler.Delivers.ask
    · exact fun _ _ => rfl
    · intro choice before after outcome _ performed last more
      exact (resolve_performed before.2.valid performed).later more
  · exact Handler.Delivers.pure fun _ grows => decides.later grows

inductive Settles (ns : String) (action : Digest) (result : ActionResult) :
    Except ApiError Response → ServerState M → Prop
  | stored {response : Response} {state : ServerState M}
      (status : response.status = .created ∨ response.status = .noContent)
      (held : state.view.result ns action = some result) :
      Settles ns action result (.ok response) state
  | taken {state : ServerState M} (other : ActionResult)
      (held : state.view.result ns action = some other) (differs : other ≠ result) :
      Settles ns action result (.error (.conflict "an immutable action result already exists"))
        state
  | failed {error : ApiError} {state : ServerState M} (internal : error.Internal) :
      Settles ns action result (.error error) state

theorem committed_settles {action : Digest} {result : ActionResult} {kind : ActionKind}
    {state : Shared M} (published : state.1.Published ns action kind result) :
    (sharing M).Safe ns (do
      let outcome ← commit ns action result
      let status ← Handler.pureStep (commitStatus outcome)
      return ⟨status, [], .empty⟩ : Handler Response)
      (fun answer after => Settles ns action result answer after.1) state := by
  apply Discipline.Safe.bind (commit_decides published)
  intro outcome after _ known
  cases outcome with
  | error error => exact Discipline.Safe.done fun _ _ => .failed known
  | ok outcome =>
      cases outcome with
      | created =>
          exact Discipline.Safe.done fun _ grows =>
            .stored (.inl rfl) (grows.results ns action result known)
      | alreadyExists =>
          exact Discipline.Safe.done fun _ grows =>
            .stored (.inr rfl) (grows.results ns action result known)
      | conflict =>
          obtain ⟨other, held, differs⟩ := known
          exact Discipline.Safe.done fun _ grows =>
            .taken other (grows.results ns action other held) differs

theorem whenSome_delivers {subject : Option Digest} {check : Digest → Handler Unit}
    {state : Shared M} (checked : ∀ digest, subject = some digest →
      (check digest).Delivers ns (fun _ _ => True) state) :
    (whenSome subject check).Delivers ns (fun _ _ => True) state := by
  cases subject with
  | none => exact Handler.Delivers.pure fun _ _ => trivial
  | some digest => exact checked digest rfl

theorem Handler.Delivers.settles {A : Type} {handler : Handler A} {next : A → Handler Response}
    {mid : A → ServerState M → Prop} {action : Digest} {result : ActionResult} {state : Shared M}
    (first : handler.Delivers ns mid state)
    (rest : ∀ value (after : Shared M), ServerState.Grows state.1 after.1 → mid value after.1 →
      (sharing M).Safe ns (next value) (fun answer last => Settles ns action result answer last.1)
        after) :
    (sharing M).Safe ns (handler.bind next)
      (fun answer last => Settles ns action result answer last.1) state := by
  apply Discipline.Safe.bind first
  intro outcome after grows known
  cases outcome with
  | error error => exact Discipline.Safe.done fun _ _ => .failed known
  | ok value => exact rest value after grows known

/-- A result whose closure is in place is stored, unless another one is or something fails. -/
theorem putActionResult_settles {headers : Headers} {parts : String × String × UInt64}
    {action : Digest} {result : ActionResult} {kind : ActionKind} {base : ServerState M}
    {state : Shared M} (grows : ServerState.Grows base state.1)
    (authorized : headers.authorize .write = .ok ns)
    (immutable : requireImmutablePrecondition headers = .ok ())
    (parsed : parseActionDigest parts = .ok action)
    (publishable : Publishable base ns action kind result) :
    (sharing M).Safe ns (putActionResult headers parts result)
      (fun answer after => Settles ns action result answer after.1) state := by
  obtain ⟨value, object, described⟩ := publishable.descriptor
  rw [putActionResult, authorized, Handler.pureStep_ok, immutable, Handler.pureStep_ok, parsed,
    Handler.pureStep_ok, publishable.names, Handler.pureStep_ok]
  have descriptor : (validateActionDescriptor ns action).Delivers ns (fun found _ => found = kind)
      state := by
    apply Handler.Delivers.bind (readCanonicalObject_delivers grows _ object)
    rintro found after _ rfl
    exact .passes _ described fun _ _ => rfl
  apply descriptor.settles
  rintro found one first rfl
  rw [publishable.shape, Handler.pureStep_ok]
  apply (whenSome_delivers fun digest named =>
    validateClientMetadata_delivers (grows.trans first) (publishable.metadata digest named)).settles
  intro _ two second _
  have further := grows.trans (first.trans second)
  apply (whenSome_delivers fun root named =>
    validateTree_delivers further (publishable.tree root named)).settles
  intro _ three third _
  exact committed_settles (publishable.published.later (further.trans third))

theorem putActionResult_holds {headers : Headers} {parts : String × String × UInt64}
    {action : Digest} {result : ActionResult} {state : Shared M}
    (authorized : headers.authorize .write = .ok ns)
    (parsed : parseActionDigest parts = .ok action) :
    (putActionResult headers parts result).Ensures ns
      (fun _ after => after.view.result ns action = some result) state := by
  rw [putActionResult, authorized, Handler.pureStep_ok]
  apply Handler.Ensures.bind Handler.Ensures.pureStep
  intro _ _ _ _
  rw [parsed, Handler.pureStep_ok]
  apply Handler.Ensures.bind Handler.Ensures.pureStep
  intro _ _ _ key
  apply Handler.Ensures.bind (validateActionDescriptor_ensures action)
  intro kind described _ descriptor
  apply Handler.Ensures.bind Handler.Ensures.pureStep
  intro _ _ one shape
  apply Handler.Ensures.bind
    (whenSome_ensures fun digest _ => validateClientMetadata_ensures digest kind)
  intro _ _ two metadata
  apply Handler.Ensures.bind (whenSome_ensures fun root _ => validateTree_ensures root)
  intro _ walked three tree
  have published : walked.1.Published ns action kind result := {
    key := checkResult_key key
    descriptor := descriptor.later (one.trans (two.trans three))
    complete := validateActionResultShape_complete shape
    metadata := fun digest named => (metadata digest named).later three
    tree := tree }
  refine Logic.Safe.mono (committed_settles published) fun answer after known response same => ?_
  subst same
  cases known with
  | stored _ held => exact held

end MbxCache
