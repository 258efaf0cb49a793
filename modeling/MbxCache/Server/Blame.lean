import MbxCache.Server.Footprints

namespace MbxCache

open Concurrent

variable {A B : Type}

def BlamesRequest (result : Except ApiError A) : Prop :=
  ∀ error, result = .error error → error.status.code < 500

namespace BlamesRequest

theorem ok (value : A) : BlamesRequest (.ok value) := by
  intro error same
  cases same

theorem error {error : ApiError} (own : error.status.code < 500) :
    BlamesRequest (.error error : Except ApiError A) := by
  intro other same
  cases same
  exact own

theorem badRequest (message : String) :
    BlamesRequest (.error (.badRequest message) : Except ApiError A) :=
  .error (Nat.lt_of_sub_eq_succ rfl)

theorem tooLarge (message : String) :
    BlamesRequest (.error (.tooLarge message) : Except ApiError A) :=
  .error (Nat.lt_of_sub_eq_succ rfl)

theorem unprocessable (message : String) :
    BlamesRequest (.error (.unprocessable message) : Except ApiError A) :=
  .error (Nat.lt_of_sub_eq_succ rfl)

theorem bind {result : Except ApiError A} {next : A → Except ApiError B}
    (first : BlamesRequest result) (rest : ∀ value, BlamesRequest (next value)) :
    BlamesRequest (result >>= next) := by
  cases result with
  | error error =>
      intro other same
      cases same
      exact first error rfl
  | ok value => exact rest value

theorem ite {p : Prop} [Decidable p] {one other : Except ApiError A} (first : BlamesRequest one)
    (second : BlamesRequest other) : BlamesRequest (if p then one else other) := by
  split
  · exact first
  · exact second

end BlamesRequest

section Digests

theorem validateDigest_blames (digest : Digest) : BlamesRequest (validateDigest digest) :=
  .ite (.ok _) (.badRequest _)

theorem parseDigest_blames (parts : String × String × UInt64) :
    BlamesRequest (parseDigest parts) := (validateDigest_blames _).bind fun _ => .ok _

theorem validateActionDigest_blames (digest : Digest) :
    BlamesRequest (validateActionDigest digest) :=
  (validateDigest_blames _).bind fun _ => .ite (.badRequest _) (.ok _)

theorem parseActionDigest_blames (parts : String × String × UInt64) :
    BlamesRequest (parseActionDigest parts) :=
  (parseDigest_blames _).bind fun _ => .ite (.badRequest _) (.ok _)

theorem batchRequest_blames (digests requested : List Digest) :
    BlamesRequest (batchRequest digests requested) := by
  induction digests generalizing requested with
  | nil => exact .ok _
  | cons digest rest ih => exact (validateActionDigest_blames digest).bind fun _ => ih _

variable [Protocol]

end Digests

section Objects
variable [Protocol]

theorem parseCanonicalObject_blames (label : String) (bytes : Bytes) :
    BlamesRequest (parseCanonicalObject label bytes) := by
  unfold parseCanonicalObject
  split
  · exact .unprocessable _
  · exact .ite (.unprocessable _) (.ok _)

omit [Protocol] in
theorem kindAndVersion_blames (label : String) (value : Json) :
    BlamesRequest (kindAndVersion label value) := by
  unfold kindAndVersion
  split
  · exact .unprocessable _
  · split
    · exact .unprocessable _
    · split
      · exact .unprocessable _
      · exact .ok _

omit [Protocol] in
theorem decodeValid_blames (label : String) (decode : Json → Except String A) (valid : A → Bool)
    (value : Json) : BlamesRequest (decodeValid label decode valid value) := by
  unfold decodeValid
  split
  · exact .unprocessable _
  · exact .ite (.ok _) (.unprocessable _)

theorem validateTaskAction_blames (value : Json) (version : UInt64) :
    BlamesRequest (validateTaskAction value version) := by
  refine .ite (.unprocessable _) ?_
  split
  · exact .unprocessable _
  · exact (decodeValid_blames _ _ _ _).bind fun _ => .ok _

theorem descriptorKind_blames (value : Json) : BlamesRequest (descriptorKind value) := by
  apply (kindAndVersion_blames _ value).bind
  rintro ⟨kind, version⟩
  have decodes {R : Type} (label : String) (decode : Json → Except String R) (valid : R → Bool)
      (kind : ActionKind) : BlamesRequest (do
        let _ ← decodeValid label decode valid value
        return kind) := (decodeValid_blames _ _ _ _).bind fun _ => .ok _
  exact .ite (.ite (.unprocessable _) (decodes _ _ _ _))
    (.ite (.ite (.unprocessable _) (decodes _ _ _ _))
      (.ite (validateTaskAction_blames value version)
        (.ite (.ite (.unprocessable _) (decodes _ _ _ _)) (.unprocessable _))))

omit [Protocol] in
theorem validateTaskRoots_blames (roots : List String) :
    BlamesRequest (validateTaskRoots roots) := by
  induction roots with
  | nil => exact .ok _
  | cons root rest ih =>
      have one : BlamesRequest (validateTaskRoot root) := .ite (.unprocessable _) (.ok _)
      exact one.bind fun _ => ih

theorem validateTaskMetadata_blames (value : Json) (version : UInt64) :
    BlamesRequest (validateTaskMetadata value version) :=
  .ite (.unprocessable _)
    ((decodeValid_blames _ _ _ _).bind fun _ => validateTaskRoots_blames _)

omit [Protocol] in
theorem metadataVersion_blames (kind : ActionKind) (value : Json) :
    BlamesRequest (metadataVersion kind value) :=
  (kindAndVersion_blames _ value).bind fun _ => .ite (.unprocessable _) (.ok _)

omit [Protocol] in
theorem validateEntry_blames (names : List String) (name : String) (mode : UInt32) :
    BlamesRequest (validateEntry names name mode) :=
  .ite (.unprocessable _) (.ite (.unprocessable _) (.ok _))

omit [Protocol] in
theorem validateEntries_blames (entries : List (String × UInt32)) (names : List String) :
    BlamesRequest (validateEntries entries names) := by
  induction entries generalizing names with
  | nil => exact .ok _
  | cons entry rest ih => exact (validateEntry_blames _ _ _).bind fun names => ih names

omit [Protocol] in
theorem validateSymlinks_blames (nodes : List SymlinkNode) (names : List String) :
    BlamesRequest (validateSymlinks nodes names) := by
  induction nodes generalizing names with
  | nil => exact .ok _
  | cons node rest ih =>
      exact (validateEntry_blames _ _ _).bind fun names => .ite (.unprocessable _) (ih names)

omit [Protocol] in
theorem validateDigests_blames (digests : List Digest) :
    BlamesRequest (validateDigests digests) := by
  induction digests with
  | nil => exact .ok _
  | cons digest rest ih => exact (validateDigest_blames digest).bind fun _ => ih

theorem parseDirectory_blames (bytes : Bytes) : BlamesRequest (parseDirectory bytes) := by
  unfold parseDirectory
  split
  · exact .unprocessable _
  · rename_i directory _
    have entries : BlamesRequest (validateDirectoryEntries directory) :=
      (validateEntries_blames _ _).bind fun names =>
        (validateEntries_blames _ _).bind fun names => validateSymlinks_blames _ names
    exact .ite (.unprocessable _) (.ite (.unprocessable _)
      (entries.bind fun _ => (validateDigests_blames _).bind fun _ => .ok _))

end Objects

def ApiError.Internal (error : ApiError) : Prop := ∃ failure, error = .internal failure

theorem ApiError.Internal.code {error : ApiError} (internal : error.Internal) :
    500 ≤ error.status.code := by
  obtain ⟨failure, rfl⟩ := internal
  cases failure <;> decide

/-- A call that failed, or that opened an object which cannot be read to its end. -/
inductive CallFailed : Asked Api → Prop
  | error {op : Op} {failure : Failure} : CallFailed ⟨op, (.error failure : Except Failure op.Value)⟩
  | broken {digest : Digest} {blob : Blob} (cut : blob.stream.broken = true) :
      CallFailed ⟨.get digest, (.ok (some blob) : Except Failure (Option Blob))⟩

def BlamesCalls (result : Except ApiError A) (past : List (Asked Api)) : Prop :=
  ∀ error, result = .error error → error.Internal → ∃ call ∈ past, CallFailed call

theorem BlamesRequest.calls {result : Except ApiError A} (blames : BlamesRequest result)
    (past : List (Asked Api)) : BlamesCalls result past := by
  intro error same internal
  have own := blames error same
  have code := internal.code
  omega

namespace Handler

/-- Whatever a handler was answered before, its own answer is an internal error only if a call has
failed. -/
def Blames (handler : Handler A) : Prop :=
  ∀ past, Program.Obeys (.any Api) BlamesCalls handler past

namespace Blames

theorem bind {handler : Handler A} {next : A → Handler B} (first : handler.Blames)
    (rest : ∀ value, (next value).Blames) : (handler >>= next).Blames := by
  intro past
  refine Program.Obeys.bind (first past) fun result later known => ?_
  cases result with
  | error error =>
      intro other same
      cases same
      exact known error rfl
  | ok value => exact rest value later

theorem pureStep {result : Except ApiError A} (blames : BlamesRequest result) :
    (Handler.pureStep result).Blames := fun past => blames.calls past

theorem pure (value : A) : (Pure.pure value : Handler A).Blames :=
  fun past => (BlamesRequest.ok value).calls past

theorem unprocessable (message : String) :
    (Handler.refuse (.unprocessable message) : Handler A).Blames :=
  pureStep (.unprocessable message)

theorem badRequest (message : String) :
    (Handler.refuse (.badRequest message) : Handler A).Blames := pureStep (.badRequest message)

theorem notFound (message : String) :
    (Handler.refuse (.notFound message) : Handler A).Blames :=
  pureStep (.error (Nat.lt_of_sub_eq_succ rfl))

theorem ask (op : Op) : Handler.Blames (A := op.Value) (.call op Handler.internally) := by
  refine fun past => ⟨trivial, fun value => ?_⟩
  cases value with
  | ok value => exact (BlamesRequest.ok value).calls _
  | error failure => exact fun _ _ _ => ⟨_, List.mem_append_right _ List.mem_cons_self, .error⟩

end Blames
end Handler

section Handlers
variable {ns : String}

theorem isVisible_blames (digest : Digest) : (isVisible ns digest).Blames :=
  .bind (.ask _) fun _ => .pure _

theorem fetch_blames {digest : Digest} {missing : Handler A} {present : Blob → Handler A}
    (gone : missing.Blames)
    (opened : ∀ blob past, ⟨.get digest, (.ok (some blob) : Except Failure (Option Blob))⟩ ∈ past →
      Program.Obeys (.any Api) BlamesCalls (present blob) past) :
    (fetch digest >>= fun found => match found with
      | none => forgetMissingBlob ns digest >>= fun _ => missing
      | some blob => present blob : Handler A).Blames := by
  refine fun past => ⟨trivial, fun value => ?_⟩
  cases value with
  | error failure => exact fun _ _ _ => ⟨_, List.mem_append_right _ List.mem_cons_self, .error⟩
  | ok found =>
      cases found with
      | none => exact ⟨trivial, fun _ => gone _⟩
      | some blob => exact opened blob _ (List.mem_append_right _ List.mem_cons_self)

theorem getActionResult_blames (headers : Headers) (parts : String × String × UInt64)
    (authorized : headers.authorize .read = .ok ns) : (getActionResult headers parts).Blames := by
  rw [getActionResult, authorized, Handler.pureStep_ok]
  refine .bind (.pureStep (parseActionDigest_blames parts)) fun action => ?_
  refine .bind (.ask _) fun found => ?_
  cases found with
  | none => exact .notFound _
  | some result => exact .pure _

theorem batchActionResults_blames (headers : Headers) (digests : List Digest)
    (authorized : headers.authorize .read = .ok ns) :
    (batchActionResults headers digests).Blames := by
  rw [batchActionResults, authorized, Handler.pureStep_ok]
  split
  · exact .badRequest _
  · refine .bind (.pureStep (batchRequest_blames digests [])) fun _ => ?_
    exact .bind (.ask _) fun _ => .pure _

/-- What cannot be read to its end was opened so. -/
theorem readVisible_blames (digest : Digest) {missing : ApiError}
    (own : missing.status.code < 500) : (readVisible ns digest missing).Blames := by
  have refused : (Handler.refuse missing : Handler Bytes).Blames := .pureStep (.error own)
  refine .bind (isVisible_blames digest) fun visible => ?_
  cases visible with
  | false => exact refused
  | true =>
      refine fetch_blames refused fun blob past member error same internal => ?_
      refine ⟨_, member, .broken ?_⟩
      unfold readStream ByteStream.read at same
      split at same
      · assumption
      · cases same

variable [Protocol]

omit [Protocol] in
theorem requireBlob_blames (digest : Digest) (label : String) :
    (requireBlob ns digest label).Blames := by
  refine .bind (.pureStep (validateDigest_blames digest)) fun _ => ?_
  refine .bind (isVisible_blames digest) fun visible => ?_
  cases visible with
  | false => exact .unprocessable _
  | true => exact .pure ()

theorem readCanonicalObject_blames (digest : Digest) (label : String) :
    (readCanonicalObject ns digest label).Blames := by
  refine .bind (.pureStep (validateDigest_blames digest)) fun _ => ?_
  split
  · exact .unprocessable _
  · refine .bind (readVisible_blames digest (Nat.lt_of_sub_eq_succ rfl)) fun bytes => ?_
    exact .pureStep (parseCanonicalObject_blames label bytes)

omit [Protocol] in
theorem validateOutputs_blames (kind : String) (decode : Json → Except String A)
    (valid : A → Bool) (stdout stderr : A → Digest) (value : Json) (version : UInt64) :
    (validateOutputs ns kind decode valid stdout stderr value version).Blames := by
  unfold validateOutputs
  split
  · exact .unprocessable _
  · refine .bind (.pureStep (decodeValid_blames _ _ _ _)) fun metadata => ?_
    exact .bind (requireBlob_blames _ _) fun _ => requireBlob_blames _ _

theorem validateClientMetadata_blames (digest : Digest) (kind : ActionKind) :
    (validateClientMetadata ns digest kind).Blames := by
  refine .bind (readCanonicalObject_blames digest _) fun value => ?_
  refine .bind (.pureStep (metadataVersion_blames kind value)) fun version => ?_
  cases kind with
  | task => exact .pureStep (validateTaskMetadata_blames value version)
  | buildScript => exact validateOutputs_blames _ _ _ _ _ value version
  | cc => exact validateOutputs_blames _ _ _ _ _ value version
  | rustc => exact validateOutputs_blames _ _ _ _ _ value version

theorem validateDirectory_blames (digest : Digest) : (validateDirectory ns digest).Blames := by
  unfold validateDirectory
  split
  · exact .unprocessable _
  · refine .bind (readVisible_blames digest (Nat.lt_of_sub_eq_succ rfl)) fun bytes => ?_
    refine .bind (.pureStep (parseDirectory_blames bytes)) fun directory => ?_
    refine .bind (.ask _) fun visible => ?_
    split
    · exact .unprocessable _
    · exact .pure _

theorem visitTree_blames (pending : List Visit) (visiting seen : Finset Digest) :
    (visitTree ns pending visiting seen).Blames := by
  fun_induction visitTree ns pending visiting seen with
  | case1 visiting seen => exact .pure ()
  | case2 visiting seen digest rest ih => exact ih
  | case3 visiting seen digest rest unseen ih => exact ih
  | case4 visiting seen digest rest unseen fresh => exact .unprocessable _
  | case5 visiting seen digest rest unseen fresh room => exact .unprocessable _
  | case6 visiting seen digest rest unseen fresh room ih =>
      exact .bind (validateDirectory_blames digest) fun children => ih children

omit [Protocol] in
theorem commit_blames (action : Digest) (result : ActionResult) :
    (commit ns action result).Blames := by
  have decided : Handler.Blames (A := CommitStep) (.call (.commit ns action result)
      Handler.internally) := .ask _
  refine .bind decided fun step => ?_
  cases step with
  | answered outcome => exact .pure _
  | pending => exact .ask _

omit [Protocol] in
theorem whenSome_blames (subject : Option A) {check : A → Handler Unit}
    (blames : ∀ value, (check value).Blames) : (whenSome subject check).Blames := by
  cases subject with
  | none => exact .pure ()
  | some value => exact blames value

theorem putActionResult_blames (headers : Headers) (parts : String × String × UInt64)
    (result : ActionResult) (authorized : headers.authorize .write = .ok ns) :
    (putActionResult headers parts result).Blames := by
  rw [putActionResult, authorized, Handler.pureStep_ok]
  have immutable : BlamesRequest (requireImmutablePrecondition headers) :=
    .ite (.ok _) (.error (Nat.lt_of_sub_eq_succ rfl))
  refine .bind (.pureStep immutable) fun _ => ?_
  refine .bind (.pureStep (parseActionDigest_blames parts)) fun action => ?_
  refine .bind (.pureStep (.ite (.badRequest _) (.ok _))) fun _ => ?_
  have descriptor : (validateActionDescriptor ns action).Blames :=
    .bind (readCanonicalObject_blames _ _) fun value => .pureStep (descriptorKind_blames value)
  refine .bind descriptor fun kind => ?_
  refine .bind (.pureStep (.ite (.unprocessable _) (.ok _))) fun _ => ?_
  refine .bind (whenSome_blames _ fun metadata => validateClientMetadata_blames metadata kind)
    fun _ => ?_
  refine .bind (whenSome_blames _ fun root => visitTree_blames _ _ _) fun _ => ?_
  refine .bind (commit_blames action result) fun outcome => ?_
  have status : BlamesRequest (commitStatus outcome) := by
    cases outcome with
    | created => exact .ok _
    | alreadyExists => exact .ok _
    | conflict => exact .error (Nat.lt_of_sub_eq_succ rfl)
  exact .bind (.pureStep status) fun _ => .pure _

end Handlers
end MbxCache
