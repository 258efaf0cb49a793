import Mathlib.Data.Set.Finite.Basic
import MbxCache.Concurrent.Confined
import MbxCache.Server.Actions
import MbxCache.Server.Blobs
import MbxCache.Server.Undisturbed

namespace MbxCache

open Concurrent

variable [Protocol] {M : Type} [MetadataStore M]

namespace ServerState

/-- The digests a namespace has a row of while the storage lacks the object. -/
def dangling (state : ServerState M) (ns : String) : Set Digest :=
  {digest | state.Sees ns digest ∧ state.blobs digest = none}

structure Forgets (ns : String) (before after : ServerState M) : Prop where
  blobs : after.blobs = before.blobs
  valid : MetadataStore.valid after.metadata
  fewer : ∀ other digest, after.Sees other digest → before.Sees other digest
  kept : ∀ other digest, before.Sees other digest →
    after.Sees other digest ∨ other = ns ∧ before.blobs digest = none

/-- Dangling rows of a namespace were dropped, at least one, and no others. -/
structure Mends (ns : String) (before after : ServerState M) : Prop extends
    Forgets ns before after where
  mended : ∃ digest ∈ before.dangling ns, ¬ after.Sees ns digest

def Has (state : ServerState M) : Op → Prop
  | .get digest => state.blobs digest ≠ none
  | _ => True

theorem Forgets.refl {ns : String} {state : ServerState M}
    (valid : MetadataStore.valid state.metadata) : state.Forgets ns state where
  blobs := rfl
  valid := valid
  fewer _ _ seen := seen
  kept _ _ seen := .inl seen

theorem Forgets.forget {ns : String} {before state after : ServerState M} {digest : Digest}
    (forgets : before.Forgets ns state) (absent : before.blobs digest = none)
    (blobs : after.blobs = state.blobs) (valid : MetadataStore.valid after.metadata)
    (view : after.view = state.view.forget ns digest) :
    before.Forgets ns after ∧ ¬ after.Sees ns digest := by
  have seen : ∀ other key, after.Sees other key ↔
      state.Sees other key ∧ ¬ (other = ns ∧ key = digest) := by
    intro other key
    simp only [Sees, view, View.forget, View.assign]
    split <;> simp_all
  refine ⟨⟨blobs.trans forgets.blobs, valid, ?_, ?_⟩, ?_⟩
  · exact fun other key sees => forgets.fewer other key ((seen other key).mp sees).1
  · intro other key sees
    by_cases same : other = ns ∧ key = digest
    · rw [same.1, same.2]
      exact .inr ⟨rfl, absent⟩
    · exact (forgets.kept other key sees).imp_left fun held => (seen other key).mpr ⟨held, same⟩
  · exact fun sees => ((seen ns digest).mp sees).2 ⟨rfl, rfl⟩

theorem Forgets.execute {ns : String} {before state : ServerState M}
    (forgets : before.Forgets ns state) (op : Op) (choice : Choice)
    (blobs : (op.effect state.blobs state.view).1 = state.blobs)
    (visible : (op.effect state.blobs state.view).2.visible = state.view.visible) :
    before.Forgets ns (exec choice op state).1 := by
  obtain ⟨valid, shown⟩ := exec_effect choice op forgets.valid
  have same : (exec choice op state).1.blobs = state.blobs ∧
      (exec choice op state).1.view.visible = state.view.visible := by
    rcases shown with kept | effect
    · exact ⟨congrArg Prod.fst kept, congrArg (fun shown => shown.2.visible) kept⟩
    · exact ⟨(congrArg Prod.fst effect).trans blobs,
        (congrArg (fun shown => shown.2.visible) effect).trans visible⟩
  refine ⟨same.1.trans forgets.blobs, valid, ?_, ?_⟩
  · intro other digest sees
    rw [Sees, same.2] at sees
    exact forgets.fewer other digest sees
  · intro other digest sees
    refine (forgets.kept other digest sees).imp_left fun held => ?_
    rw [Sees, same.2]
    exact held

end ServerState

open ServerState

namespace Handler

variable {A B : Type} {ns : String} {state : ServerState M}

def Confined (handler : Handler A) (state : ServerState M) : Prop :=
  Program.Confined (server M) Choice.Clean state.Has handler state

/-- With nobody else around, the handler asks for no absent object and ends as promised; or it
fails and mends a row. -/
inductive Tries (ns : String) (post : Except ApiError A → ServerState M → Prop)
    (handler : Handler A) (state : ServerState M) : Prop
  | quiet (confined : handler.Confined state) (answers : handler.Answers post state)
  | mends (answers : handler.Answers
      (fun result after => (∃ error, result = .error error) ∧ state.Mends ns after) state)

/-- Unless it mends a row, the handler has one answer and changes nothing. -/
def Checks (ns : String) (handler : Handler A) (state : ServerState M) : Prop :=
  ∃ expected, handler.Tries ns (fun result after => result = expected ∧ after = state) state

namespace Tries

variable {handler : Handler A} {next : A → Handler B}
  {post : Except ApiError B → ServerState M → Prop}

theorem later (answers : handler.Answers
      (fun result after => (∃ error, result = .error error) ∧ state.Mends ns after) state) :
    (handler >>= next).Tries ns post state := by
  refine .mends (answers.bind (fun error after mended => ⟨⟨error, rfl⟩, mended.2⟩) ?_)
  rintro value after ⟨⟨error, wrong⟩, _⟩
  cases wrong

theorem fails {error : ApiError}
    (tries : handler.Tries ns (fun result after => result = .error error ∧ after = state) state)
    (holds : post (.error error) state) :
    (handler >>= next).Tries ns post state := by
  cases tries with
  | mends answers => exact later answers
  | quiet confined answers =>
      refine .quiet (Program.Confined.bind confined answers ?_) (answers.bind ?_ ?_)
      · rintro result after ⟨rfl, rfl⟩
        trivial
      · rintro other after ⟨same, rfl⟩
        cases same
        exact holds
      · rintro value after ⟨wrong, _⟩
        cases wrong

theorem goes {value : A}
    (tries : handler.Tries ns (fun result after => result = .ok value ∧ after = state) state)
    (rest : (next value).Tries ns post state) :
    (handler >>= next).Tries ns post state := by
  cases tries with
  | mends answers => exact later answers
  | quiet confined answers =>
      have ran : ∀ {post}, (next value).Answers post state →
          (handler >>= next).Answers post state := by
        intro post answered
        refine answers.bind ?_ ?_
        · rintro error after ⟨wrong, _⟩
          cases wrong
        · rintro found after ⟨same, rfl⟩
          cases same
          exact answered
      cases rest with
      | mends mended => exact .mends (ran mended)
      | quiet confined' answers' =>
          refine .quiet (Program.Confined.bind confined answers ?_) (ran answers')
          rintro result after ⟨rfl, rfl⟩
          exact confined'

end Tries

namespace Checks

theorem pureStep (result : Except ApiError A) : (Handler.pureStep result).Checks ns state :=
  ⟨result, .quiet trivial ⟨rfl, rfl⟩⟩

theorem pure (value : A) : (Pure.pure value : Handler A).Checks ns state := pureStep (.ok value)

theorem refuse (error : ApiError) : (Handler.refuse error : Handler A).Checks ns state :=
  pureStep (.error error)

variable {handler : Handler A} {next : A → Handler B}

theorem bind (first : handler.Checks ns state) (rest : ∀ value, (next value).Checks ns state) :
    (handler >>= next).Checks ns state := by
  obtain ⟨expected, tries⟩ := first
  cases expected with
  | error error => exact ⟨.error error, tries.fails ⟨rfl, rfl⟩⟩
  | ok value =>
      obtain ⟨last, rest⟩ := rest value
      exact ⟨last, tries.goes rest⟩

theorem tries {post : Except ApiError B → ServerState M → Prop} (first : handler.Checks ns state)
    (failed : ∀ error, post (.error error) state)
    (rest : ∀ value, (next value).Tries ns post state) :
    (handler >>= next).Tries ns post state := by
  obtain ⟨expected, tries⟩ := first
  cases expected with
  | error error => exact tries.fails (failed error)
  | ok value => exact tries.goes (rest value)

end Checks
end Handler

omit [Protocol] in
theorem commit_visible (view : View) (ns : String) (action : Digest) (result : ActionResult) :
    (view.commit ns action result).1.visible = view.visible := by
  unfold View.commit
  split <;> rfl

section Rules
variable {A : Type} {ns : String} {state : ServerState M}

theorem visibleBlobs_confined (digests : List Digest) : (visibleBlobs ns digests).Confined state :=
  ⟨trivial, fun _ _ => trivial⟩

variable (valid : MetadataStore.valid state.metadata)
include valid

theorem visibleBlobs_checks (digests : List Digest) :
    (visibleBlobs ns digests).Checks ns state := by
  cases listed : MetadataStore.lists M ns digests with
  | true => exact ⟨_, .quiet (visibleBlobs_confined digests) (visibleBlobs_answers valid listed)⟩
  | false => exact ⟨_, .quiet (visibleBlobs_confined digests) (visibleBlobs_fails listed)⟩

theorem isVisible_checks (digest : Digest) : (isVisible ns digest).Checks ns state :=
  .bind (visibleBlobs_checks valid [digest]) fun _ => .pure _

theorem isVisible_confined (digest : Digest) : (isVisible ns digest).Confined state :=
  Program.Confined.bind (visibleBlobs_confined [digest]) (visibleBlobs_asked valid [digest])
    fun result after _ => by cases result <;> trivial

theorem isVisible_seen {digest : Digest} (seen : state.view.visible ns digest = true) :
    (isVisible ns digest).Tries ns (fun result after => result = .ok true ∧ after = state)
      state := by
  refine .quiet (isVisible_confined valid digest) ?_
  have answers : (isVisible ns digest).Answers _ state :=
    isVisible_answers valid (lists_one (MetadataStore.names_visible valid seen))
  rw [seen] at answers
  exact answers

theorem isVisible_hidden {digest : Digest} (hidden : state.view.visible ns digest = false) :
    ∃ expected, (expected = .ok false ∨ ∃ error, expected = .error error) ∧
      (isVisible ns digest).Tries ns (fun result after => result = expected ∧ after = state)
        state := by
  cases listed : MetadataStore.lists M ns [digest] with
  | true =>
      have answers : (isVisible ns digest).Answers _ state := isVisible_answers valid listed
      rw [hidden] at answers
      exact ⟨_, .inl rfl, .quiet (isVisible_confined valid digest) answers⟩
  | false =>
      have refused : (visibleBlobs ns [digest]).Tries ns _ state :=
        .quiet (visibleBlobs_confined [digest]) (visibleBlobs_fails listed)
      exact ⟨_, .inr ⟨_, rfl⟩, refused.fails ⟨rfl, rfl⟩⟩

theorem forgetMissingBlob_mends {digest : Digest} (seen : state.Sees ns digest)
    (absent : state.blobs digest = none) (missing : ApiError) :
    (forgetMissingBlob ns digest >>= fun _ => (Handler.refuse missing : Handler A)).Answers
      (fun result after => (∃ error, result = .error error) ∧ state.Mends ns after) state := by
  have mends : ∀ after : ServerState M, after.blobs = state.blobs ∧
      MetadataStore.valid after.metadata ∧ after.view = state.view.forget ns digest →
      state.Mends ns after := by
    rintro after ⟨blobs, valid', view⟩
    obtain ⟨forgets, gone⟩ := (Forgets.refl valid).forget absent blobs valid' view
    exact ⟨forgets, digest, ⟨seen, absent⟩, gone⟩
  apply (forgetMissingBlob_answers valid digest).bind
  · exact fun error after dropped => ⟨⟨error, rfl⟩, mends after dropped⟩
  · exact fun _ after dropped => Handler.Answers.refuse ⟨⟨missing, rfl⟩, mends after dropped⟩

theorem fetchVisible_cases {digest : Digest} (seen : state.Sees ns digest) (missing : ApiError)
    (present : Blob → Handler A) :
    let handler : Handler A := fetch digest >>= fun found : Option Blob =>
      match found with
      | none => forgetMissingBlob ns digest >>= fun _ => Handler.refuse missing
      | some blob => present blob
    handler.Answers (fun result after =>
      (∃ error, result = .error error) ∧ state.Mends ns after) state ∨
    ∃ bytes, state.blobs digest = some bytes ∧
      (∀ {post}, (∀ cuts, (present ⟨UInt64.ofNat bytes.length,
        ByteStream.opened bytes cuts false⟩).Answers post state) → handler.Answers post state) ∧
      ((∀ blob, (present blob).Confined state) → handler.Confined state) := by
  intro handler
  have fetched : (fetch digest).Answers _ state := fetch_answers digest
  cases stored : state.blobs digest with
  | none =>
      left
      apply fetched.bind
      · rintro error after ⟨_, cuts, wrong⟩
        cases wrong
      · rintro found after ⟨rfl, cuts, given⟩
        rw [stored] at given
        cases given
        exact forgetMissingBlob_mends valid seen stored missing
  | some bytes =>
      right
      refine ⟨bytes, rfl, fun answers => ?_, fun confined => ?_⟩
      · apply fetched.bind
        · rintro error after ⟨_, cuts, wrong⟩
          cases wrong
        · rintro found after ⟨rfl, cuts, given⟩
          rw [stored] at given
          cases given
          exact answers cuts
      · have asks : (fetch digest : Handler (Option Blob)).Confined state := by
          refine ⟨?_, fun _ _ => trivial⟩
          change state.blobs digest ≠ none
          rw [stored]
          exact nofun
        apply Program.Confined.bind asks fetched
        rintro result after ⟨rfl, cuts, rfl⟩
        rw [stored]
        exact confined _

theorem readVisible_checks (digest : Digest) (missing : ApiError) :
    (readVisible ns digest missing).Checks ns state := by
  cases seen : state.view.visible ns digest with
  | false =>
      obtain ⟨expected, rfl | ⟨error, rfl⟩, hidden⟩ := isVisible_hidden valid seen
      · exact ⟨.error missing, hidden.goes (.quiet trivial ⟨rfl, rfl⟩)⟩
      · exact ⟨.error error, hidden.fails ⟨rfl, rfl⟩⟩
  | true =>
      have sees := isVisible_seen valid seen
      rcases fetchVisible_cases valid seen missing fun blob =>
        Handler.pureStep (readStream blob.stream) with mended | ⟨bytes, stored, answers, confined⟩
      · exact ⟨.error missing, sees.goes (.mends mended)⟩
      · refine ⟨.ok bytes, sees.goes (.quiet (confined fun _ => trivial) (answers fun cuts => ?_))⟩
        exact ⟨opened_whole bytes cuts, rfl⟩

theorem getBlob_tries {headers : Headers} (authorized : headers.authorize .read = .ok ns)
    (parts : String × String × UInt64) :
    (getBlob headers parts).Tries ns (fun _ after => state.Forgets ns after) state := by
  have unchanged : state.Forgets ns state := .refl valid
  rw [getBlob, authorized, Handler.pureStep_ok]
  cases parsed : parseDigest parts with
  | error error => exact .quiet trivial unchanged
  | ok digest =>
      rw [Handler.pureStep_ok]
      cases seen : state.view.visible ns digest with
      | false =>
          obtain ⟨expected, rfl | ⟨error, rfl⟩, hidden⟩ := isVisible_hidden valid seen
          · exact hidden.goes (.quiet trivial unchanged)
          · exact hidden.fails unchanged
      | true =>
          apply (isVisible_seen valid seen).goes
          rcases fetchVisible_cases valid seen (.notFound "blob not found") fun blob =>
            pure (_ : Response) with mended | ⟨bytes, stored, answers, confined⟩
          · exact .mends mended
          · exact .quiet (confined fun _ => trivial) (answers fun _ => unchanged)

theorem readCanonicalObject_checks (digest : Digest) (label : String) :
    (readCanonicalObject ns digest label).Checks ns state := by
  apply Handler.Checks.bind (.pureStep _)
  intro _
  split
  · exact .refuse _
  · exact .bind (readVisible_checks valid digest _) fun _ => .pureStep _

theorem validateActionDescriptor_checks (digest : Digest) :
    (validateActionDescriptor ns digest).Checks ns state :=
  .bind (readCanonicalObject_checks valid digest _) fun _ => .pureStep _

theorem requireBlob_checks (digest : Digest) (label : String) :
    (requireBlob ns digest label).Checks ns state := by
  apply Handler.Checks.bind (.pureStep _)
  intro _
  apply Handler.Checks.bind (isVisible_checks valid digest)
  intro visible
  cases visible
  · exact .refuse _
  · exact .pure ()

theorem validateOutputs_checks {B : Type} (kind : String) (decode : Json → Except String B)
    (accepts : B → Bool) (stdout stderr : B → Digest) (value : Json) (version : UInt64) :
    (validateOutputs ns kind decode accepts stdout stderr value version).Checks ns state := by
  unfold validateOutputs
  split
  · exact .refuse _
  · exact .bind (.pureStep _) fun metadata =>
      .bind (requireBlob_checks valid _ _) fun _ => requireBlob_checks valid _ _

theorem validateClientMetadata_checks (digest : Digest) (kind : ActionKind) :
    (validateClientMetadata ns digest kind).Checks ns state := by
  apply Handler.Checks.bind (readCanonicalObject_checks valid digest _)
  intro value
  apply Handler.Checks.bind (.pureStep _)
  intro version
  cases kind with
  | task => exact .pureStep _
  | buildScript => exact validateOutputs_checks valid _ _ _ _ _ _ _
  | cc => exact validateOutputs_checks valid _ _ _ _ _ _ _
  | rustc => exact validateOutputs_checks valid _ _ _ _ _ _ _

theorem validateDirectory_checks (digest : Digest) :
    (validateDirectory ns digest).Checks ns state := by
  unfold validateDirectory
  split
  · exact .refuse _
  · apply Handler.Checks.bind (readVisible_checks valid digest _)
    intro bytes
    apply Handler.Checks.bind (.pureStep _)
    intro directory
    apply Handler.Checks.bind (visibleBlobs_checks valid _)
    intro visible
    split
    · exact .refuse _
    · exact .pure _

theorem visitTree_checks (pending : List Visit) (visiting seen : Finset Digest) :
    (visitTree ns pending visiting seen).Checks ns state := by
  induction pending, visiting, seen using visitTree.induct with
  | case1 visiting seen =>
      rw [visitTree]
      exact .pure ()
  | case2 visiting seen digest rest ih =>
      rw [visitTree]
      exact ih
  | case3 visiting seen digest rest unseen ih =>
      rw [visitTree, dif_pos unseen]
      exact ih
  | case4 visiting seen digest rest unseen fresh =>
      rw [visitTree, dif_neg unseen, dif_pos fresh]
      exact .refuse _
  | case5 visiting seen digest rest unseen fresh room =>
      rw [visitTree, dif_neg unseen, dif_neg fresh, dif_pos room]
      exact .refuse _
  | case6 visiting seen digest rest unseen fresh room ih =>
      rw [visitTree, dif_neg unseen, dif_neg fresh, dif_neg room]
      exact Handler.Checks.bind (validateDirectory_checks valid digest) fun children => ih children

omit valid in
theorem whenSome_checks {B : Type} (subject : Option B) {check : B → Handler Unit}
    (checks : ∀ value, (check value).Checks ns state) : (whenSome subject check).Checks ns state := by
  cases subject with
  | none => exact .pure ()
  | some value => exact checks value

omit valid in
theorem commit_quiet {before : ServerState M} (forgets : before.Forgets ns state)
    (action : Digest) (result : ActionResult) :
    Program.Confined (server M) Choice.Clean before.Has (commit ns action result) state ∧
      (commit ns action result).Answers (fun _ after => before.Forgets ns after) state := by
  constructor
  · refine ⟨trivial, fun choice _ => ?_⟩
    generalize (exec choice (.commit ns action result) state).2 = answer
    cases answer with
    | error failure => trivial
    | ok step =>
        cases step with
        | answered outcome => trivial
        | pending => exact ⟨trivial, fun _ _ => trivial⟩
  · intro choice _
    have committed := forgets.execute (.commit ns action result) choice rfl
      (commit_visible state.view ns action result)
    change Program.Ends (server M) Choice.Clean _ _ (exec choice (.commit ns action result) state).1
    generalize (exec choice (.commit ns action result) state).2 = answer
    cases answer with
    | error failure => exact committed
    | ok step =>
        cases step with
        | answered outcome => exact committed
        | pending => exact fun again _ => committed.execute (.resolve ns action result) again rfl rfl

theorem putActionResult_tries {headers : Headers} (authorized : headers.authorize .write = .ok ns)
    (parts : String × String × UInt64) (result : ActionResult) :
    (putActionResult headers parts result).Tries ns (fun _ after => state.Forgets ns after)
      state := by
  have unchanged : state.Forgets ns state := .refl valid
  rw [putActionResult, authorized, Handler.pureStep_ok]
  refine (Handler.Checks.pureStep _).tries (fun _ => unchanged) fun _ => ?_
  refine (Handler.Checks.pureStep _).tries (fun _ => unchanged) fun action => ?_
  refine (Handler.Checks.pureStep _).tries (fun _ => unchanged) fun _ => ?_
  refine (validateActionDescriptor_checks valid action).tries (fun _ => unchanged) fun kind => ?_
  refine (Handler.Checks.pureStep _).tries (fun _ => unchanged) fun _ => ?_
  refine (whenSome_checks result.metadata fun metadata =>
    validateClientMetadata_checks valid metadata kind).tries (fun _ => unchanged) fun _ => ?_
  refine (whenSome_checks result.outputRoot fun root =>
    visitTree_checks valid [.enter root] ∅ ∅).tries (fun _ => unchanged) fun _ => ?_
  obtain ⟨confined, answers⟩ := commit_quiet unchanged action result
  refine .quiet (Program.Confined.bind confined answers ?_) (answers.bind ?_ ?_)
  · intro outcome after _
    cases outcome with
    | error error => trivial
    | ok outcome =>
        change Program.Confined _ _ _ (Handler.bind (Handler.pureStep (commitStatus outcome)) _) _
        cases commitStatus outcome <;> trivial
  · exact fun error after forgets => forgets
  · intro outcome after forgets
    cases commitStatus outcome <;> exact forgets

end Rules
end MbxCache
