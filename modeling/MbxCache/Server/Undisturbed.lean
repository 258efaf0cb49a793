import MbxCache.Concurrent.Alone
import MbxCache.Concurrent.Ending
import MbxCache.Server.Effects

namespace MbxCache

open Concurrent

variable [Protocol] {M : Type} [MetadataStore M] {A B : Type}

theorem exec_clean {choice : Choice} (clean : choice.Clean) (op : Op) (state : ServerState M) :
    exec choice op state =
      match perform choice state op with
      | .ok (after, value) => (after, .ok value)
      | .error failure => (state, .error failure) := by
  have calm : (if op.fallible then choice.fault else .none) = Fault.none := by
    rw [clean.1, ite_self]
  rw [exec, calm]
  generalize perform choice state op = result
  cases result <;> rfl

/-- Forgetting a digest leaves the store without it, also where it fails because the store
cannot be sent the digest. -/
theorem exec_forgetBlob {choice : Choice} (clean : choice.Clean) {state : ServerState M}
    (valid : MetadataStore.valid state.metadata) (ns : String) (digest : Digest) :
    ∃ metadata, (exec choice (.forgetBlob ns digest) state).1 = { state with metadata := metadata } ∧
      MetadataStore.valid metadata ∧
      MetadataStore.view metadata = state.view.forget ns digest := by
  cases forgotten : MetadataStore.forgetBlob state.metadata ns digest with
  | error failure =>
      have performed : perform choice state (.forgetBlob ns digest) = .error failure := by
        simp only [perform, forgotten]
        rfl
      have absent := MetadataStore.forgetBlob_absent valid forgotten
      rw [exec_clean clean, performed]
      exact ⟨state.metadata, rfl, valid, (View.forget_absent absent).symm⟩
  | ok metadata =>
      have performed : perform choice state (.forgetBlob ns digest) =
          .ok ({ state with metadata := metadata }, ()) := by
        simp only [perform, forgotten]
        rfl
      rw [exec_clean clean, performed]
      exact ⟨metadata, rfl, MetadataStore.forgetBlob_answered valid forgotten⟩

def calm (pick : Nat) : Choice := ⟨.none, [], false, false, 0, pick⟩

omit [Protocol] in
theorem calm_clean (pick : Nat) : (calm pick).Clean := ⟨rfl, rfl, rfl⟩

omit [Protocol] in
theorem Job.body_plain (job : Job) : job.body.Plain := by
  cases job with
  | store ns digest bytes =>
      intro put
      cases put with
      | error failure => trivial
      | ok outcome =>
          intro registered
          cases registered <;> trivial
  | read ns digest =>
      intro found
      cases found with
      | error failure => trivial
      | ok found =>
          cases found with
          | none => exact fun _ => trivial
          | some blob =>
              simp only
              split <;> trivial

def undisturbed (M : Type) [MetadataStore M] : Regime (server M) :=
  ⟨Choice.Clean, Choice.Clean, False⟩

theorem undisturbed_lively : (undisturbed M).Lively where
  body := Job.body_plain
  main pick := ⟨calm pick, calm_clean pick, rfl⟩
  task := ⟨calm 0, calm_clean 0⟩

namespace Handler

/-- The handler ends by itself, and its answer is as promised. -/
def Answers (post : Except ApiError A → ServerState M → Prop) (handler : Handler A)
    (state : ServerState M) : Prop :=
  Program.Ends (server M) Choice.Clean post handler state

namespace Answers

variable {handler : Handler A} {post weaker : Except ApiError A → ServerState M → Prop}
  {state : ServerState M}

theorem mono (answers : handler.Answers post state)
    (implied : ∀ result after, post result after → weaker result after) :
    handler.Answers weaker state := Program.Ends.mono answers implied

theorem bind {next : A → Handler B} {final : Except ApiError B → ServerState M → Prop}
    (first : handler.Answers post state)
    (failed : ∀ error after, post (.error error) after → final (.error error) after)
    (rest : ∀ value after, post (.ok value) after → (next value).Answers final after) :
    (handler >>= next).Answers final state := by
  apply Program.Ends.bind first
  intro result after holds
  cases result with
  | error error => exact failed error after holds
  | ok value => exact rest value after holds

theorem and {also : Except ApiError A → ServerState M → Prop} (answers : handler.Answers post state)
    (other : handler.Answers also state) :
    handler.Answers (fun result after => post result after ∧ also result after) state :=
  Program.Ends.and answers other

theorem comes (answers : handler.Answers post state) : ∃ result after, post result after := by
  obtain ⟨_, result, _, holds⟩ := Program.Ends.answers answers (fun _ => calm 0)
    (fun _ => calm_clean 0) []
  exact ⟨result, _, holds⟩

theorem pureStep {result : Except ApiError A} (holds : post result state) :
    (Handler.pureStep result).Answers post state := holds

theorem pure {value : A} (holds : post (.ok value) state) :
    (Pure.pure value : Handler A).Answers post state := holds

theorem refuse {error : ApiError} (holds : post (.error error) state) :
    (Handler.refuse error : Handler A).Answers post state := holds

theorem ask (op : Op) {post : Except ApiError op.Value → ServerState M → Prop}
    (performed : ∀ choice, choice.Clean → ∃ after value,
      perform choice state op = .ok (after, value) ∧ post (.ok value) after) :
    Handler.Answers (A := op.Value) post (.call op Handler.internally) state := by
  intro choice clean
  obtain ⟨after, value, done, holds⟩ := performed choice clean
  change Program.Ends (server M) Choice.Clean post
    (Handler.internally (exec choice op state).2) (exec choice op state).1
  rw [exec_clean clean, done]
  exact holds

theorem refused (op : Op) {post : Except ApiError op.Value → ServerState M → Prop}
    {failure : Failure} (fails : ∀ choice, perform choice state op = .error failure)
    (holds : post (.error (.internal failure)) state) :
    Handler.Answers (A := op.Value) post (.call op Handler.internally) state := by
  intro choice clean
  change Program.Ends (server M) Choice.Clean post
    (Handler.internally (exec choice op state).2) (exec choice op state).1
  rw [exec_clean clean, fails]
  exact holds

end Answers
end Handler

section Rules
variable {ns : String} {state : ServerState M}

theorem visibleBlobs_answers (valid : MetadataStore.valid state.metadata) {digests : List Digest}
    (listed : MetadataStore.lists M ns digests = true) :
    (visibleBlobs ns digests).Answers (fun result after =>
      result = .ok (digests.filter (state.view.visible ns)) ∧ after = state) state := by
  apply Handler.Answers.ask (.visibleBlobs ns digests)
  intro choice _
  refine ⟨state, digests.filter (state.view.visible ns), ?_, rfl, rfl⟩
  change state.look (MetadataStore.visibleBlobs state.metadata ns digests) = _
  rw [MetadataStore.visibleBlobs_view valid listed]
  rfl

theorem visibleBlobs_fails {digests : List Digest}
    (refused : MetadataStore.lists M ns digests = false) :
    (visibleBlobs ns digests).Answers (fun result after =>
      result = .error (.internal .fault) ∧ after = state) state := by
  have fails (choice : Choice) :
      perform choice state (.visibleBlobs ns digests) = .error .fault := by
    simp only [perform, MetadataStore.visibleBlobs_refused refused]
    rfl
  exact Handler.Answers.refused (.visibleBlobs ns digests) fails ⟨rfl, rfl⟩

theorem visibleBlobs_asked (valid : MetadataStore.valid state.metadata) (digests : List Digest) :
    (visibleBlobs ns digests).Answers (fun result after => after = state ∧
      match result with
      | .ok found => found = digests.filter (state.view.visible ns)
      | .error _ => ∃ digest ∈ digests, state.view.visible ns digest = false) state := by
  cases listed : MetadataStore.lists M ns digests with
  | true =>
      apply (visibleBlobs_answers valid listed).mono
      rintro _ _ ⟨rfl, rfl⟩
      exact ⟨rfl, rfl⟩
  | false =>
      apply (visibleBlobs_fails listed).mono
      rintro _ _ ⟨rfl, rfl⟩
      exact ⟨rfl, unlisted_unseen valid listed⟩

theorem isVisible_asked (valid : MetadataStore.valid state.metadata) (digest : Digest) :
    (isVisible ns digest).Answers (fun result after => after = state ∧
      match result with
      | .ok visible => visible = state.view.visible ns digest
      | .error _ => ¬ state.Sees ns digest) state := by
  apply Handler.Answers.bind (visibleBlobs_asked valid [digest])
  · rintro error after ⟨rfl, other, member, unseen⟩
    rw [List.mem_singleton.mp member] at unseen
    exact ⟨rfl, Bool.eq_false_iff.mp unseen⟩
  · rintro found after ⟨rfl, rfl⟩
    refine ⟨rfl, ?_⟩
    change _ = after.view.visible ns digest
    cases held : after.view.visible ns digest <;> simp [held]

theorem isVisible_answers (valid : MetadataStore.valid state.metadata) {digest : Digest}
    (listed : MetadataStore.lists M ns [digest] = true) :
    (isVisible ns digest).Answers (fun result after =>
      result = .ok (state.view.visible ns digest) ∧ after = state) state := by
  apply Handler.Answers.bind (visibleBlobs_answers valid listed)
  · rintro error after ⟨wrong, _⟩
    cases wrong
  · rintro found after ⟨same, rfl⟩
    cases same
    refine ⟨?_, rfl⟩
    cases held : after.view.visible ns digest <;> simp [held]

theorem fetch_answers (digest : Digest) :
    (fetch digest : Handler (Option Blob)).Answers (fun result after => after = state ∧
      ∃ cuts, result = .ok ((state.blobs digest).map fun bytes =>
        ⟨UInt64.ofNat bytes.length, ByteStream.opened bytes cuts false⟩)) state := by
  apply Handler.Answers.ask (.get digest)
  intro choice clean
  refine ⟨state, state.blobs.get digest choice.cuts choice.broken, rfl, rfl, choice.cuts, ?_⟩
  rw [clean.2.1]
  rfl

theorem forgetMissingBlob_answers (valid : MetadataStore.valid state.metadata)
    (digest : Digest) : (forgetMissingBlob ns digest).Answers (fun _ after =>
      after.blobs = state.blobs ∧ MetadataStore.valid after.metadata ∧
        after.view = state.view.forget ns digest) state := by
  intro choice clean
  change Handler.Answers _ (.done (.ok ())) (exec choice (.forgetBlob ns digest) state).1
  obtain ⟨metadata, after, valid', view⟩ := exec_forgetBlob clean valid ns digest
  rw [after]
  exact ⟨rfl, valid', view⟩

omit [Protocol] in
theorem opened_whole (bytes : Bytes) (cuts : List Nat) :
    readStream (ByteStream.opened bytes cuts false) = .ok bytes := by
  simp [readStream, ByteStream.read, ByteStream.opened, ByteStream.split_flatten, Except.mapError]

theorem readVisible_answers (valid : MetadataStore.valid state.metadata) (digest : Digest)
    (missing : ApiError) :
    (readVisible ns digest missing).Answers (fun result after =>
      match result with
      | .ok bytes => after = state ∧ state.Sees ns digest ∧ state.blobs digest = some bytes
      | .error _ => ¬ (state.Sees ns digest ∧ (state.blobs digest).isSome)) state := by
  apply Handler.Answers.bind (isVisible_asked valid digest)
  · rintro error after ⟨_, unseen⟩ present
    exact unseen present.1
  rintro visible after ⟨rfl, rfl⟩
  cases seen : after.view.visible ns digest with
  | false =>
      refine Handler.Answers.refuse fun present => ?_
      rw [ServerState.Sees, seen] at present
      cases present.1
  | true =>
      apply Handler.Answers.bind (fetch_answers digest)
      · rintro error last ⟨_, cuts, wrong⟩
        cases wrong
      rintro found last ⟨rfl, cuts, given⟩
      cases stored : last.blobs digest with
      | none =>
          rw [stored] at given
          cases given
          apply Handler.Answers.bind (forgetMissingBlob_answers valid digest)
          · rintro error _ _ ⟨_, present⟩
            cases present
          · rintro _ _ _ ⟨_, present⟩
            cases present
      | some bytes =>
          rw [stored] at given
          cases given
          refine Handler.Answers.pureStep ?_
          rw [opened_whole]
          exact ⟨rfl, seen, rfl⟩

end Rules
end MbxCache
