import MbxCache.Server.Published

namespace MbxCache

open Concurrent

variable [Protocol] {M : Type} [MetadataStore M]

abbrev Working (M : Type) [MetadataStore M] :=
  {state : ServerState M // MetadataStore.valid state.metadata}

section Operations
variable {state after : ServerState M} {choice : Choice}

/-- How an operation can go: it fails without effect, or it is carried out, and its
answer may be lost even then. -/
inductive Executed {α : Type} (state : ServerState M)
    (result : Except Failure (ServerState M × α)) : ServerState M × Except Failure α → Prop
  | skipped (failure : Failure) : Executed state result (state, .error failure)
  | lost (after : ServerState M) (value : α) (failure : Failure)
      (performed : result = .ok (after, value)) : Executed state result (after, .error failure)
  | answered (after : ServerState M) (value : α) (performed : result = .ok (after, value)) :
      Executed state result (after, .ok value)

theorem exec_executed (choice : Choice) (op : Op) (state : ServerState M) :
    Executed state (perform choice state op) (exec choice op state) := by
  unfold exec attempt
  split
  · exact .skipped _
  · exact .skipped _
  · rename_i performed
    exact .lost _ _ _ performed
  · rename_i performed
    exact .answered _ _ performed

theorem exec_state (choice : Choice) (op : Op) (state : ServerState M) :
    (exec choice op state).1 = state ∨ ∃ after value,
      perform choice state op = .ok (after, value) ∧ (exec choice op state).1 = after := by
  have executed := exec_executed choice op state
  generalize exec choice op state = outcome at *
  cases executed with
  | skipped failure => exact .inl rfl
  | lost after value failure performed => exact .inr ⟨after, value, performed, rfl⟩
  | answered after value performed => exact .inr ⟨after, value, performed, rfl⟩

theorem exec_value {op : Op} {value : op.Value} {state : ServerState M}
    (answered : (exec choice op state).2 = .ok value) :
    perform choice state op = .ok ((exec choice op state).1, value) := by
  have executed := exec_executed choice op state
  generalize exec choice op state = outcome at *
  cases executed with
  | skipped failure => cases answered
  | lost after found failure performed => cases answered
  | answered after found performed =>
      cases answered
      exact performed

omit [Protocol] [MetadataStore M] in
theorem write_ok {α : Type} {result : Except Failure (M × α)} {value : α}
    (written : state.write result = .ok (after, value)) :
    ∃ metadata, result = .ok (metadata, value) ∧ after = { state with metadata := metadata } := by
  unfold ServerState.write at written
  cases result with
  | error failure => cases written
  | ok pair =>
      cases written
      exact ⟨_, rfl, rfl⟩

omit [Protocol] [MetadataStore M] in
theorem look_ok {α : Type} {result : Except Failure α} {value : α}
    (looked : state.look result = .ok (after, value)) : result = .ok value ∧ after = state := by
  unfold ServerState.look at looked
  cases result with
  | error failure => cases looked
  | ok found =>
      cases looked
      exact ⟨rfl, rfl⟩

theorem exec_visibleBlobs (choice : Choice) (ns : String) (digests : List Digest)
    (state : ServerState M) : (exec choice (.visibleBlobs ns digests) state).1 = state := by
  rcases exec_state choice (.visibleBlobs ns digests) state with same | ⟨_, _, performed, same⟩
  · exact same
  · rw [same]
    exact (look_ok performed).2

end Operations

/-- What an operation makes of the objects and of what the metadata shows, once it is
carried out. -/
def Op.effect (op : Op) (blobs : Objects) (view : View) : Objects × View :=
  match op with
  | .put digest bytes => ((blobs.put digest bytes).1, view)
  | .registerBlob ns digest _ => (blobs, view.register ns digest)
  | .forgetBlob ns digest => (blobs, view.forget ns digest)
  | .commit ns action result => (blobs, (view.commit ns action result).1)
  | .commitManifest ns key expected record =>
      (blobs, (view.commitManifest ns key expected record).1)
  | _ => (blobs, view)

def ServerState.shown (state : ServerState M) : Objects × View := (state.blobs, state.view)

theorem perform_effect {choice : Choice} {state after : ServerState M} {op : Op}
    {value : op.Value} (valid : MetadataStore.valid state.metadata)
    (performed : perform choice state op = .ok (after, value)) :
    MetadataStore.valid after.metadata ∧ after.shown = op.effect state.blobs state.view := by
  cases op with
  | localIo =>
      cases performed
      exact ⟨valid, rfl⟩
  | acquire permits =>
      cases performed
      exact ⟨valid, rfl⟩
  | get digest =>
      cases performed
      exact ⟨valid, rfl⟩
  | put digest bytes =>
      cases performed
      exact ⟨valid, rfl⟩
  | visibleBlobs ns digests =>
      obtain ⟨_, rfl⟩ := look_ok performed
      exact ⟨valid, rfl⟩
  | getResult ns action =>
      obtain ⟨_, rfl⟩ := look_ok performed
      exact ⟨valid, rfl⟩
  | getBatch ns actions =>
      obtain ⟨_, rfl⟩ := look_ok performed
      exact ⟨valid, rfl⟩
  | resolve ns action result =>
      obtain ⟨_, rfl⟩ := look_ok performed
      exact ⟨valid, rfl⟩
  | getManifest ns key =>
      obtain ⟨_, rfl⟩ := look_ok performed
      exact ⟨valid, rfl⟩
  | registerBlob ns digest stored =>
      obtain ⟨metadata, written, rfl⟩ := write_ok performed
      cases fits : MetadataStore.representsBlob M ns digest with
      | false =>
          rw [MetadataStore.registerBlob_refused _ _ _ _ _ fits] at written
          cases written
      | true =>
          obtain ⟨after, done, valid', view⟩ :=
            MetadataStore.registerBlob_view choice.now ns digest stored valid fits
          rw [done] at written
          cases written
          exact ⟨valid', congrArg (Prod.mk state.blobs) view⟩
  | forgetBlob ns digest =>
      obtain ⟨metadata, written, rfl⟩ := write_ok performed
      cases forgotten : MetadataStore.forgetBlob state.metadata ns digest with
      | error failure =>
          rw [forgotten] at written
          cases written
      | ok after =>
          rw [forgotten] at written
          cases written
          obtain ⟨valid', view⟩ := MetadataStore.forgetBlob_answered valid forgotten
          exact ⟨valid', congrArg (Prod.mk state.blobs) view⟩
  | commit ns action result =>
      obtain ⟨metadata, written, rfl⟩ := write_ok performed
      cases fits : MetadataStore.representsResult M ns action result with
      | false =>
          rw [MetadataStore.commit_refused _ _ _ _ _ fits] at written
          cases written
      | true =>
          obtain ⟨after, done, valid', view⟩ :=
            MetadataStore.commit_view choice.now ns action result valid fits
          rw [done] at written
          cases written
          exact ⟨valid', congrArg (Prod.mk state.blobs) view⟩
  | commitManifest ns key expected record =>
      obtain ⟨metadata, written, rfl⟩ := write_ok performed
      cases fits : MetadataStore.representsManifest M ns key expected record with
      | false =>
          rw [MetadataStore.commitManifest_refused _ _ _ _ _ _ fits] at written
          cases written
      | true =>
          obtain ⟨after, done, valid', view⟩ :=
            MetadataStore.commitManifest_view choice.now ns key expected record valid fits
          rw [done] at written
          cases written
          exact ⟨valid', congrArg (Prod.mk state.blobs) view⟩

/-- An operation has its effect or none. -/
theorem exec_effect (choice : Choice) (op : Op) {state : ServerState M}
    (valid : MetadataStore.valid state.metadata) :
    MetadataStore.valid (exec choice op state).1.metadata ∧
      ((exec choice op state).1.shown = state.shown ∨
        (exec choice op state).1.shown = op.effect state.blobs state.view) := by
  rcases exec_state choice op state with same | ⟨after, value, performed, same⟩
  · rw [same]
    exact ⟨valid, .inl rfl⟩
  · rw [same]
    obtain ⟨valid', effect⟩ := perform_effect valid performed
    exact ⟨valid', .inr effect⟩

end MbxCache
