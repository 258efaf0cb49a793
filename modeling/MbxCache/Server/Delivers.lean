import MbxCache.Server.Blame
import MbxCache.Server.Integrity

namespace MbxCache

open Concurrent

variable [Protocol] {M : Type} [MetadataStore M] {A B : Type}

namespace Handler

def OkOrInternal (post : A → ServerState M → Prop) : Except ApiError A → ServerState M → Prop
  | .ok value, state => post value state
  | .error error, _ => error.Internal

/-- A handler working for a namespace gives back what meets a condition, unless something
behind the server fails. -/
def Delivers (ns : String) (handler : Handler A) (post : A → ServerState M → Prop)
    (state : Shared M) : Prop :=
  (sharing M).Safe ns handler (fun result after => OkOrInternal post result after.1) state

namespace Delivers

variable {ns : String} {handler : Handler A} {post : A → ServerState M → Prop} {state : Shared M}

theorem later (delivers : handler.Delivers ns post state) {after : Shared M}
    (grows : ServerState.Grows state.1 after.1) : handler.Delivers ns post after :=
  Discipline.Safe.later delivers grows

theorem mono (delivers : handler.Delivers ns post state) {weaker : A → ServerState M → Prop}
    (implied : ∀ value after, post value after → weaker value after) :
    handler.Delivers ns weaker state := by
  refine Logic.Safe.mono delivers fun result after known => ?_
  cases result with
  | error error => exact known
  | ok value => exact implied value after.1 known

theorem ensures (delivers : handler.Delivers ns post state) : handler.Ensures ns post state := by
  refine Logic.Safe.mono delivers fun result after known value same => ?_
  rw [same] at known
  exact known

theorem bind {next : A → Handler B} {post' : B → ServerState M → Prop}
    (first : handler.Delivers ns post state)
    (rest : ∀ value (after : Shared M), ServerState.Grows state.1 after.1 → post value after.1 →
      (next value).Delivers ns post' after) : (handler >>= next).Delivers ns post' state := by
  apply Discipline.Safe.bind first
  intro result after grows known
  cases result with
  | error error => exact Discipline.Safe.done fun _ _ => known
  | ok value => exact rest value after grows known

theorem pure {value : A}
    (holds : ∀ after : Shared M, ServerState.Grows state.1 after.1 → post value after.1) :
    (Pure.pure value : Handler A).Delivers ns post state := Discipline.Safe.done holds

theorem passes {result : Except ApiError A} (value : A) (passed : result = .ok value)
    (holds : ∀ after : Shared M, ServerState.Grows state.1 after.1 → post value after.1) :
    (Handler.pureStep result).Delivers ns post state := by
  rw [passed]
  exact Discipline.Safe.done holds

theorem ask {op : Op} {post : op.Value → ServerState M → Prop}
    (allowed : ∀ before : Shared M, ServerState.Grows state.1 before.1 → before.1.Allows ns op)
    (answers : ∀ choice (before after : Shared M) value, ServerState.Grows state.1 before.1 →
      perform choice before.1 op = .ok (after.1, value) →
      ∀ last : Shared M, ServerState.Grows after.1 last.1 → post value last.1) :
    Handler.Delivers (A := op.Value) ns (.call op Handler.internally) post state := by
  apply safe_call allowed
  · exact fun failure _ => Discipline.Safe.done fun _ _ => ⟨failure, rfl⟩
  · intro choice before after value grows performed
    exact Discipline.Safe.done fun last more =>
      answers choice before after value grows performed last more

end Delivers
end Handler

section Rules
variable {ns : String} {state : Shared M}

theorem visibleBlobs_delivers (digests : List Digest) :
    (visibleBlobs ns digests).Delivers ns
      (fun found after => found.Sublist digests ∧ (∀ digest ∈ found, after.Sees ns digest) ∧
        ∀ digest ∈ digests, state.1.Sees ns digest → digest ∈ found) state := by
  apply Handler.Delivers.ask
  · exact fun _ _ => rfl
  · intro choice before after found earlier performed last grows
    obtain ⟨looked, same⟩ := look_ok performed
    obtain rfl := MetadataStore.visibleBlobs_answered before.2.valid looked
    rw [same] at grows
    refine ⟨List.filter_sublist, fun digest member => ?_, fun digest member seen => ?_⟩
    · exact grows.rows ns digest (List.mem_filter.mp member).2
    · exact List.mem_filter.mpr ⟨member, earlier.rows ns digest seen⟩

theorem visibleBlobs_all (digests : List Digest)
    (seen : ∀ digest ∈ digests, state.1.Sees ns digest) :
    (visibleBlobs ns digests).Delivers ns (fun found _ => found = digests) state := by
  apply Handler.Delivers.ask
  · exact fun _ _ => rfl
  · intro choice before after found earlier performed last _
    obtain ⟨looked, _⟩ := look_ok performed
    obtain rfl := MetadataStore.visibleBlobs_answered before.2.valid looked
    exact List.filter_eq_self.mpr fun digest member => earlier.rows ns digest (seen digest member)

theorem isVisible_delivers {digest : Digest} (seen : state.1.Sees ns digest) :
    (isVisible ns digest).Delivers ns (fun visible _ => visible = true) state := by
  apply Handler.Delivers.bind (visibleBlobs_all [digest] fun other member => ?_)
  · intro found after _ all
    apply Handler.Delivers.pure
    intro _ _
    rw [all]
    rfl
  · rw [List.mem_singleton.mp member]
    exact seen

def OpensTo (state : ServerState M) (digest : Digest) (blob : Blob) : Prop :=
  ∃ bytes cuts broken, state.blobs digest = some bytes ∧
    blob = ⟨UInt64.ofNat bytes.length, .opened bytes cuts broken⟩

theorem OpensTo.later {before after : ServerState M} {digest : Digest} {blob : Blob}
    (opens : OpensTo before digest blob) (grows : ServerState.Grows before after) :
    OpensTo after digest blob := by
  obtain ⟨bytes, cuts, broken, stored, same⟩ := opens
  exact ⟨bytes, cuts, broken, grows.blobs digest bytes stored, same⟩

theorem perform_get {digest : Digest} {choice : Choice} {before after : Shared M}
    {found : Option Blob} (seen : before.1.Sees ns digest)
    (performed : perform choice before.1 (.get digest) = .ok (after.1, found)) :
    ∃ blob, found = some blob ∧ OpensTo after.1 digest blob := by
  obtain ⟨bytes, stored⟩ := Option.isSome_iff_exists.mp (before.2.present ns digest seen)
  obtain ⟨same, answer⟩ := Prod.mk.inj (Except.ok.inj performed)
  refine ⟨_, ?_, bytes, choice.cuts, choice.broken, ?_, rfl⟩
  · rw [← answer, Objects.get, stored]
    rfl
  · rw [← same]
    exact stored

theorem fetch_delivers {digest : Digest} (seen : state.1.Sees ns digest) :
    (fetch digest).Delivers ns
      (fun found after => ∃ blob, found = some blob ∧ OpensTo after digest blob) state := by
  apply Handler.Delivers.ask
  · exact fun _ grows => grows.rows ns digest seen
  · intro choice before after found grows performed last more
    obtain ⟨blob, given, opens⟩ := perform_get (grows.rows ns digest seen) performed
    exact ⟨blob, given, opens.later more⟩

theorem readVisible_delivers {digest : Digest} (missing : ApiError) {bytes : Bytes}
    (seen : state.1.Sees ns digest) (stored : state.1.blobs digest = some bytes) :
    (readVisible ns digest missing).Delivers ns (fun found _ => found = bytes) state := by
  apply Handler.Delivers.bind (isVisible_delivers seen)
  rintro visible shown grows rfl
  apply Handler.Delivers.bind (fetch_delivers (grows.rows ns digest seen))
  rintro found after more ⟨blob, rfl, content, cuts, broken, held, rfl⟩
  have same := (grows.trans more).blobs digest bytes stored
  rw [held] at same
  cases same
  cases broken with
  | true => exact Discipline.Safe.done fun _ _ => ⟨.fault, rfl⟩
  | false =>
      refine Handler.Delivers.passes bytes ?_ fun _ _ => rfl
      simp [readStream, ByteStream.read, ByteStream.opened, ByteStream.split_flatten,
        Except.mapError]

theorem registered_sees {digest : Digest} {stored : PutOutcome} {choice : Choice}
    {before after : ServerState M} {value : Unit} (valid : MetadataStore.valid before.metadata)
    (performed : perform choice before (.registerBlob ns digest stored) = .ok (after, value)) :
    after.Sees ns digest := by
  have view : after.view = before.view.register ns digest :=
    congrArg Prod.snd (perform_effect valid performed).2
  rw [ServerState.Sees, view]
  simp [View.register, View.assign]

end Rules
end MbxCache
