import MbxCache.Server.Sharing

namespace MbxCache

open Concurrent

variable [Protocol] {M : Type} [MetadataStore M] {A B : Type}

abbrev Shared (M : Type) [MetadataStore M] := {state : ServerState M // state.Sound}

/-- An allowed operation fails, or answers what it does at that moment. -/
theorem safe_call {ns : String} {op : Op} {next : Except Failure op.Value → Program Api A}
    {post : A → Shared M → Prop} {state : Shared M}
    (allowed : ∀ before : Shared M, ServerState.Grows state.1 before.1 → before.1.Allows ns op)
    (failed : ∀ failure after, (sharing M).Safe ns (next (.error failure)) post after)
    (answered : ∀ choice (before after : Shared M) value, ServerState.Grows state.1 before.1 →
      perform choice before.1 op = .ok (after.1, value) →
      (sharing M).Safe ns (next (.ok value)) post after) :
    (sharing M).Safe ns (.call op next) post state := by
  apply Discipline.Safe.call
  · intro before grows sound
    exact allowed ⟨before, sound⟩ grows
  · intro before after choice grows _ same
    change after.1 = (exec choice op before.1).1 at same
    change (sharing M).Safe ns (next (exec choice op before.1).2) post after
    cases answer : (exec choice op before.1).2 with
    | error failure => exact failed failure after
    | ok value =>
        have performed := exec_value answer
        rw [← same] at performed
        exact answered choice before after value grows performed

namespace Handler

/-- A handler working for a namespace shares the server as it must, and what it gives
back meets a condition. -/
def Ensures (ns : String) (handler : Handler A) (post : A → ServerState M → Prop)
    (state : Shared M) : Prop :=
  (sharing M).Ensures ns handler (fun value state => post value state.1) state

namespace Ensures

variable {ns : String} {handler : Handler A} {post : A → ServerState M → Prop} {state : Shared M}

theorem later (ensures : handler.Ensures ns post state) {after : Shared M}
    (grows : ServerState.Grows state.1 after.1) : handler.Ensures ns post after :=
  Discipline.Ensures.later ensures grows

theorem mono (ensures : handler.Ensures ns post state) {weaker : A → ServerState M → Prop}
    (implied : ∀ value after, post value after → weaker value after) :
    handler.Ensures ns weaker state :=
  Discipline.Ensures.mono ensures fun value after => implied value after.1

theorem remember (ensures : handler.Ensures ns post state) :
    handler.Ensures ns (fun value after => ServerState.Grows state.1 after ∧ post value after)
      state :=
  Logic.Safe.mono (Discipline.Safe.remember ensures) fun _ _ known value same =>
    ⟨known.1, known.2 value same⟩

theorem bind {next : A → Handler B} {post' : B → ServerState M → Prop}
    (first : handler.Ensures ns post state)
    (rest : ∀ value (after : Shared M), ServerState.Grows state.1 after.1 → post value after.1 →
      (next value).Ensures ns post' after) : (handler >>= next).Ensures ns post' state :=
  Discipline.Ensures.bind first rest

theorem pure {value : A}
    (holds : ∀ after : Shared M, ServerState.Grows state.1 after.1 → post value after.1) :
    (Pure.pure value : Handler A).Ensures ns post state := by
  apply Discipline.Ensures.answer
  intro found after same grows
  cases same
  exact holds after grows

theorem refuse {error : ApiError} : (Handler.refuse error : Handler A).Ensures ns post state :=
  Discipline.Ensures.error

theorem pureStep {result : Except ApiError A} :
    (Handler.pureStep result).Ensures ns (fun value _ => result = .ok value) state :=
  Discipline.Ensures.answer fun _ _ same _ => same

theorem check {result : Except ApiError A}
    (holds : ∀ value (after : Shared M), ServerState.Grows state.1 after.1 → result = .ok value →
      post value after.1) : (Handler.pureStep result).Ensures ns post state :=
  Discipline.Ensures.answer fun value after same grows => holds value after grows same

/-- An allowed operation answers what it does at that moment; what holds then and
stays may be concluded from it. -/
theorem ask {op : Op} {post : op.Value → ServerState M → Prop}
    (allowed : ∀ before : Shared M, ServerState.Grows state.1 before.1 →
      before.1.Allows ns op)
    (answers : ∀ choice (before after : Shared M) value, ServerState.Grows state.1 before.1 →
      perform choice before.1 op = .ok (after.1, value) →
      ∀ last : Shared M, ServerState.Grows after.1 last.1 → post value last.1) :
    Handler.Ensures (A := op.Value) ns (.call op Handler.internally) post state := by
  apply safe_call allowed
  · exact fun _ _ => Discipline.Ensures.error
  · intro choice before after value grows performed
    apply Discipline.Ensures.answer
    intro found last same more
    cases same
    exact answers choice before after value grows performed last more

theorem answers (op : Op)
    (allowed : ∀ before : Shared M, ServerState.Grows state.1 before.1 → before.1.Allows ns op) :
    Handler.Ensures (A := op.Value) ns (.call op Handler.internally) (fun _ _ => True) state :=
  ask allowed fun _ _ _ _ _ _ _ _ => trivial

end Ensures
end Handler

section Rules
variable {ns : String} {state : Shared M}

theorem localIo_ensures : localIo.Ensures ns (fun _ _ => True) state :=
  .answers .localIo fun _ _ => trivial

theorem visibleBlobs_ensures (digests : List Digest) :
    (visibleBlobs ns digests).Ensures ns
      (fun found after => found.Sublist digests ∧ ∀ digest ∈ found, after.Sees ns digest)
      state := by
  apply Handler.Ensures.ask
  · exact fun _ _ => rfl
  · intro choice before after found _ performed last grows
    obtain ⟨looked, same⟩ := look_ok performed
    obtain rfl := MetadataStore.visibleBlobs_answered before.2.valid looked
    refine ⟨List.filter_sublist, fun digest member => ?_⟩
    rw [same] at grows
    exact grows.rows ns digest (List.mem_filter.mp member).2

theorem isVisible_ensures (digest : Digest) :
    (isVisible ns digest).Ensures ns (fun visible after => visible = true → after.Sees ns digest)
      state := by
  apply Handler.Ensures.bind (visibleBlobs_ensures [digest])
  intro found after _ seen
  apply Handler.Ensures.pure
  intro last grows visible
  cases found with
  | nil => cases visible
  | cons first rest =>
      have named := seen.1.subset List.mem_cons_self
      rw [List.mem_singleton] at named
      subst named
      exact grows.rows ns first (seen.2 first List.mem_cons_self)

theorem fetch_ensures {digest : Digest} (seen : state.1.Sees ns digest) :
    (fetch digest).Ensures ns
      (fun found after => ∃ bytes cuts broken, after.blobs digest = some bytes ∧
        found = some ⟨UInt64.ofNat bytes.length, .opened bytes cuts broken⟩) state := by
  apply Handler.Ensures.ask
  · exact fun _ grows => grows.rows ns digest seen
  · intro choice before after found grows performed last more
    obtain ⟨bytes, stored⟩ :=
      Option.isSome_iff_exists.mp (before.2.present ns digest (grows.rows ns digest seen))
    obtain ⟨same, answer⟩ := Prod.mk.inj (Except.ok.inj performed)
    rw [← same] at more
    refine ⟨bytes, choice.cuts, choice.broken, more.blobs digest bytes stored, ?_⟩
    rw [← answer, Objects.get, stored]
    rfl

theorem store_ensures {digest : Digest} {bytes : Bytes} (names : digest.Names bytes) :
    (store digest bytes).Ensures ns (fun _ after => (after.blobs digest).isSome) state := by
  apply Handler.Ensures.ask
  · exact fun _ _ => names
  · intro choice before after outcome _ performed last grows
    have put : (before.1.blobs.put digest bytes).1 = after.1.blobs :=
      congrArg ServerState.blobs (Prod.mk.inj (Except.ok.inj performed)).1
    have stored := Objects.put_present before.1.blobs digest bytes
    rw [put] at stored
    exact Option.isSome_iff_exists.mpr ⟨_, grows.blobs digest _ stored⟩

theorem register_ensures {digest : Digest} {stored : PutOutcome}
    (present : (state.1.blobs digest).isSome) :
    (register ns digest stored).Ensures ns (fun _ _ => True) state := by
  apply Handler.Ensures.ask
  · intro before grows
    obtain ⟨bytes, held⟩ := Option.isSome_iff_exists.mp present
    exact ⟨rfl, Option.isSome_iff_exists.mpr ⟨bytes, grows.blobs digest bytes held⟩⟩
  · exact fun _ _ _ _ _ _ _ _ => trivial

theorem acquire_ensures (permits : Nat) :
    (acquire permits).Ensures ns (fun _ _ => True) state := by
  apply safe_call
  · exact fun _ _ => trivial
  · exact fun _ _ => Discipline.Ensures.error
  · intro choice before after granted _ _
    cases granted with
    | true => exact Discipline.Ensures.answer fun _ _ _ _ => trivial
    | false => exact Discipline.Ensures.error

theorem reserve_ensures (config : ServerConfig) (bytes : UInt64) :
    (reserve config bytes).Ensures ns (fun _ _ => True) state := by
  simp only [reserve]
  split
  · exact .pure fun _ _ => trivial
  · split
    · exact .refuse
    · exact acquire_ensures _

end Rules
end MbxCache
