import MbxCache.Server.Effects

namespace MbxCache

open Concurrent

variable [Protocol] {M : Type} [MetadataStore M]

namespace ServerState

/-- What holds of the shared state at every moment: objects are what their digests
name, a row has its object, and a result is published with all it refers to. -/
structure Sound (state : ServerState M) : Prop where
  valid : MetadataStore.valid state.metadata
  named : ∀ digest bytes, state.blobs digest = some bytes → digest.Names bytes
  present : ∀ ns digest, state.Sees ns digest → (state.blobs digest).isSome
  closed : ∀ ns action result, state.view.result ns action = some result →
    ∃ kind, state.Published ns action kind result

theorem Sound.initial : (ServerState.initial M).Sound where
  valid := MetadataStore.empty_valid
  named _ _ present := by cases present
  present ns digest seen := by
    simp [Sees, ServerState.view, ServerState.initial, freshStore, MetadataStore.empty_view,
      View.empty] at seen
  closed ns action result held := by
    simp [ServerState.view, ServerState.initial, freshStore, MetadataStore.empty_view,
      View.empty] at held

def Allows (ns : String) (state : ServerState M) : Op → Prop
  | .localIo | .acquire _ => True
  | .get digest => state.Sees ns digest
  | .put digest bytes => digest.Names bytes
  | .registerBlob other digest _ => other = ns ∧ (state.blobs digest).isSome
  | .forgetBlob _ _ => False
  | .commit other action result => other = ns ∧ ∃ kind, state.Published ns action kind result
  | .visibleBlobs other _ | .getResult other _ | .getBatch other _ | .resolve other _ _
  | .getManifest other _ | .commitManifest other _ _ _ => other = ns

def Starts (ns : String) (state : ServerState M) : Job → Prop
  | .store other digest bytes => other = ns ∧ digest.Names bytes
  | .read other digest => other = ns ∧ state.Sees ns digest

end ServerState

namespace ServerState

variable {state after : ServerState M} {choice : Choice} {ns : String}

theorem Sound.rewrite (sound : state.Sound) {metadata : M}
    (valid : MetadataStore.valid metadata)
    (rows : ∀ ns digest, state.Sees ns digest →
      (MetadataStore.view metadata).visible ns digest = true)
    (results : ∀ ns action result, state.view.result ns action = some result →
      (MetadataStore.view metadata).result ns action = some result)
    (present : ∀ ns digest, (MetadataStore.view metadata).visible ns digest = true →
      (state.blobs digest).isSome)
    (closed : ∀ ns action result, (MetadataStore.view metadata).result ns action = some result →
      ∃ kind, state.Published ns action kind result) :
    Sound { state with metadata := metadata } ∧ Grows state { state with metadata := metadata } := by
  have grows : Grows state { state with metadata := metadata } := ⟨.refl _, rows, results⟩
  refine ⟨⟨valid, sound.named, present, ?_⟩, grows⟩
  intro ns action result held
  obtain ⟨kind, published⟩ := closed ns action result held
  exact ⟨kind, published.later grows⟩

theorem Sound.put (sound : state.Sound) {digest : Digest} {bytes : Bytes}
    (names : digest.Names bytes) :
    Sound { state with blobs := (state.blobs.put digest bytes).1 } ∧
      Grows state { state with blobs := (state.blobs.put digest bytes).1 } := by
  have grows : Grows state { state with blobs := (state.blobs.put digest bytes).1 } :=
    ⟨Objects.put_within _ _ _, fun _ _ seen => seen, fun _ _ _ held => held⟩
  refine ⟨⟨sound.valid, ?_, ?_, ?_⟩, grows⟩
  · intro other content present
    rcases Objects.put_cases present with held | ⟨rfl, rfl⟩
    · exact sound.named other content held
    · exact names
  · intro ns other seen
    obtain ⟨content, held⟩ := Option.isSome_iff_exists.mp (sound.present ns other seen)
    exact Option.isSome_iff_exists.mpr ⟨content, grows.blobs other content held⟩
  · intro ns action result held
    obtain ⟨kind, published⟩ := sound.closed ns action result held
    exact ⟨kind, published.later grows⟩

theorem Sound.register (sound : state.Sound) {digest : Digest} {metadata : M}
    (valid : MetadataStore.valid metadata)
    (seen : MetadataStore.view metadata = state.view.register ns digest)
    (present : (state.blobs digest).isSome) :
    Sound { state with metadata := metadata } ∧ Grows state { state with metadata := metadata } := by
  apply sound.rewrite valid
  · intro other key visible
    rw [seen]
    simp only [View.register, View.assign]
    split
    · rfl
    · exact visible
  · intro other action result held
    rw [seen]
    exact held
  · intro other key visible
    rw [seen] at visible
    simp only [View.register, View.assign] at visible
    split at visible
    · rename_i same
      rw [same.2]
      exact present
    · exact sound.present other key visible
  · intro other action result held
    rw [seen] at held
    exact sound.closed other action result held

theorem Sound.commit (sound : state.Sound) {action : Digest} {result : ActionResult}
    {kind : ActionKind} {metadata : M} (valid : MetadataStore.valid metadata)
    (seen : MetadataStore.view metadata = (state.view.commit ns action result).1)
    (published : state.Published ns action kind result) :
    Sound { state with metadata := metadata } ∧ Grows state { state with metadata := metadata } := by
  cases stored : state.view.result ns action with
  | some existing =>
      have same : MetadataStore.view metadata = state.view := by
        rw [seen, View.commit, stored]
      apply sound.rewrite valid <;> rw [same]
      · exact fun _ _ visible => visible
      · exact fun _ _ _ held => held
      · exact sound.present
      · exact sound.closed
  | none =>
      have set : MetadataStore.view metadata = state.view.setResult ns action result := by
        rw [seen, View.commit, stored]
      apply sound.rewrite valid <;> rw [set]
      · exact fun _ _ visible => visible
      · intro other key other_result held
        simp only [View.setResult, View.assign]
        split
        · rename_i same
          rw [same.1, same.2, stored] at held
          cases held
        · exact held
      · exact sound.present
      · intro other key other_result held
        simp only [View.setResult, View.assign] at held
        split at held
        · rename_i same
          cases held
          exact ⟨kind, by rw [same.1, same.2]; exact published⟩
        · exact sound.closed other key other_result held

theorem Sound.commitManifest (sound : state.Sound) {key : Digest} {expected : Option String}
    {record : ManifestRecord} {metadata : M} (valid : MetadataStore.valid metadata)
    (seen : MetadataStore.view metadata = (state.view.commitManifest ns key expected record).1) :
    Sound { state with metadata := metadata } ∧ Grows state { state with metadata := metadata } := by
  have kept : (MetadataStore.view metadata).visible = state.view.visible ∧
      (MetadataStore.view metadata).result = state.view.result := by
    rw [seen]
    unfold View.commitManifest
    split <;> exact ⟨rfl, rfl⟩
  apply sound.rewrite valid
  · intro other digest visible
    rw [kept.1]
    exact visible
  · intro other action result held
    rw [kept.2]
    exact held
  · intro other digest visible
    rw [kept.1] at visible
    exact sound.present other digest visible
  · intro other action result held
    rw [kept.2] at held
    exact sound.closed other action result held

/-- An allowed operation that is carried out keeps the state sound, and only adds. -/
theorem Sound.perform (sound : state.Sound) {op : Op} {value : op.Value}
    (allowed : state.Allows ns op) (performed : perform choice state op = .ok (after, value)) :
    after.Sound ∧ Grows state after := by
  obtain ⟨valid, effect⟩ := perform_effect sound.valid performed
  obtain ⟨blobs, metadata⟩ := after
  have kept : blobs = (op.effect state.blobs state.view).1 := congrArg Prod.fst effect
  have seen : MetadataStore.view metadata = (op.effect state.blobs state.view).2 :=
    congrArg Prod.snd effect
  have looked : blobs = state.blobs → MetadataStore.view metadata = state.view →
      Sound ⟨blobs, metadata⟩ ∧ Grows state ⟨blobs, metadata⟩ := by
    rintro rfl same
    apply sound.rewrite valid <;> rw [same]
    · exact fun _ _ visible => visible
    · exact fun _ _ _ held => held
    · exact sound.present
    · exact sound.closed
  cases op with
  | put digest bytes =>
      cases performed
      exact sound.put allowed
  | registerBlob other digest stored =>
      subst kept
      exact sound.register valid seen allowed.2
  | forgetBlob other digest => exact absurd allowed id
  | commit other action result =>
      subst kept
      obtain ⟨rfl, kind, published⟩ := allowed
      exact sound.commit valid seen published
  | commitManifest other key expected record =>
      subst kept
      exact sound.commitManifest valid seen
  | localIo => exact looked kept seen
  | acquire permits => exact looked kept seen
  | get digest => exact looked kept seen
  | visibleBlobs other digests => exact looked kept seen
  | getResult other action => exact looked kept seen
  | getBatch other actions => exact looked kept seen
  | resolve other action result => exact looked kept seen
  | getManifest other key => exact looked kept seen

end ServerState

def sharing (M : Type) [MetadataStore M] : Discipline (server M) String where
  Inv state := ServerState.Sound state
  Rely before after := ServerState.Grows before after
  Allowed ns op state := ServerState.Allows ns state op
  Starts ns job state := ServerState.Starts ns state job
  refl := ServerState.Grows.refl
  trans one other := one.trans other
  sound {ns op state} choice sound allowed := by
    rcases exec_state choice op state with same | ⟨after, value, performed, same⟩
    · exact ⟨(congrArg ServerState.Sound same).mpr sound,
        (congrArg (ServerState.Grows state) same).mpr (.refl state)⟩
    · obtain ⟨still, grows⟩ := ServerState.Sound.perform sound allowed performed
      exact ⟨(congrArg ServerState.Sound same).mpr still,
        (congrArg (ServerState.Grows state) same).mpr grows⟩

end MbxCache
