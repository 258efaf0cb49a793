import MbxCache.Server.Integrity
import MbxCache.Server.Likeness

namespace MbxCache

open Concurrent

variable [Protocol] {M : Type} [MetadataStore M]

structure OwnRows where
  visible : Digest → Bool
  result : Digest → Option ActionResult
  manifest : Digest → Option ManifestRecord

def View.own (view : View) (ns : String) : OwnRows :=
  ⟨view.visible ns, view.result ns, view.manifest ns⟩

section Rows
variable {ns : String} {view view' : View}

omit [Protocol] in
theorem own_assign {α : Type} {table table' : String → Digest → α} (same : table ns = table' ns)
    (digest : Digest) (value : α) :
    View.assign table ns digest value ns = View.assign table' ns digest value ns := by
  funext key
  unfold View.assign
  rw [same]

omit [Protocol] in
theorem own_assign_other {α : Type} (table : String → Digest → α) {other : String}
    (different : other ≠ ns) (digest : Digest) (value : α) :
    View.assign table other digest value ns = table ns := by
  funext key
  exact View.assign_other table value fun same => different same.1.symm

theorem Op.effect_own {op : Op} {state : ServerState M} (allowed : state.Allows ns op)
    {blobs blobs' : Objects} (same : view.own ns = view'.own ns) :
    (op.effect blobs view).2.own ns = (op.effect blobs' view').2.own ns := by
  have visible : view.visible ns = view'.visible ns := congrArg OwnRows.visible same
  have result : view.result ns = view'.result ns := congrArg OwnRows.result same
  have manifest : view.manifest ns = view'.manifest ns := congrArg OwnRows.manifest same
  cases op with
  | registerBlob other digest stored =>
      obtain ⟨rfl, _⟩ := allowed
      simp only [effect, View.own, View.register, own_assign visible, result, manifest]
  | forgetBlob other digest => exact absurd allowed id
  | commit other action committed =>
      obtain ⟨rfl, _⟩ := allowed
      simp only [effect, View.commit, result]
      cases view'.result other action with
      | none => simp only [View.own, View.setResult, own_assign result, visible, manifest]
      | some held => exact same
  | commitManifest other key expected record =>
      cases allowed
      simp only [effect, View.commitManifest, manifest]
      split
      · simp only [View.own, View.setManifest, own_assign manifest, visible, result]
      · exact same
  | _ => exact same

theorem Op.effect_other {op : Op} {state : ServerState M} {other : String}
    (allowed : state.Allows other op) (different : other ≠ ns) (blobs : Objects) (view : View) :
    (op.effect blobs view).2.own ns = view.own ns := by
  cases op with
  | registerBlob author digest stored =>
      obtain ⟨rfl, _⟩ := allowed
      simp only [effect, View.own, View.register, own_assign_other _ different]
  | forgetBlob author digest => exact absurd allowed id
  | commit author action committed =>
      obtain ⟨rfl, _⟩ := allowed
      simp only [effect, View.commit]
      cases view.result author action with
      | none => simp only [View.own, View.setResult, own_assign_other _ different]
      | some held => rfl
  | commitManifest author key expected record =>
      cases allowed
      simp only [effect, View.commitManifest]
      split
      · simp only [View.own, View.setManifest, own_assign_other _ different]
      · rfl
  | _ => rfl

omit [Protocol] in
theorem commitStep_own {defers : Bool} {action : Digest} {result : ActionResult}
    (same : view.result ns = view'.result ns) :
    view.commitStep defers ns action result = view'.commitStep defers ns action result := by
  unfold View.commitStep View.commit
  rw [same]
  cases view'.result ns action <;> rfl

omit [Protocol] in
theorem commitManifest_own {key : Digest} {expected : Option String} {record : ManifestRecord}
    (same : view.manifest ns = view'.manifest ns) :
    (view.commitManifest ns key expected record).2 =
      (view'.commitManifest ns key expected record).2 := by
  unfold View.commitManifest
  rw [same]
  split <;> rfl

end Rows

section Operations
variable {ns : String} {state state' : ServerState M} {choice choice' : Choice}

def ServerState.own (state : ServerState M) (ns : String) : OwnRows := state.view.own ns

theorem exec_other {op : Op} {other : String} (sound : state.Sound)
    (allowed : state.Allows other op) (different : other ≠ ns) :
    (exec choice op state).1.own ns = state.own ns := by
  rcases (exec_effect choice op sound.valid).2 with same | effect
  · exact congrArg (fun shown => shown.2.own ns) same
  · exact (congrArg (fun shown => shown.2.own ns) effect).trans
      (Op.effect_other allowed different _ _)

/-- Objects stored in both servers under one digest are the same. -/
def ServerState.Meets (state state' : ServerState M) : Prop :=
  ∀ digest bytes bytes', state.blobs digest = some bytes → state'.blobs digest = some bytes' →
    bytes = bytes'

inductive PerformedAlike (op op' : Op) : Except Failure (ServerState M × op.Value) →
    Except Failure (ServerState M × op'.Value) → Prop
  | done {after after' : ServerState M} {value : op.Value} {value' : op'.Value}
      (told : Op.Told op op' (.ok value) (.ok value')) :
      PerformedAlike op op' (.ok (after, value)) (.ok (after', value'))
  | refused {failure : Failure} (told : Op.Told op op' (.error failure) (.error failure)) :
      PerformedAlike op op' (.error failure) (.error failure)

omit [Protocol] [MetadataStore M] in
theorem looks_alike {op : Op} {result : Except Failure op.Value}
    (plain : ∀ digest, op ≠ .get digest) :
    PerformedAlike op op (state.look result) (state'.look result) := by
  cases result with
  | error failure => exact .refused (.same op plain _)
  | ok value => exact .done (.same op plain _)

variable (sound : state.Sound) (sound' : state'.Sound)
include sound sound'

theorem register_performed (digest : Digest) (stored stored' : PutOutcome) :
    PerformedAlike (.registerBlob ns digest stored) (.registerBlob ns digest stored')
      (perform choice state (.registerBlob ns digest stored))
      (perform choice' state' (.registerBlob ns digest stored')) := by
  cases fits : MetadataStore.representsBlob M ns digest with
  | false =>
      simp only [perform, MetadataStore.registerBlob_refused _ _ _ _ _ fits]
      exact .refused (.registered ns digest stored stored' _)
  | true =>
      obtain ⟨after, done, _⟩ :=
        MetadataStore.registerBlob_view choice.now ns digest stored sound.valid fits
      obtain ⟨after', done', _⟩ :=
        MetadataStore.registerBlob_view choice'.now ns digest stored' sound'.valid fits
      simp only [perform, done, done']
      exact .done (.registered ns digest stored stored' _)

theorem performed_alike (same : state.own ns = state'.own ns) (meets : state.Meets state')
    (clean : choice.Clean) (clean' : choice'.Clean) {op op' : Op} (alike : op.Alike op')
    (allowed : state.Allows ns op) (allowed' : state'.Allows ns op') :
    PerformedAlike op op' (perform choice state op) (perform choice' state' op') := by
  have visible : (MetadataStore.view state.metadata).visible ns =
      (MetadataStore.view state'.metadata).visible ns := congrArg OwnRows.visible same
  have result : (MetadataStore.view state.metadata).result ns =
      (MetadataStore.view state'.metadata).result ns := congrArg OwnRows.result same
  have manifest : (MetadataStore.view state.metadata).manifest ns =
      (MetadataStore.view state'.metadata).manifest ns := congrArg OwnRows.manifest same
  cases alike with
  | register other digest stored stored' =>
      obtain ⟨rfl, _⟩ := allowed
      exact register_performed sound sound' digest stored stored'
  | same op =>
      cases op with
      | localIo => exact .done (.same _ (by simp) _)
      | acquire permits =>
          simp only [perform, clean.2.2, clean'.2.2]
          exact .done (.same _ (by simp) _)
      | get digest =>
          obtain ⟨bytes, stored⟩ := Option.isSome_iff_exists.mp (sound.present ns digest allowed)
          obtain ⟨bytes', stored'⟩ :=
            Option.isSome_iff_exists.mp (sound'.present ns digest allowed')
          obtain rfl := meets digest bytes bytes' stored stored'
          have small : bytes.length < 2 ^ 64 := by
            rw [(sound.named digest bytes stored).1]
            exact digest.size.toNat_lt
          simp only [perform, Objects.get, stored, stored', Option.map_some, clean.2.1, clean'.2.1]
          exact .done (.got digest (.some (.opened bytes small choice.cuts choice'.cuts)))
      | put digest bytes => exact .done (.put digest bytes _ _)
      | visibleBlobs other digests =>
          cases allowed
          cases listed : MetadataStore.lists M ns digests with
          | false =>
              simp only [perform, MetadataStore.visibleBlobs_refused listed]
              exact .refused (.same _ (by simp) _)
          | true =>
              simp only [perform, MetadataStore.visibleBlobs_view sound.valid listed,
                MetadataStore.visibleBlobs_view sound'.valid listed]
              rw [visible]
              exact looks_alike (by simp)
      | registerBlob other digest stored =>
          obtain ⟨rfl, _⟩ := allowed
          exact register_performed sound sound' digest stored stored
      | forgetBlob other digest => exact absurd allowed id
      | getResult other action =>
          cases allowed
          cases named : MetadataStore.names M ns action with
          | false =>
              simp only [perform, MetadataStore.get_refused named]
              exact .refused (.same _ (by simp) _)
          | true =>
              simp only [perform, MetadataStore.get_view sound.valid named,
                MetadataStore.get_view sound'.valid named]
              rw [result]
              exact looks_alike (by simp)
      | getBatch other actions =>
          cases allowed
          cases listed : MetadataStore.lists M ns actions with
          | false =>
              simp only [perform, MetadataStore.getBatch_refused listed]
              exact .refused (.same _ (by simp) _)
          | true =>
              simp only [perform, MetadataStore.getBatch_view sound.valid listed,
                MetadataStore.getBatch_view sound'.valid listed]
              rw [result]
              exact looks_alike (by simp)
      | commit other action committed =>
          obtain ⟨rfl, _⟩ := allowed
          cases fits : MetadataStore.representsResult M other action committed with
          | false =>
              simp only [perform, MetadataStore.commit_refused _ _ _ _ _ fits]
              exact .refused (.same _ (by simp) _)
          | true =>
              obtain ⟨after, done, _⟩ :=
                MetadataStore.commit_view choice.now other action committed sound.valid fits
              obtain ⟨after', done', _⟩ :=
                MetadataStore.commit_view choice'.now other action committed sound'.valid fits
              simp only [perform, done, done', commitStep_own result]
              exact .done (.same _ (by simp) _)
      | resolve other action committed =>
          cases allowed
          simp only [perform, MetadataStore.resolve_view _ _ _ sound.valid,
            MetadataStore.resolve_view _ _ _ sound'.valid]
          rw [result]
          exact looks_alike (by simp)
      | getManifest other key =>
          cases allowed
          cases named : MetadataStore.names M ns key with
          | false =>
              simp only [perform, MetadataStore.getManifest_refused named]
              exact .refused (.same _ (by simp) _)
          | true =>
              simp only [perform, MetadataStore.getManifest_view sound.valid named,
                MetadataStore.getManifest_view sound'.valid named]
              rw [manifest]
              exact looks_alike (by simp)
      | commitManifest other key expected record =>
          cases allowed
          cases fits : MetadataStore.representsManifest M ns key expected record with
          | false =>
              simp only [perform, MetadataStore.commitManifest_refused _ _ _ _ _ _ fits]
              exact .refused (.same _ (by simp) _)
          | true =>
              obtain ⟨after, done, _⟩ := MetadataStore.commitManifest_view choice.now ns key
                expected record sound.valid fits
              obtain ⟨after', done', _⟩ := MetadataStore.commitManifest_view choice'.now ns key
                expected record sound'.valid fits
              simp only [perform, done, done', commitManifest_own manifest]
              exact .done (.same _ (by simp) _)

theorem exec_alike (same : state.own ns = state'.own ns) (meets : state.Meets state')
    (clean : choice.Clean) (clean' : choice'.Clean) {op op' : Op} (alike : op.Alike op')
    (allowed : state.Allows ns op) (allowed' : state'.Allows ns op') :
    (exec choice op state).1.own ns = (exec choice' op' state').1.own ns ∧
      Op.Told op op' (exec choice op state).2 (exec choice' op' state').2 := by
  have performed := performed_alike sound sound' same meets clean clean' alike allowed allowed'
  rw [exec_clean clean, exec_clean clean']
  generalize done : perform choice state op = result,
    done' : perform choice' state' op' = result' at performed
  cases performed with
  | refused told => exact ⟨same, told⟩
  | @done after after' value value' told =>
      refine ⟨?_, told⟩
      have effect := (perform_effect sound.valid done).2
      have effect' := (perform_effect sound'.valid done').2
      calc after.own ns
        _ = (op.effect state.blobs state.view).2.own ns :=
          congrArg (fun shown => shown.2.own ns) effect
        _ = (op'.effect state'.blobs state'.view).2.own ns := by
          cases alike with
          | same op => exact Op.effect_own allowed same
          | register other digest stored stored' => exact Op.effect_own allowed same
        _ = after'.own ns := (congrArg (fun shown => shown.2.own ns) effect').symm

end Operations

def lockstep : Pairing := ⟨fun _ => True, Eq, fun _ _ id id' => id = id'⟩

omit [Protocol] in
theorem lockstep_serves : lockstep.Serves := ⟨fun _ _ => trivial, fun _ => rfl⟩

omit [Protocol] in
theorem lockstep_gathers : lockstep.Gathers where
  stores _ _ _ := trivial
  length same := congrArg List.length same
  none := rfl
  started _ same := same ▸ rfl
  taken same taken := same ▸ taken ▸ rfl

def Choice.Alike (choice choice' : Choice) : Prop :=
  choice.Clean ∧ choice'.Clean ∧ choice.pick = choice'.pick

def outlook (M : Type) [MetadataStore M] (ns : String) : Perspective (sharing M) ns where
  Sight := OwnRows
  sight state := ServerState.own state ns
  Meets := ServerState.Meets
  sooner grows grows' meets digest bytes bytes' stored stored' :=
    meets digest bytes bytes' (grows.blobs digest bytes stored) (grows'.blobs digest bytes' stored')
  outside _ sound allowed different := exec_other sound allowed different

def isolation (M : Type) [MetadataStore M] (ns : String) :
    Coupling (sharing M) (likeness lockstep) ns where
  toPerspective := outlook M ns
  Choices := Choice.Alike
  picks alike := alike.2.2
  waits same := same
  takes _ := rfl
  detached same := congrArg _ same.1
  bodies {job _} same := same.1 ▸ Job.body_alike job
  inside sound sound' meets allowed allowed' same alike choices :=
    exec_alike sound sound' same meets choices.1 choices.2.1 alike allowed allowed'

end MbxCache
