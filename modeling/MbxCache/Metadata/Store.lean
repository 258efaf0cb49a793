import MbxCache.Auth.Namespace
import MbxCache.Protocol
import MbxCache.Storage

/-! The metadata store trait (`metadata/mod.rs`), and what any store means by it. -/

namespace MbxCache

inductive CommitOutcome
  | created
  | alreadyExists
  | conflict
  deriving DecidableEq, Repr

inductive ManifestCommitOutcome
  | created
  | updated
  | preconditionFailed
  deriving DecidableEq, Repr

structure ManifestRecord where
  etag : String
  manifest : TaskActionManifest
  deriving DecidableEq, Repr

/-- What the first statement of a commit comes to: an answer, or a conflict that
a second statement has to look into. -/
inductive CommitStep
  | answered (outcome : CommitOutcome)
  | pending
  deriving DecidableEq, Repr

structure View where
  visible : String → Digest → Bool
  result : String → Digest → Option ActionResult
  manifest : String → Digest → Option ManifestRecord

namespace View

def empty : View := ⟨fun _ _ => false, fun _ _ => none, fun _ _ => none⟩

def assign {α : Type} (table : String → Digest → α) (ns : String) (digest : Digest) (value : α) :
    String → Digest → α :=
  fun otherNs other => if otherNs = ns ∧ other = digest then value else table otherNs other

theorem assign_same {α : Type} (table : String → Digest → α) (ns : String) (digest : Digest)
    (value : α) : assign table ns digest value ns digest = value := if_pos ⟨rfl, rfl⟩

theorem assign_other {α : Type} (table : String → Digest → α) {ns other : String}
    {digest key : Digest} (value : α) (different : ¬ (other = ns ∧ key = digest)) :
    assign table ns digest value other key = table other key := if_neg different

def register (view : View) (ns : String) (digest : Digest) : View :=
  { view with visible := assign view.visible ns digest true }

def forget (view : View) (ns : String) (digest : Digest) : View :=
  { view with visible := assign view.visible ns digest false }

theorem forget_absent {view : View} {ns : String} {digest : Digest}
    (absent : view.visible ns digest = false) : view.forget ns digest = view := by
  have same : assign view.visible ns digest false = view.visible := by
    funext other key
    unfold assign
    split
    · rename_i here
      rw [here.1, here.2, absent]
    · rfl
  rw [forget, same]

def setResult (view : View) (ns : String) (action : Digest) (result : ActionResult) : View :=
  { view with result := assign view.result ns action (some result) }

def setManifest (view : View) (ns : String) (key : Digest) (record : ManifestRecord) : View :=
  { view with manifest := assign view.manifest ns key (some record) }

/-- How a commit meets the result already stored. -/
def verdict (held result : ActionResult) : CommitOutcome :=
  if held = result then .alreadyExists else .conflict

def commit (view : View) (ns : String) (action : Digest) (result : ActionResult) :
    View × CommitOutcome :=
  match view.result ns action with
  | none => (view.setResult ns action result, .created)
  | some held => (view, verdict held result)

/-- What the first statement of a commit comes to, where a store may defer its answer
about a conflict to a second one. -/
def commitStep (view : View) (defers : Bool) (ns : String) (action : Digest)
    (result : ActionResult) : CommitStep :=
  if defers && (view.result ns action).isSome then .pending
  else .answered (view.commit ns action result).2

def matchesEtag (held : Option ManifestRecord) (expected : Option String) : Bool :=
  match held, expected with
  | none, none => true
  | some record, some etag => record.etag == etag
  | _, _ => false

def commitManifest (view : View) (ns : String) (key : Digest) (expected : Option String)
    (record : ManifestRecord) : View × ManifestCommitOutcome :=
  if matchesEtag (view.manifest ns key) expected then
    (view.setManifest ns key record,
      if (view.manifest ns key).isSome then .updated else .created)
  else (view, .preconditionFailed)

end View

abbrev Instant := Nat

/-- A metadata store. Every method is one atomic step, except that a commit may
leave its answer to a second one. A call is refused when the store cannot be asked about
a key it `names` or the digests it `lists`, or cannot represent what it is given to
write, whatever it holds. -/
class MetadataStore (M : Type) [Protocol] where
  empty : M
  visibleBlobs : M → String → List Digest → Except Failure (List Digest)
  registerBlob : M → Instant → String → Digest → PutOutcome → Except Failure M
  forgetBlob : M → String → Digest → Except Failure M
  touchBlobs : M → Instant → String → List Digest → Except Failure M
  get : M → String → Digest → Except Failure (Option ActionResult)
  getBatch : M → String → List Digest → Except Failure (List ActionResult)
  commit : M → Instant → String → Digest → ActionResult → Except Failure (M × CommitStep)
  resolve : M → String → Digest → ActionResult → Except Failure CommitOutcome
  getManifest : M → String → Digest → Except Failure (Option ManifestRecord)
  commitManifest : M → Instant → String → Digest → Option String → ManifestRecord →
    Except Failure (M × ManifestCommitOutcome)
  defers : Bool
  valid : M → Prop
  view : M → View
  names : String → Digest → Bool
  lists : String → List Digest → Bool
  representsBlob : String → Digest → Bool
  representsResult : String → Digest → ActionResult → Bool
  representsManifest : String → Digest → Option String → ManifestRecord → Bool
  empty_valid : valid empty
  empty_view : view empty = View.empty
  names_valid : ∀ {ns digest}, IsNamespace ns → digest.validate = true → names ns digest = true
  names_visible : ∀ {m ns digest}, valid m → (view m).visible ns digest = true →
    names ns digest = true
  lists_names : ∀ {ns digests}, (∀ digest ∈ digests, names ns digest = true) →
    lists ns digests = true
  visibleBlobs_view : ∀ {m ns digests}, valid m → lists ns digests = true →
    visibleBlobs m ns digests = .ok (digests.filter ((view m).visible ns))
  visibleBlobs_refused : ∀ {m ns digests}, lists ns digests = false →
    visibleBlobs m ns digests = .error .fault
  registerBlob_view : ∀ {m} now ns digest outcome, valid m → representsBlob ns digest = true →
    ∃ after, registerBlob m now ns digest outcome = .ok after ∧ valid after ∧
      view after = (view m).register ns digest
  registerBlob_refused : ∀ m now ns digest outcome, representsBlob ns digest = false →
    registerBlob m now ns digest outcome = .error .fault
  forgetBlob_view : ∀ {m ns digest}, valid m → names ns digest = true →
    ∃ after, forgetBlob m ns digest = .ok after ∧ valid after ∧
      view after = (view m).forget ns digest
  forgetBlob_refused : ∀ {m ns digest}, names ns digest = false →
    forgetBlob m ns digest = .error .fault
  touchBlobs_view : ∀ {m ns digests} now, valid m → lists ns digests = true →
    ∃ after, touchBlobs m now ns digests = .ok after ∧ valid after ∧ view after = view m
  get_view : ∀ {m ns action}, valid m → names ns action = true →
    get m ns action = .ok ((view m).result ns action)
  get_refused : ∀ {m ns action}, names ns action = false → get m ns action = .error .fault
  getBatch_view : ∀ {m ns actions}, valid m → lists ns actions = true →
    getBatch m ns actions = .ok (actions.filterMap ((view m).result ns))
  getBatch_refused : ∀ {m ns actions}, lists ns actions = false →
    getBatch m ns actions = .error .fault
  commit_view : ∀ {m} now ns action result, valid m → representsResult ns action result = true →
    ∃ after, commit m now ns action result =
        .ok (after, (view m).commitStep defers ns action result) ∧ valid after ∧
      view after = ((view m).commit ns action result).1
  commit_refused : ∀ m now ns action result, representsResult ns action result = false →
    commit m now ns action result = .error .fault
  resolve_view : ∀ {m} ns action result, valid m →
    resolve m ns action result =
      match (view m).result ns action with
      | none => .error .fault
      | some held => .ok (View.verdict held result)
  getManifest_view : ∀ {m ns key}, valid m → names ns key = true →
    getManifest m ns key = .ok ((view m).manifest ns key)
  getManifest_refused : ∀ {m ns key}, names ns key = false →
    getManifest m ns key = .error .fault
  commitManifest_view : ∀ {m} now ns key expected record, valid m →
    representsManifest ns key expected record = true →
    ∃ after, commitManifest m now ns key expected record =
        .ok (after, ((view m).commitManifest ns key expected record).2) ∧ valid after ∧
      view after = ((view m).commitManifest ns key expected record).1
  commitManifest_refused : ∀ m now ns key expected record,
    representsManifest ns key expected record = false →
    commitManifest m now ns key expected record = .error .fault

def freshStore (M : Type) [Protocol] [MetadataStore M] : M := MetadataStore.empty

/-- `blob_visible`, the trait's default method. -/
def blobVisible {M : Type} [Protocol] [MetadataStore M] (m : M) (ns : String) (digest : Digest) :
    Except Failure Bool :=
  (MetadataStore.visibleBlobs m ns [digest]).map fun found => !found.isEmpty

theorem blobVisible_view {M : Type} [Protocol] [MetadataStore M] {m : M} {ns : String}
    {digest : Digest} (valid : MetadataStore.valid m)
    (listed : MetadataStore.lists M ns [digest] = true) :
    blobVisible m ns digest = .ok ((MetadataStore.view m).visible ns digest) := by
  rw [blobVisible, MetadataStore.visibleBlobs_view valid listed]
  cases held : (MetadataStore.view m).visible ns digest <;> simp [held, Except.map]

section
variable {M : Type} [Protocol] [MetadataStore M] {ns : String} {digests : List Digest}

theorem lists_valid (name : IsNamespace ns) (valid : ∀ digest ∈ digests, digest.validate = true) :
    MetadataStore.lists M ns digests = true :=
  MetadataStore.lists_names fun digest member =>
    MetadataStore.names_valid name (valid digest member)

theorem lists_one {digest : Digest} (named : MetadataStore.names M ns digest = true) :
    MetadataStore.lists M ns [digest] = true :=
  MetadataStore.lists_names fun _ member => List.mem_singleton.mp member ▸ named

theorem unlisted_unseen {m : M} (valid : MetadataStore.valid m)
    (refused : MetadataStore.lists M ns digests = false) :
    ∃ digest ∈ digests, (MetadataStore.view m).visible ns digest = false := by
  by_contra missing
  have listed : MetadataStore.lists M ns digests = true := by
    apply MetadataStore.lists_names
    intro digest member
    by_contra unnamed
    refine missing ⟨digest, member, ?_⟩
    cases seen : (MetadataStore.view m).visible ns digest with
    | false => rfl
    | true => exact absurd (MetadataStore.names_visible valid seen) unnamed
  rw [listed] at refused
  cases refused

namespace MetadataStore

variable {m after : M} {digest : Digest}

theorem visibleBlobs_answered {found : List Digest} (valid : MetadataStore.valid m)
    (answered : visibleBlobs m ns digests = .ok found) :
    found = digests.filter ((view m).visible ns) := by
  cases listed : lists M ns digests with
  | false =>
      rw [visibleBlobs_refused listed] at answered
      cases answered
  | true =>
      rw [visibleBlobs_view valid listed] at answered
      exact (Except.ok.inj answered).symm

theorem forgetBlob_answered (valid : MetadataStore.valid m)
    (answered : forgetBlob m ns digest = .ok after) :
    MetadataStore.valid after ∧ view after = (view m).forget ns digest := by
  cases named : names M ns digest with
  | false =>
      rw [forgetBlob_refused named] at answered
      cases answered
  | true =>
      obtain ⟨forgotten, done, still, seen⟩ := forgetBlob_view valid named
      rw [done] at answered
      cases answered
      exact ⟨still, seen⟩

theorem forgetBlob_absent (valid : MetadataStore.valid m) {failure : Failure}
    (failed : forgetBlob m ns digest = .error failure) : (view m).visible ns digest = false := by
  cases seen : (view m).visible ns digest with
  | false => rfl
  | true =>
      obtain ⟨after, done, _⟩ := forgetBlob_view valid (names_visible valid seen)
      rw [done] at failed
      cases failed

theorem get_answered {found : Option ActionResult} (valid : MetadataStore.valid m)
    (answered : get m ns digest = .ok found) : found = (view m).result ns digest := by
  cases named : names M ns digest with
  | false =>
      rw [get_refused named] at answered
      cases answered
  | true =>
      rw [get_view valid named] at answered
      exact (Except.ok.inj answered).symm

theorem getBatch_answered {found : List ActionResult} (valid : MetadataStore.valid m)
    (answered : getBatch m ns digests = .ok found) :
    found = digests.filterMap ((view m).result ns) := by
  cases listed : lists M ns digests with
  | false =>
      rw [getBatch_refused listed] at answered
      cases answered
  | true =>
      rw [getBatch_view valid listed] at answered
      exact (Except.ok.inj answered).symm

end MetadataStore
end

end MbxCache
