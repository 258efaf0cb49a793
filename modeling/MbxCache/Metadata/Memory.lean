import MbxCache.Metadata.Store

/-! The in-memory metadata store (`metadata/memory.rs`). -/

namespace MbxCache

variable [Protocol]

structure MemoryMetadata where
  entries : String → Digest → Option Bytes
  blobs : String → Digest → Bool
  manifests : String → Digest → Option (String × TaskActionManifest)

namespace MemoryMetadata

def decode (value : Bytes) : Except Failure ActionResult :=
  match Protocol.bytesResult value with
  | some result => .ok result
  | none => .error .fault

def visibleBlobs (m : MemoryMetadata) (ns : String) (digests : List Digest) :
    Except Failure (List Digest) :=
  .ok (digests.filter fun digest => m.blobs ns digest)

def registerBlob (m : MemoryMetadata) (ns : String) (digest : Digest) (_stored : PutOutcome) :
    Except Failure MemoryMetadata :=
  .ok { m with blobs := View.assign m.blobs ns digest true }

def forgetBlob (m : MemoryMetadata) (ns : String) (digest : Digest) :
    Except Failure MemoryMetadata :=
  .ok { m with blobs := View.assign m.blobs ns digest false }

def get (m : MemoryMetadata) (ns : String) (action : Digest) :
    Except Failure (Option ActionResult) :=
  match m.entries ns action with
  | none => .ok none
  | some value => (decode value).map some

/-- The trait's default: one `get` for each action, in order. -/
def getBatch (m : MemoryMetadata) (ns : String) : List Digest → Except Failure (List ActionResult)
  | [] => .ok []
  | action :: rest => do
      let found ← m.get ns action
      let others ← getBatch m ns rest
      return found.toList ++ others

def commit (m : MemoryMetadata) (ns : String) (action : Digest) (result : ActionResult) :
    Except Failure (MemoryMetadata × CommitOutcome) :=
  let encoded := Protocol.resultBytes result
  match m.entries ns action with
  | none => .ok ({ m with entries := View.assign m.entries ns action (some encoded) }, .created)
  | some existing =>
      if existing = encoded then .ok (m, .alreadyExists) else .ok (m, .conflict)

def getManifest (m : MemoryMetadata) (ns : String) (key : Digest) :
    Except Failure (Option ManifestRecord) :=
  .ok ((m.manifests ns key).map fun (etag, manifest) => ⟨etag, manifest⟩)

def commitManifest (m : MemoryMetadata) (ns : String) (key : Digest) (expected : Option String)
    (etag : String) (manifest : TaskActionManifest) :
    Except Failure (MemoryMetadata × ManifestCommitOutcome) :=
  let entry := m.manifests ns key
  let allowed := match entry, expected with
    | none, none => true
    | some (current, _), some expected => current == expected
    | _, _ => false
  if !allowed then .ok (m, .preconditionFailed)
  else
    let outcome := if entry.isSome then .updated else .created
    .ok ({ m with manifests := View.assign m.manifests ns key (some (etag, manifest)) }, outcome)

def Valid (m : MemoryMetadata) : Prop :=
  ∀ ns action value, m.entries ns action = some value →
    ∃ result, value = Protocol.resultBytes result

def view (m : MemoryMetadata) : View where
  visible := m.blobs
  result ns action := (m.entries ns action).bind Protocol.bytesResult
  manifest ns key := (m.manifests ns key).map fun (etag, manifest) => ⟨etag, manifest⟩

theorem get_view {m : MemoryMetadata} (ns : String) (action : Digest) (valid : m.Valid) :
    m.get ns action = .ok (m.view.result ns action) := by
  unfold get view
  cases held : m.entries ns action with
  | none => simp [held]
  | some value =>
      obtain ⟨result, rfl⟩ := valid ns action value held
      simp [held, decode, Protocol.bytesResult_resultBytes, Except.map]

theorem getBatch_view {m : MemoryMetadata} (ns : String) (actions : List Digest)
    (valid : m.Valid) : m.getBatch ns actions = .ok (actions.filterMap (m.view.result ns)) := by
  induction actions with
  | nil => rfl
  | cons action rest ih =>
      simp only [getBatch, get_view ns action valid, ih, bind, Except.bind, pure, Except.pure]
      cases found : m.view.result ns action <;> simp [found]

theorem commit_view {m : MemoryMetadata} (ns : String) (action : Digest) (result : ActionResult)
    (valid : m.Valid) :
    ∃ after, m.commit ns action result = .ok (after, (m.view.commit ns action result).2) ∧
      after.Valid ∧ after.view = (m.view.commit ns action result).1 := by
  unfold commit
  cases held : m.entries ns action with
  | none =>
      have absent : m.view.result ns action = none := by simp [view, held]
      simp only [View.commit, absent]
      refine ⟨_, rfl, ?_, ?_⟩
      · intro otherNs other value present
        simp only at present
        by_cases same : otherNs = ns ∧ other = action
        · rw [same.1, same.2, View.assign_same] at present
          exact ⟨result, (Option.some.inj present).symm⟩
        · rw [View.assign_other _ _ same] at present
          exact valid otherNs other value present
      · simp only [view, View.setResult, View.mk.injEq, true_and, and_true]
        funext otherNs other
        unfold View.assign
        split
        · simp [Protocol.bytesResult_resultBytes]
        · rfl
  | some value =>
      obtain ⟨existing, rfl⟩ := valid ns action value held
      have present : m.view.result ns action = some existing := by
        simp [view, held, Protocol.bytesResult_resultBytes]
      simp only [View.commit, present, View.verdict]
      by_cases same : existing = result
      · exact ⟨m, by simp [same], valid, rfl⟩
      · have different : Protocol.resultBytes existing ≠ Protocol.resultBytes result :=
          fun bytes => same (resultBytes_injective bytes)
        exact ⟨m, by simp [same, different], valid, rfl⟩

theorem commitManifest_view {m : MemoryMetadata} (ns : String) (key : Digest)
    (expected : Option String) (record : ManifestRecord) (valid : m.Valid) :
    ∃ after, m.commitManifest ns key expected record.etag record.manifest =
        .ok (after, (m.view.commitManifest ns key expected record).2) ∧ after.Valid ∧
      after.view = (m.view.commitManifest ns key expected record).1 := by
  have allowed : (match m.manifests ns key, expected with
      | none, none => true
      | some (current, _), some expected => current == expected
      | _, _ => false) = View.matchesEtag (m.view.manifest ns key) expected := by
    simp only [view]
    cases m.manifests ns key <;> cases expected <;> rfl
  have present : (m.view.manifest ns key).isSome = (m.manifests ns key).isSome := by
    simp [view]
  unfold commitManifest View.commitManifest
  simp only [allowed, present]
  cases View.matchesEtag (m.view.manifest ns key) expected with
  | false => exact ⟨m, rfl, valid, rfl⟩
  | true =>
      refine ⟨_, rfl, valid, ?_⟩
      simp only [view, View.setManifest, if_true, View.mk.injEq, true_and]
      funext otherNs other
      unfold View.assign
      split <;> rfl

instance : MetadataStore MemoryMetadata where
  empty := ⟨fun _ _ => none, fun _ _ => false, fun _ _ => none⟩
  visibleBlobs := visibleBlobs
  registerBlob m _ := m.registerBlob
  forgetBlob := forgetBlob
  touchBlobs m _ _ _ := .ok m
  get := get
  getBatch := getBatch
  commit m _ ns action result :=
    (m.commit ns action result).map fun (after, outcome) => (after, .answered outcome)
  -- Never asked: the one step above has always answered.
  resolve m ns action result := do
    match ← m.get ns action with
    | none => .error .fault
    | some held => .ok (View.verdict held result)
  getManifest := getManifest
  commitManifest m _ ns key expected record :=
    m.commitManifest ns key expected record.etag record.manifest
  defers := false
  valid := Valid
  view := view
  names _ _ := true
  lists _ _ := true
  representsBlob _ _ := true
  representsResult _ _ _ := true
  representsManifest _ _ _ _ := true
  empty_valid := by
    intro ns action value present
    cases present
  empty_view := rfl
  names_valid _ _ := rfl
  names_visible _ _ := rfl
  lists_names _ := rfl
  visibleBlobs_view _ _ := rfl
  visibleBlobs_refused refused := by cases refused
  registerBlob_view _ _ _ _ valid _ := ⟨_, rfl, valid, rfl⟩
  registerBlob_refused _ _ _ _ _ refused := by cases refused
  forgetBlob_view valid _ := ⟨_, rfl, valid, rfl⟩
  forgetBlob_refused refused := by cases refused
  touchBlobs_view _ valid _ := ⟨_, rfl, valid, rfl⟩
  get_view valid _ := get_view _ _ valid
  get_refused refused := by cases refused
  getBatch_view valid _ := getBatch_view _ _ valid
  getBatch_refused refused := by cases refused
  commit_view _ ns action result valid _ := by
    obtain ⟨after, committed, still, seen⟩ := commit_view ns action result valid
    exact ⟨after, by rw [committed]; rfl, still, seen⟩
  commit_refused _ _ _ _ _ refused := by cases refused
  resolve_view {m} ns action result valid := by
    have found := get_view ns action valid
    cases held : m.view.result ns action with
    | none => simp [found, held, bind, Except.bind]
    | some result => simp [found, held, bind, Except.bind]
  getManifest_view _ _ := rfl
  getManifest_refused refused := by cases refused
  commitManifest_view _ ns key expected record valid _ :=
    commitManifest_view ns key expected record valid
  commitManifest_refused _ _ _ _ _ _ refused := by cases refused

end MemoryMetadata
end MbxCache
