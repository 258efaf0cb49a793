import MbxCache.Metadata.Memory
import MbxCache.Metadata.Postgres
import MbxCache.Specimen

namespace MbxCache

variable [Protocol]

inductive Call
  | registerBlob (ns : String) (digest : Digest) (stored : PutOutcome)
  | forgetBlob (ns : String) (digest : Digest)
  | touchBlobs (ns : String) (digests : List Digest)
  | visibleBlobs (ns : String) (digests : List Digest)
  | blobVisible (ns : String) (digest : Digest)
  | commit (ns : String) (action : Digest) (result : ActionResult)
  | get (ns : String) (action : Digest)
  | getBatch (ns : String) (actions : List Digest)
  | commitManifest (ns : String) (key : Digest) (expected : Option String)
      (record : ManifestRecord)
  | getManifest (ns : String) (key : Digest)

inductive Answer
  | failed (failure : Failure)
  | done
  | blobs (digests : List Digest)
  | visible (present : Bool)
  | commit (outcome : CommitOutcome)
  | result (found : Option ActionResult)
  | results (found : List ActionResult)
  | manifestCommit (outcome : ManifestCommitOutcome)
  | manifest (found : Option ManifestRecord)
  deriving DecidableEq

namespace Call

/-- What a call leaves behind and answers. A failed call leaves the store as it was. -/
def settle {M α : Type} (m : M) (answer : α → M × Answer) : Except Failure α → M × Answer
  | .error failure => (m, .failed failure)
  | .ok value => answer value

def commitWhole {M : Type} [MetadataStore M] (m : M) (now : Instant) (ns : String)
    (action : Digest) (result : ActionResult) : M × Answer :=
  settle m (fun (after, step) =>
    match step with
    | .answered outcome => (after, .commit outcome)
    | .pending =>
        settle after (fun outcome => (after, .commit outcome))
          (MetadataStore.resolve after ns action result))
    (MetadataStore.commit m now ns action result)

def perform {M : Type} [MetadataStore M] (m : M) (now : Instant) : Call → M × Answer
  | .registerBlob ns digest stored =>
      settle m (fun after => (after, .done)) (MetadataStore.registerBlob m now ns digest stored)
  | .forgetBlob ns digest =>
      settle m (fun after => (after, .done)) (MetadataStore.forgetBlob m ns digest)
  | .touchBlobs ns digests =>
      settle m (fun after => (after, .done)) (MetadataStore.touchBlobs m now ns digests)
  | .visibleBlobs ns digests =>
      settle m (fun found => (m, .blobs found)) (MetadataStore.visibleBlobs m ns digests)
  | .blobVisible ns digest =>
      settle m (fun present => (m, .visible present)) (MbxCache.blobVisible m ns digest)
  | .commit ns action result => commitWhole m now ns action result
  | .get ns action => settle m (fun found => (m, .result found)) (MetadataStore.get m ns action)
  | .getBatch ns actions =>
      settle m (fun found => (m, .results found)) (MetadataStore.getBatch m ns actions)
  | .commitManifest ns key expected record =>
      settle m (fun (after, outcome) => (after, .manifestCommit outcome))
        (MetadataStore.commitManifest m now ns key expected record)
  | .getManifest ns key =>
      settle m (fun found => (m, .manifest found)) (MetadataStore.getManifest m ns key)

def runFrom {M : Type} [MetadataStore M] (m : M) : List (Instant × Call) → List Answer
  | [] => []
  | (now, call) :: rest =>
      let (after, answer) := call.perform m now
      answer :: runFrom after rest

def onView (view : View) : Call → View × Answer
  | .registerBlob ns digest _ => (view.register ns digest, .done)
  | .forgetBlob ns digest => (view.forget ns digest, .done)
  | .touchBlobs _ _ => (view, .done)
  | .visibleBlobs ns digests => (view, .blobs (digests.filter (view.visible ns)))
  | .blobVisible ns digest => (view, .visible (view.visible ns digest))
  | .commit ns action result =>
      ((view.commit ns action result).1, .commit (view.commit ns action result).2)
  | .get ns action => (view, .result (view.result ns action))
  | .getBatch ns actions => (view, .results (actions.filterMap (view.result ns)))
  | .commitManifest ns key expected record =>
      ((view.commitManifest ns key expected record).1,
        .manifestCommit (view.commitManifest ns key expected record).2)
  | .getManifest ns key => (view, .manifest (view.manifest ns key))

def runView (view : View) : List (Instant × Call) → List Answer
  | [] => []
  | (_, call) :: rest => (call.onView view).2 :: runView (call.onView view).1 rest

/-- A call that the store can be sent. -/
def Represented (M : Type) [MetadataStore M] : Call → Bool
  | .registerBlob ns digest _ => MetadataStore.representsBlob M ns digest
  | .forgetBlob ns digest => MetadataStore.names M ns digest
  | .touchBlobs ns digests => MetadataStore.lists M ns digests
  | .visibleBlobs ns digests => MetadataStore.lists M ns digests
  | .blobVisible ns digest => MetadataStore.lists M ns [digest]
  | .commit ns action result => MetadataStore.representsResult M ns action result
  | .get ns action => MetadataStore.names M ns action
  | .getBatch ns actions => MetadataStore.lists M ns actions
  | .commitManifest ns key expected record =>
      MetadataStore.representsManifest M ns key expected record
  | .getManifest ns key => MetadataStore.names M ns key

section
variable {M : Type} [MetadataStore M]

theorem commitWhole_view {m : M} (now : Instant) (ns : String) (action : Digest)
    (result : ActionResult) (valid : MetadataStore.valid m)
    (fits : MetadataStore.representsResult M ns action result = true) :
    ∃ after, commitWhole m now ns action result =
        (after, .commit ((MetadataStore.view m).commit ns action result).2) ∧
      MetadataStore.valid after ∧
      MetadataStore.view after = ((MetadataStore.view m).commit ns action result).1 := by
  obtain ⟨after, committed, still, seen⟩ :=
    MetadataStore.commit_view now ns action result valid fits
  refine ⟨after, ?_, still, seen⟩
  simp only [commitWhole, committed, View.commitStep]
  split
  · rename_i deferred
    obtain ⟨_, conflict⟩ := Bool.and_eq_true_iff.mp deferred
    obtain ⟨held, present⟩ := Option.isSome_iff_exists.mp conflict
    have same : MetadataStore.view after = MetadataStore.view m := by
      rw [seen]
      simp [View.commit, present]
    have resolved := MetadataStore.resolve_view ns action result still
    rw [same, present] at resolved
    simp [settle, resolved, View.commit, present]
  · simp [settle]

/-- Every call does on a store what it means on what the store holds. -/
theorem perform_view {m : M} (now : Instant) (call : Call) (valid : MetadataStore.valid m)
    (fits : call.Represented M = true) :
    ∃ after, call.perform m now = (after, (call.onView (MetadataStore.view m)).2) ∧
      MetadataStore.valid after ∧
      MetadataStore.view after = (call.onView (MetadataStore.view m)).1 := by
  cases call with
  | registerBlob ns digest stored =>
      obtain ⟨after, registered, still, seen⟩ :=
        MetadataStore.registerBlob_view now ns digest stored valid fits
      exact ⟨after, by simp [perform, registered, settle, onView], still, seen⟩
  | forgetBlob ns digest =>
      obtain ⟨after, forgotten, still, seen⟩ := MetadataStore.forgetBlob_view valid fits
      exact ⟨after, by simp [perform, forgotten, settle, onView], still, seen⟩
  | touchBlobs ns digests =>
      obtain ⟨after, touched, still, seen⟩ := MetadataStore.touchBlobs_view now valid fits
      exact ⟨after, by simp [perform, touched, settle, onView], still, seen⟩
  | visibleBlobs ns digests =>
      exact ⟨m, by simp [perform, MetadataStore.visibleBlobs_view valid fits, settle, onView],
        valid, rfl⟩
  | blobVisible ns digest =>
      exact ⟨m, by simp [perform, blobVisible_view valid fits, settle, onView], valid, rfl⟩
  | commit ns action result => exact commitWhole_view now ns action result valid fits
  | get ns action =>
      exact ⟨m, by simp [perform, MetadataStore.get_view valid fits, settle, onView],
        valid, rfl⟩
  | getBatch ns actions =>
      exact ⟨m, by simp [perform, MetadataStore.getBatch_view valid fits, settle, onView],
        valid, rfl⟩
  | commitManifest ns key expected record =>
      obtain ⟨after, committed, still, seen⟩ :=
        MetadataStore.commitManifest_view now ns key expected record valid fits
      exact ⟨after, by simp [perform, committed, settle, onView], still, seen⟩
  | getManifest ns key =>
      exact ⟨m, by simp [perform, MetadataStore.getManifest_view valid fits, settle, onView],
        valid, rfl⟩

theorem runFrom_view {m : M} (calls : List (Instant × Call)) (valid : MetadataStore.valid m)
    (fits : ∀ entry ∈ calls, entry.2.Represented M = true) :
    runFrom m calls = runView (MetadataStore.view m) calls := by
  induction calls generalizing m with
  | nil => rfl
  | cons entry rest ih =>
      obtain ⟨after, performed, still, seen⟩ :=
        perform_view entry.1 entry.2 valid (fits entry (by simp))
      simp only [runFrom, runView, performed]
      rw [← seen, ih still fun other member => fits other (by simp [member])]

end

def plainKey (ns : String) (digest : Digest) : Bool :=
  validString ns && validString digest.algorithm && validString digest.hash

def writableKey (ns : String) (digest : Digest) (algorithms : List String) : Bool :=
  plainKey ns digest && digest.size.toNat < 2 ^ 63 && algorithms.contains digest.algorithm

/-- No text of the call holds U+0000, and what it writes has a size and an algorithm that the
tables of the migrations allow. -/
def Plain : Call → Bool
  | .registerBlob ns digest _ => writableKey ns digest ["blake3", "sha256"]
  | .commit ns action result =>
      writableKey ns action ["blake3", "sha256"] && (Protocol.resultValue result).storable
  | .commitManifest ns key expected record =>
      writableKey ns key ["blake3"] && expected.all validString && validString record.etag &&
        (Protocol.manifestValue record.manifest).storable
  | .forgetBlob ns digest => plainKey ns digest
  | .blobVisible ns digest => plainKey ns digest
  | .get ns action => plainKey ns action
  | .getManifest ns key => plainKey ns key
  | .touchBlobs ns digests => digests.all (plainKey ns)
  | .visibleBlobs ns digests => digests.all (plainKey ns)
  | .getBatch ns actions => actions.all (plainKey ns)

omit [Protocol] in
theorem plain_sendable {ns : String} {digests : List Digest}
    (plain : digests.all (plainKey ns) = true) :
    sendable ns (representableDigests digests) = true :=
  PostgresMetadata.sendable_storable (List.all_eq_true.mp plain)

omit [Protocol] in
theorem writableKey_key {ns : String} {digest : Digest} {algorithms : List String}
    (writable : writableKey ns digest algorithms = true) :
    (rowKey ns digest).storable = true ∧ digest.algorithm ∈ algorithms ∧
      0 ≤ (rowKey ns digest).size := by
  simp only [writableKey, Bool.and_eq_true, decide_eq_true_eq, List.contains_iff_mem] at writable
  obtain ⟨⟨plain, size⟩, algorithm⟩ := writable
  exact ⟨plain, algorithm, (PostgresMetadata.toInt64_nonneg digest.size).mpr size⟩

theorem plain_represented {call : Call} (plain : call.Plain = true) :
    call.Represented PostgresMetadata = true := by
  cases call with
  | registerBlob ns digest stored =>
      obtain ⟨storable, algorithm, size⟩ := writableKey_key plain
      simp only [List.mem_cons, List.not_mem_nil, or_false] at algorithm
      simp [Represented, MetadataStore.representsBlob, storable, checkKey, size]
      simpa [rowKey] using algorithm
  | commit ns action result =>
      obtain ⟨digest, value⟩ := Bool.and_eq_true_iff.mp plain
      obtain ⟨storable, algorithm, size⟩ := writableKey_key digest
      simp only [List.mem_cons, List.not_mem_nil, or_false] at algorithm
      simp [Represented, MetadataStore.representsResult, storable, value, checkKey, size]
      simpa [rowKey] using algorithm
  | commitManifest ns key expected record =>
      simp only [Plain, Bool.and_eq_true] at plain
      obtain ⟨⟨⟨digest, sent⟩, etag⟩, value⟩ := plain
      obtain ⟨storable, algorithm, size⟩ := writableKey_key digest
      simp only [List.mem_singleton] at algorithm
      simp [Represented, MetadataStore.representsManifest, PostgresMetadata.manifestFits, storable,
        etag, value, sent, checkManifestKey, size]
      simp [rowKey, algorithm]
  | forgetBlob ns digest => exact plain
  | get ns action => exact plain
  | getManifest ns key => exact plain
  | touchBlobs ns digests => exact plain_sendable plain
  | visibleBlobs ns digests => exact plain_sendable plain
  | getBatch ns actions => exact plain_sendable plain
  | blobVisible ns digest =>
      have one : [digest].all (plainKey ns) = true := Bool.and_eq_true_iff.mpr ⟨plain, rfl⟩
      exact plain_sendable one

/-- The two stores answer every sequence of calls alike. -/
theorem stores_interchange (calls : List (Instant × Call))
    (plain : ∀ entry ∈ calls, entry.2.Plain = true) :
    runFrom (freshStore MemoryMetadata) calls = runFrom (freshStore PostgresMetadata) calls := by
  have memory : runFrom (freshStore MemoryMetadata) calls = runView View.empty calls :=
    runFrom_view calls MetadataStore.empty_valid fun entry _ => by cases entry.2 <;> rfl
  have postgres : runFrom (freshStore PostgresMetadata) calls = runView View.empty calls :=
    runFrom_view calls MetadataStore.empty_valid
      fun entry member => plain_represented (plain entry member)
  rw [memory, postgres]

end Call
end MbxCache

namespace MbxCache.Call

section Example

attribute [local instance] Specimen.protocol

/-- The walk over a tree asks for the digests of directories unchecked. -/
theorem unreadable_text_told_apart :
    runFrom (freshStore MemoryMetadata) [(0, .visibleBlobs "team" [⟨"blake3", "\x00", 0⟩])] =
      [.blobs []] ∧
    runFrom (freshStore PostgresMetadata) [(0, .visibleBlobs "team" [⟨"blake3", "\x00", 0⟩])] =
      [.failed .fault] := by decide +kernel

/-- More than an `i64` can hold. -/
def hugeDigest : Digest := ⟨"blake3", Specimen.zeroBlake3, 9223372036854775808⟩

def lookups : List (Instant × Call) :=
  [(0, .registerBlob "team" Specimen.zeroDigest .created),
    (1, .registerBlob "team" Specimen.emptyDigest .created),
    (2, .registerBlob "team" Specimen.zeroDigest .alreadyExists),
    (3, .visibleBlobs "team" [Specimen.zeroDigest, hugeDigest, ⟨"blake3", Specimen.zeroBlake3, 2⟩,
      Specimen.emptyDigest, Specimen.zeroDigest]),
    (4, .commit "team" Specimen.zeroDigest ⟨1, Specimen.zeroDigest, none, none⟩),
    (5, .commit "team" Specimen.zeroDigest ⟨2, Specimen.zeroDigest, none, none⟩),
    (6, .getBatch "team" [hugeDigest, Specimen.zeroDigest, Specimen.emptyDigest,
      Specimen.zeroDigest]),
    (7, .get "other" Specimen.zeroDigest), (7, .get "team" hugeDigest),
    (8, .commitManifest "team" Specimen.zeroDigest none
      ⟨Specimen.manifestBlake3, Specimen.manifest⟩),
    (9, .commitManifest "team" Specimen.zeroDigest (some "stale")
      ⟨Specimen.manifestBlake3, Specimen.manifest⟩),
    (10, .getManifest "team" Specimen.zeroDigest),
    (11, .touchBlobs "team" [hugeDigest, Specimen.zeroDigest]),
    (12, .forgetBlob "team" Specimen.zeroDigest), (13, .forgetBlob "team" hugeDigest),
    (14, .blobVisible "team" Specimen.zeroDigest), (15, .blobVisible "team" Specimen.emptyDigest)]

theorem lookups_interchange :
    runFrom (freshStore MemoryMetadata) lookups = runFrom (freshStore PostgresMetadata) lookups :=
  stores_interchange lookups (by decide +kernel)

end Example
end MbxCache.Call
