import Mathlib.Data.List.Sort
import MbxCache.Metadata.Store
import MbxCache.Relational.Table

/-! The PostgreSQL metadata store (`metadata/postgres.rs`) over the tables of the
migrations. A statement is its standard meaning on tables. The database takes no string
with U+0000 in it: a statement that is sent one fails. -/

namespace MbxCache

open Relational

structure RowKey where
  ns : String
  algorithm : String
  hash : String
  size : Int64
  deriving DecidableEq, Repr

/-- `digest.size as i64` wraps, it does not fail. -/
def rowKey (ns : String) (digest : Digest) : RowKey :=
  ⟨ns, digest.algorithm, digest.hash, digest.size.toInt64⟩

/-- What `text` columns and parameters can hold. -/
def RowKey.storable (key : RowKey) : Bool :=
  validString key.ns && validString key.algorithm && validString key.hash

structure ResultRow where
  key : RowKey
  result : Json
  createdAt : Instant

structure BlobRow where
  key : RowKey
  createdAt : Instant
  lastAccessedAt : Instant

/-- The row of a blob uploaded again: only an upload that wrote the object restarts
the age that sweeps follow. -/
def BlobRow.refresh (now : Instant) (stored : PutOutcome) (old : BlobRow) : BlobRow :=
  { old with
    createdAt := if stored = .created then now else old.createdAt
    lastAccessedAt := now }

structure ManifestRow where
  key : RowKey
  etag : String
  manifest : Json
  createdAt : Instant
  updatedAt : Instant

/-- `CHECK (algorithm IN ('blake3', 'sha256'))` and `CHECK (size >= 0)` -/
def checkKey (key : RowKey) : Bool :=
  (key.algorithm == "blake3" || key.algorithm == "sha256") && 0 ≤ key.size

/-- `CHECK (algorithm = 'blake3')` and `CHECK (size >= 0)` -/
def checkManifestKey (key : RowKey) : Bool := key.algorithm == "blake3" && 0 ≤ key.size

structure PostgresMetadata where
  actionResults : Table ResultRow RowKey ResultRow.key fun row =>
    row.key.storable && checkKey row.key
  namespaceBlobs : Table BlobRow RowKey BlobRow.key fun row =>
    row.key.storable && checkKey row.key
  actionManifests : Table ManifestRow RowKey ManifestRow.key fun row =>
    row.key.storable && checkManifestKey row.key

/-- Digests whose size a `bigint` can hold, with that size. -/
def representableDigests (digests : List Digest) : List (Digest × Int64) :=
  digests.filterMap fun digest =>
    if digest.size.toNat < 2 ^ 63 then some (digest, digest.size.toInt64) else none

def requestedKey (ns : String) (request : Digest × Int64) : RowKey :=
  ⟨ns, request.1.algorithm, request.1.hash, request.2⟩

def sendable (ns : String) (requests : List (Digest × Int64)) : Bool :=
  requests.all fun request => (requestedKey ns request).storable

/-- `ACCESS_REFRESH_INTERVAL`, one hour in microseconds. -/
def accessRefreshInterval : Nat := 3600000000

namespace PostgresMetadata

def empty : PostgresMetadata := ⟨Table.empty, Table.empty, Table.empty⟩

/-- `SELECT ordinality FROM UNNEST .. JOIN namespace_blobs .. ORDER BY ordinality` -/
def visibleOrdinals (m : PostgresMetadata) (ns : String) (requests : List (Digest × Int64)) :
    List Nat :=
  (requests.zipIdx.flatMap fun entry =>
    (m.namespaceBlobs.rows.filter fun row => row.key = requestedKey ns entry.1).map
      fun _ => entry.2 + 1).mergeSort

def digestAt (requests : List (Digest × Int64)) (ordinal : Nat) : Except Failure Digest :=
  match requests[ordinal - 1]? with
  | some (digest, _) => .ok digest
  | none => .error .fault

def visibleBlobs (m : PostgresMetadata) (ns : String) (digests : List Digest) :
    Except Failure (List Digest) :=
  let requests := representableDigests digests
  if requests = [] then .ok []
  else if !sendable ns requests then .error .fault
  else (m.visibleOrdinals ns requests).mapM (digestAt requests)

def registerBlob (m : PostgresMetadata) (now : Instant) (ns : String) (digest : Digest)
    (stored : PutOutcome) : Except Failure PostgresMetadata :=
  let row : BlobRow := ⟨rowKey ns digest, now, now⟩
  if !row.key.storable then .error .fault
  else
    match m.namespaceBlobs.upsert row (.refresh now stored) (fun _ => rfl) (fun _ => rfl) with
    | some blobs => .ok { m with namespaceBlobs := blobs }
    | none => .error .fault

def forgetBlob (m : PostgresMetadata) (ns : String) (digest : Digest) :
    Except Failure PostgresMetadata :=
  if !(rowKey ns digest).storable then .error .fault
  else
    .ok { m with
      namespaceBlobs := m.namespaceBlobs.delete fun row => row.key = rowKey ns digest }

def touchBlobs (m : PostgresMetadata) (now : Instant) (ns : String) (digests : List Digest) :
    Except Failure PostgresMetadata :=
  let requests := representableDigests digests
  if requests = [] then .ok m
  else if !sendable ns requests then .error .fault
  else
    let selected (row : BlobRow) : Bool :=
      requests.any (fun request => row.key = requestedKey ns request) &&
        row.lastAccessedAt + accessRefreshInterval < now
    .ok { m with
      namespaceBlobs := (m.namespaceBlobs.update selected
        (fun row => { row with lastAccessedAt := now }) (fun _ => rfl) (fun _ => rfl)).1 }

section
variable [Protocol]

def decodeResult (value : Json) : Except Failure ActionResult :=
  match Protocol.valueResult value with
  | some result => .ok result
  | none => .error .fault

def decodeManifest (value : Json) : Except Failure TaskActionManifest :=
  match Protocol.valueManifest value with
  | some manifest => .ok manifest
  | none => .error .fault

def get (m : PostgresMetadata) (ns : String) (action : Digest) :
    Except Failure (Option ActionResult) :=
  if !(rowKey ns action).storable then .error .fault
  else
    match m.actionResults.lookup (rowKey ns action) with
    | none => .ok none
    | some row => (decodeResult row.result).map some

/-- One row for each request: what the correlated subquery finds, or `NULL`. -/
def batchRows (m : PostgresMetadata) (ns : String) (requests : List (Digest × Int64)) :
    List (Option Json) :=
  requests.map fun request => (m.actionResults.lookup (requestedKey ns request)).map (·.result)

def getBatch (m : PostgresMetadata) (ns : String) (actions : List Digest) :
    Except Failure (List ActionResult) :=
  let requests := representableDigests actions
  if requests = [] then .ok []
  else if !sendable ns requests then .error .fault
  else ((m.batchRows ns requests).filterMap id).mapM decodeResult

/-- The `INSERT` of a commit, which answers if it inserted the row. -/
def commitInsert (m : PostgresMetadata) (now : Instant) (ns : String) (action : Digest)
    (result : ActionResult) : Except Failure (PostgresMetadata × CommitStep) :=
  let row : ResultRow := ⟨rowKey ns action, Protocol.resultValue result, now⟩
  if !(row.key.storable && row.result.storable) then .error .fault
  else
    match m.actionResults.insertIfAbsent row with
    | none => .error .fault
    | some (results, inserted) =>
        if inserted = 1 then .ok ({ m with actionResults := results }, .answered .created)
        else .ok ({ m with actionResults := results }, .pending)

/-- The `SELECT` of a commit that met a conflict. -/
def commitSelect (m : PostgresMetadata) (ns : String) (action : Digest) (result : ActionResult) :
    Except Failure CommitOutcome :=
  match m.get ns action with
  | .error failure => .error failure
  | .ok none => .error .fault
  | .ok (some existing) =>
      if Protocol.resultValue existing = Protocol.resultValue result then .ok .alreadyExists
      else .ok .conflict

def getManifest (m : PostgresMetadata) (ns : String) (key : Digest) :
    Except Failure (Option ManifestRecord) :=
  if !(rowKey ns key).storable then .error .fault
  else
    match m.actionManifests.lookup (rowKey ns key) with
    | none => .ok none
    | some row => (decodeManifest row.manifest).map fun manifest => some ⟨row.etag, manifest⟩

def commitManifest (m : PostgresMetadata) (now : Instant) (ns : String) (key : Digest)
    (expected : Option String) (etag : String) (manifest : TaskActionManifest) :
    Except Failure (PostgresMetadata × ManifestCommitOutcome) :=
  let value := Protocol.manifestValue manifest
  if !((rowKey ns key).storable && validString etag && value.storable &&
      expected.all validString) then .error .fault
  else
    match expected with
    | some expected =>
        let (manifests, rows) := m.actionManifests.update
          (fun row => row.key = rowKey ns key && row.etag = expected)
          (fun row => { row with etag := etag, manifest := value, updatedAt := now })
          (fun _ => rfl) (fun _ => rfl)
        .ok ({ m with actionManifests := manifests },
          if rows = 0 then .preconditionFailed else .updated)
    | none =>
        match m.actionManifests.insertIfAbsent ⟨rowKey ns key, etag, value, now, now⟩ with
        | none => .error .fault
        | some (manifests, rows) =>
            .ok ({ m with actionManifests := manifests },
              if rows = 0 then .preconditionFailed else .created)

structure Valid (m : PostgresMetadata) : Prop where
  results : ∀ row ∈ m.actionResults.rows, ∃ result, row.result = Protocol.resultValue result
  manifests : ∀ row ∈ m.actionManifests.rows,
    ∃ manifest, row.manifest = Protocol.manifestValue manifest

def view (m : PostgresMetadata) : View where
  visible ns digest := (m.namespaceBlobs.lookup (rowKey ns digest)).isSome
  result ns action :=
    (m.actionResults.lookup (rowKey ns action)).bind fun row => Protocol.valueResult row.result
  manifest ns key :=
    (m.actionManifests.lookup (rowKey ns key)).bind fun row =>
      (Protocol.valueManifest row.manifest).map fun manifest => ⟨row.etag, manifest⟩

end

theorem rowKey_inj {ns other : String} {digest key : Digest} :
    rowKey ns digest = rowKey other key ↔ ns = other ∧ digest = key := by
  constructor
  · intro same
    obtain ⟨algorithm, hash, size⟩ := digest
    obtain ⟨algorithm', hash', size'⟩ := key
    simp only [rowKey, RowKey.mk.injEq] at same
    obtain ⟨rfl, rfl, rfl, sizes⟩ := same
    have bits := congrArg Int64.toUInt64 sizes
    simp only [UInt64.toUInt64_toInt64] at bits
    exact ⟨rfl, by rw [bits]⟩
  · rintro ⟨rfl, rfl⟩
    rfl

theorem toInt64_nonneg (size : UInt64) : 0 ≤ size.toInt64 ↔ size.toNat < 2 ^ 63 := by
  have bits : size.toInt64.toInt = size.toBitVec.toInt := rfl
  have small := size.toNat_lt
  rw [Int64.le_iff_toInt_le, Int64.toInt_zero, bits, BitVec.toInt_eq_toNat_cond]
  simp only [UInt64.toNat_toBitVec]
  split <;> omega

/-- A size no `bigint` can hold wraps to a negative one, which no row has. -/
theorem lookup_unrepresentable {Row : Type} {key : Row → RowKey} {check : Row → Bool}
    (table : Table Row RowKey key check) (ns : String) {digest : Digest}
    (nonneg : ∀ row, check row = true → 0 ≤ (key row).size)
    (large : ¬ digest.size.toNat < 2 ^ 63) : table.lookup (rowKey ns digest) = none := by
  cases found : table.lookup (rowKey ns digest) with
  | none => rfl
  | some row =>
      have size := nonneg row (table.checked row (Table.lookup_mem found))
      rw [Table.lookup_key found] at size
      exact absurd ((toInt64_nonneg digest.size).mp size) large

theorem checkKey_nonneg {key : RowKey} (checks : (key.storable && checkKey key) = true) :
    0 ≤ key.size := by
  simp only [checkKey, Bool.and_eq_true, decide_eq_true_eq] at checks
  exact checks.2.2

theorem lookup_unstorable {Row : Type} {key : Row → RowKey} {check : RowKey → Bool}
    (table : Table Row RowKey key fun row => (key row).storable && check (key row))
    {wanted : RowKey} (refused : wanted.storable = false) : table.lookup wanted = none := by
  cases found : table.lookup wanted with
  | none => rfl
  | some row =>
      have checks := table.checked row (Table.lookup_mem found)
      rw [Table.lookup_key found, refused] at checks
      cases checks

/-- Filtering the digests a `bigint` can hold is filtering all of them, for a
predicate that the others fail. -/
theorem representable_filterMap {α : Type} (digests : List Digest)
    (pick : Digest → Option α) (none : ∀ digest, ¬ digest.size.toNat < 2 ^ 63 → pick digest = none) :
    (representableDigests digests).filterMap (fun request => pick request.1) =
      digests.filterMap pick := by
  simp only [representableDigests, List.filterMap_filterMap]
  congr 1
  funext digest
  by_cases small : digest.size.toNat < 2 ^ 63
  · rw [if_pos small]
    rfl
  · rw [if_neg small, none digest small]
    rfl

theorem representable_size {digests : List Digest} {request : Digest × Int64}
    (member : request ∈ representableDigests digests) : request.2 = request.1.size.toInt64 := by
  simp only [representableDigests, List.mem_filterMap] at member
  obtain ⟨digest, _, given⟩ := member
  split at given <;> cases given
  rfl

theorem representable_key {digests : List Digest} {request : Digest × Int64} (ns : String)
    (member : request ∈ representableDigests digests) :
    requestedKey ns request = rowKey ns request.1 := by
  simp [requestedKey, rowKey, representable_size member]

/-- The ordinals of a join against a primary key come in request order already. -/
theorem visibleOrdinals_eq (m : PostgresMetadata) (ns : String)
    (requests : List (Digest × Int64)) :
    m.visibleOrdinals ns requests = requests.zipIdx.flatMap fun entry =>
      (m.namespaceBlobs.lookup (requestedKey ns entry.1)).toList.map fun _ => entry.2 + 1 := by
  unfold visibleOrdinals
  simp only [Table.filter_key]
  apply List.mergeSort_of_pairwise
  rw [List.pairwise_flatMap]
  constructor
  · rintro ⟨request, index⟩ _
    cases m.namespaceBlobs.lookup (requestedKey ns request) <;> simp
  · have increasing : requests.zipIdx.Pairwise fun one other => one.2 < other.2 := by
      rw [← List.pairwise_map (f := Prod.snd) (R := (· < ·))]
      rw [List.zipIdx_map_snd]
      exact List.pairwise_lt_range'
    refine increasing.imp fun less => ?_
    intro one first other second
    simp only [List.mem_map] at first second
    obtain ⟨_, _, rfl⟩ := first
    obtain ⟨_, _, rfl⟩ := second
    simpa using Nat.le_of_lt less

/-- Reading ordinals back finds the requests that have a row. -/
theorem digestAt_ordinals (m : PostgresMetadata) (ns : String) (front rest : List (Digest × Int64)) :
    ((rest.zipIdx front.length).flatMap fun entry =>
      (m.namespaceBlobs.lookup (requestedKey ns entry.1)).toList.map fun _ => entry.2 + 1).mapM
        (digestAt (front ++ rest)) =
      .ok (rest.filterMap fun request =>
        if (m.namespaceBlobs.lookup (requestedKey ns request)).isSome then some request.1
        else none) := by
  induction rest generalizing front with
  | nil => rfl
  | cons request others ih =>
      have shifted := ih (front ++ [request])
      rw [List.append_assoc, List.singleton_append, List.length_append, List.length_singleton]
        at shifted
      rw [List.zipIdx_cons, List.flatMap_cons, List.mapM_append]
      have here : digestAt (front ++ request :: others) (front.length + 1) = .ok request.1 := by
        simp [digestAt]
      cases found : m.namespaceBlobs.lookup (requestedKey ns request) with
      | none =>
          simp only [Option.toList_none, List.map_nil, List.mapM_nil, shifted]
          simp [found, bind, Except.bind, pure, Except.pure]
      | some row =>
          simp only [Option.toList_some, List.map_cons, List.map_nil, List.mapM_cons, here,
            List.mapM_nil, shifted]
          simp [found, bind, Except.bind, pure, Except.pure]

theorem rowKey_storable {ns : String} {digest : Digest} (name : IsNamespace ns)
    (valid : digest.validate = true) : (rowKey ns digest).storable = true := by
  obtain ⟨⟨algorithm, kind⟩, -, hash⟩ := (validate_iff digest).mp valid
  have known : digest.algorithm = algorithm.asStr := (algorithmKind_asStr _ _).mp kind
  have text : validString algorithm.asStr = true := by cases algorithm <;> decide
  have plain : ∀ {value : String} {test : Char → Bool}, test '\x00' = false →
      (∀ c ∈ value.toList, test c = true) → validString value = true := by
    intro value test fails passes
    simp only [validString, Bool.not_eq_true', ← Bool.not_eq_true, List.contains_iff_mem]
    intro member
    rw [passes _ member] at fails
    cases fails
  simp only [RowKey.storable, rowKey, known, text, Bool.and_true, Bool.and_eq_true]
  exact ⟨plain (by decide) name.chars, plain (by decide) hash⟩

theorem requests_sent {ns : String} {requests : List (Digest × Int64)}
    (refused : sendable ns requests = false) : requests ≠ [] := by
  rintro rfl
  cases refused

theorem sendable_storable {ns : String} {digests : List Digest}
    (storable : ∀ digest ∈ digests, (rowKey ns digest).storable = true) :
    sendable ns (representableDigests digests) = true := by
  simp only [sendable, List.all_eq_true]
  intro request member
  rw [representable_key ns member]
  simp only [representableDigests, List.mem_filterMap] at member
  obtain ⟨digest, listed, given⟩ := member
  split at given <;> cases given
  exact storable digest listed

section
variable [Protocol]

theorem visible_storable {m : PostgresMetadata} {ns : String} {digest : Digest} (_ : m.Valid)
    (seen : m.view.visible ns digest = true) : (rowKey ns digest).storable = true := by
  by_contra refused
  have absent := lookup_unstorable m.namespaceBlobs (Bool.eq_false_iff.mpr refused)
  simp [view, absent] at seen

theorem visibleBlobs_view {m : PostgresMetadata} {ns : String} {digests : List Digest}
    (sent : sendable ns (representableDigests digests) = true) :
    m.visibleBlobs ns digests = .ok (digests.filter (m.view.visible ns)) := by
  have kept : (representableDigests digests).filterMap (fun request =>
        if (m.namespaceBlobs.lookup (requestedKey ns request)).isSome then some request.1
        else none) = digests.filter (m.view.visible ns) := by
    calc
      _ = (representableDigests digests).filterMap (fun request =>
            if m.view.visible ns request.1 then some request.1 else none) := by
          apply List.filterMap_congr
          intro request member
          rw [representable_key ns member]
          rfl
      _ = digests.filterMap (fun digest =>
            if m.view.visible ns digest then some digest else none) := by
          apply representable_filterMap digests
            (fun digest => if m.view.visible ns digest then some digest else none)
          intro digest large
          simp [view, lookup_unrepresentable m.namespaceBlobs ns
            (fun row checks => checkKey_nonneg checks) large]
      _ = digests.filter (m.view.visible ns) := by
          rw [← List.filterMap_eq_filter]
          rfl
  unfold visibleBlobs
  simp only
  split <;> rename_i requests
  · rw [← kept, requests]
    rfl
  · rw [if_neg (by simp [sent]), visibleOrdinals_eq, ← kept]
    exact digestAt_ordinals m ns [] (representableDigests digests)

theorem get_view {m : PostgresMetadata} {ns : String} {action : Digest} (valid : m.Valid)
    (storable : (rowKey ns action).storable = true) :
    m.get ns action = .ok (m.view.result ns action) := by
  unfold get view
  rw [if_neg (by simp [storable])]
  cases found : m.actionResults.lookup (rowKey ns action) with
  | none => simp [found]
  | some row =>
      obtain ⟨result, stored⟩ := valid.results row (Table.lookup_mem found)
      simp [found, decodeResult, stored, Protocol.valueResult_resultValue, Except.map]

theorem mapM_decodeResult (results : List ActionResult) :
    (results.map Protocol.resultValue).mapM decodeResult = .ok results := by
  induction results with
  | nil => rfl
  | cons result rest ih =>
      simp [decodeResult, Protocol.valueResult_resultValue, ih, bind, Except.bind, pure,
        Except.pure]

theorem getBatch_view {m : PostgresMetadata} {ns : String} {actions : List Digest}
    (valid : m.Valid) (sent : sendable ns (representableDigests actions) = true) :
    m.getBatch ns actions = .ok (actions.filterMap (m.view.result ns)) := by
  have stored : ∀ digest, (m.actionResults.lookup (rowKey ns digest)).map (·.result) =
      (m.view.result ns digest).map Protocol.resultValue := by
    intro digest
    cases found : m.actionResults.lookup (rowKey ns digest) with
    | none => simp [view, found]
    | some row =>
        obtain ⟨result, value⟩ := valid.results row (Table.lookup_mem found)
        simp [view, found, value, Protocol.valueResult_resultValue]
  have rows : (m.batchRows ns (representableDigests actions)).filterMap id =
      (actions.filterMap (m.view.result ns)).map Protocol.resultValue := by
    calc
      _ = (representableDigests actions).filterMap (fun request =>
            (m.view.result ns request.1).map Protocol.resultValue) := by
          rw [batchRows, List.filterMap_map]
          apply List.filterMap_congr
          intro request member
          simp only [Function.comp, id, representable_key ns member, stored]
      _ = actions.filterMap (fun digest =>
            (m.view.result ns digest).map Protocol.resultValue) := by
          apply representable_filterMap actions
            (fun digest => (m.view.result ns digest).map Protocol.resultValue)
          intro digest large
          simp [view, lookup_unrepresentable m.actionResults ns
            (fun row checks => checkKey_nonneg checks) large]
      _ = _ := by rw [List.map_filterMap]
  unfold getBatch
  simp only
  split <;> rename_i requests
  · rw [requests] at rows
    simp only [batchRows, List.map_nil, List.filterMap_nil] at rows
    rw [List.map_eq_nil_iff.mp rows.symm]
  · rw [if_neg (by simp [sent]), rows, mapM_decodeResult]

theorem Valid.of_blobs {m after : PostgresMetadata} (valid : m.Valid)
    (results : after.actionResults = m.actionResults)
    (manifests : after.actionManifests = m.actionManifests) : after.Valid :=
  ⟨results ▸ valid.results, manifests ▸ valid.manifests⟩

theorem registerBlob_view {m : PostgresMetadata} (now : Instant) (ns : String) (digest : Digest)
    (stored : PutOutcome) (valid : m.Valid)
    (fits : ((rowKey ns digest).storable && checkKey (rowKey ns digest)) = true) :
    ∃ after, m.registerBlob now ns digest stored = .ok after ∧ after.Valid ∧
      after.view = m.view.register ns digest := by
  obtain ⟨storable, -⟩ := Bool.and_eq_true_iff.mp fits
  obtain ⟨blobs, upserted, lookups⟩ := Table.upsert_lookup m.namespaceBlobs
    ⟨rowKey ns digest, now, now⟩ (.refresh now stored) (fun _ => rfl) (fun _ => rfl) fits
  refine ⟨{ m with namespaceBlobs := blobs }, ?_, valid.of_blobs rfl rfl, ?_⟩
  · simp [registerBlob, storable, upserted]
  · simp only [view, View.register, View.mk.injEq, and_true]
    funext other key
    rw [lookups, View.assign]
    by_cases same : other = ns ∧ key = digest
    · rw [if_pos same, if_pos (rowKey_inj.mpr same)]
      rfl
    · rw [if_neg same, if_neg fun keys => same (rowKey_inj.mp keys)]

omit [Protocol] in
theorem registerBlob_refused (m : PostgresMetadata) (now : Instant) (ns : String)
    (digest : Digest) (stored : PutOutcome)
    (refused : ((rowKey ns digest).storable && checkKey (rowKey ns digest)) = false) :
    m.registerBlob now ns digest stored = .error .fault := by
  unfold registerBlob
  cases storable : (rowKey ns digest).storable with
  | false => simp [storable]
  | true =>
      have none := Table.upsert_refused m.namespaceBlobs ⟨rowKey ns digest, now, now⟩
        (.refresh now stored) (fun _ => rfl) (fun _ => rfl) refused
      simp [storable, none]

theorem forgetBlob_view {m : PostgresMetadata} {ns : String} {digest : Digest} (valid : m.Valid)
    (storable : (rowKey ns digest).storable = true) :
    ∃ after, m.forgetBlob ns digest = .ok after ∧ after.Valid ∧
      after.view = m.view.forget ns digest := by
  refine ⟨_, if_neg (by simp [storable]), valid.of_blobs rfl rfl, ?_⟩
  simp only [view, View.forget, View.mk.injEq, and_true]
  funext other key
  rw [Table.lookup_delete, View.assign]
  by_cases same : other = ns ∧ key = digest
  · rw [if_pos same, if_pos (rowKey_inj.mpr same)]
    rfl
  · rw [if_neg same, if_neg fun keys => same (rowKey_inj.mp keys)]

theorem touchBlobs_view {m : PostgresMetadata} {ns : String} {digests : List Digest}
    (now : Instant) (valid : m.Valid)
    (sent : sendable ns (representableDigests digests) = true) :
    ∃ after, m.touchBlobs now ns digests = .ok after ∧ after.Valid ∧ after.view = m.view := by
  unfold touchBlobs
  simp only
  split
  · exact ⟨m, rfl, valid, rfl⟩
  · refine ⟨_, if_neg (by simp [sent]), valid.of_blobs rfl rfl, ?_⟩
    simp only [view, View.mk.injEq, and_true]
    funext other key
    rw [Table.lookup_update]
    simp

theorem commitInsert_view {m : PostgresMetadata} (now : Instant) (ns : String) (action : Digest)
    (result : ActionResult) (valid : m.Valid)
    (fits : ((rowKey ns action).storable && (Protocol.resultValue result).storable &&
      checkKey (rowKey ns action)) = true) :
    ∃ after, m.commitInsert now ns action result =
        .ok (after, m.view.commitStep true ns action result) ∧ after.Valid ∧
      after.view = (m.view.commit ns action result).1 := by
  obtain ⟨storable, checks⟩ := Bool.and_eq_true_iff.mp fits
  have checks : ((rowKey ns action).storable && checkKey (rowKey ns action)) = true := by
    rw [(Bool.and_eq_true_iff.mp storable).1, checks, Bool.and_self]
  let row : ResultRow := ⟨rowKey ns action, Protocol.resultValue result, now⟩
  cases found : m.actionResults.lookup (rowKey ns action) with
  | some existing =>
      obtain ⟨held, stored⟩ := valid.results existing (Table.lookup_mem found)
      have present : m.view.result ns action = some held := by
        simp [view, found, stored, Protocol.valueResult_resultValue]
      have conflict := Table.insertIfAbsent_present m.actionResults row checks found
      refine ⟨m, ?_, valid, ?_⟩
      · simp [commitInsert, storable, row, conflict, View.commitStep, present]
      · simp [View.commit, present]
  | none =>
      have absent : m.view.result ns action = none := by simp [view, found]
      obtain ⟨results, inserted, lookups⟩ := Table.insertIfAbsent_absent m.actionResults row checks found
      refine ⟨{ m with actionResults := results }, ?_, ?_, ?_⟩
      · simp [commitInsert, storable, row, inserted, View.commitStep, View.commit, absent]
      · refine ⟨?_, valid.manifests⟩
        intro row member
        have looked := Table.mem_lookup member
        rw [lookups] at looked
        split at looked
        · cases looked
          exact ⟨result, rfl⟩
        · exact valid.results row (Table.lookup_mem looked)
      · simp only [view, View.commit, View.setResult]
        rw [show (m.actionResults.lookup (rowKey ns action)) = none from found]
        simp only [Option.bind_none, View.mk.injEq, true_and, and_true]
        funext other key
        rw [lookups, View.assign]
        by_cases same : other = ns ∧ key = action
        · rw [if_pos same, if_pos (rowKey_inj.mpr same)]
          exact Protocol.valueResult_resultValue result
        · rw [if_neg same, if_neg fun keys => same (rowKey_inj.mp keys)]

theorem commitInsert_refused (m : PostgresMetadata) (now : Instant) (ns : String)
    (action : Digest) (result : ActionResult)
    (refused : ((rowKey ns action).storable && (Protocol.resultValue result).storable &&
      checkKey (rowKey ns action)) = false) :
    m.commitInsert now ns action result = .error .fault := by
  unfold commitInsert
  cases storable : (rowKey ns action).storable && (Protocol.resultValue result).storable with
  | false => simp [storable]
  | true =>
      rw [storable, Bool.true_and] at refused
      have refused : ((rowKey ns action).storable && checkKey (rowKey ns action)) = false := by
        rw [refused, Bool.and_false]
      have none := Table.insertIfAbsent_refused m.actionResults
        ⟨rowKey ns action, Protocol.resultValue result, now⟩ refused
      simp [storable, none]

theorem commitSelect_view {m : PostgresMetadata} (ns : String) (action : Digest)
    (result : ActionResult) (valid : m.Valid) :
    m.commitSelect ns action result =
      match m.view.result ns action with
      | none => .error .fault
      | some held => .ok (View.verdict held result) := by
  unfold commitSelect
  cases storable : (rowKey ns action).storable with
  | false =>
      have absent : m.view.result ns action = none := by
        simp [view, lookup_unstorable m.actionResults storable]
      simp [get, storable, absent]
  | true =>
      rw [get_view valid storable]
      cases m.view.result ns action with
      | none => rfl
      | some held =>
          by_cases same : held = result
          · simp [View.verdict, same]
          · have different : Protocol.resultValue held ≠ Protocol.resultValue result :=
              fun values => same (resultValue_injective values)
            simp [View.verdict, same, different]

theorem getManifest_view {m : PostgresMetadata} {ns : String} {key : Digest} (valid : m.Valid)
    (storable : (rowKey ns key).storable = true) :
    m.getManifest ns key = .ok (m.view.manifest ns key) := by
  unfold getManifest view
  rw [if_neg (by simp [storable])]
  cases found : m.actionManifests.lookup (rowKey ns key) with
  | none => simp [found]
  | some row =>
      obtain ⟨manifest, stored⟩ := valid.manifests row (Table.lookup_mem found)
      simp [found, decodeManifest, stored, Protocol.valueManifest_manifestValue, Except.map]

/-- What a manifest write needs: text a column can hold, and for a new row a key
that passes the checks. -/
def manifestFits (ns : String) (key : Digest) (expected : Option String)
    (record : ManifestRecord) : Bool :=
  (rowKey ns key).storable && validString record.etag &&
    (Protocol.manifestValue record.manifest).storable && expected.all validString &&
    (expected.isSome || checkManifestKey (rowKey ns key))

theorem commitManifest_update {m : PostgresMetadata} (now : Instant) (ns : String) (key : Digest)
    (expected : String) (record : ManifestRecord) (valid : m.Valid)
    (fits : manifestFits ns key (some expected) record = true) :
    ∃ after, m.commitManifest now ns key (some expected) record.etag record.manifest =
        .ok (after, (m.view.commitManifest ns key (some expected) record).2) ∧ after.Valid ∧
      after.view = (m.view.commitManifest ns key (some expected) record).1 := by
  obtain ⟨storable, -⟩ := Bool.and_eq_true_iff.mp fits
  simp only [Bool.and_eq_true, Option.all_some] at storable
  let change (row : ManifestRow) : ManifestRow := { row with
    etag := record.etag, manifest := Protocol.manifestValue record.manifest, updatedAt := now }
  let updated := m.actionManifests.update
    (fun row => row.key = rowKey ns key && row.etag = expected) change (fun _ => rfl) (fun _ => rfl)
  have count : updated.2 =
      if (m.actionManifests.lookup (rowKey ns key)).any fun row => row.etag = expected then 1
      else 0 :=
    Table.update_count m.actionManifests (rowKey ns key) (fun row => row.etag = expected) change
      (fun _ => rfl) (fun _ => rfl)
  have lookups : ∀ wanted, updated.1.lookup wanted =
      (m.actionManifests.lookup wanted).map fun row =>
        if row.key = rowKey ns key && row.etag = expected then change row else row :=
    Table.lookup_update m.actionManifests _ change (fun _ => rfl) (fun _ => rfl)
  have committed : m.commitManifest now ns key (some expected) record.etag record.manifest =
      .ok ({ m with actionManifests := updated.1 },
        if updated.2 = 0 then .preconditionFailed else .updated) := by
    simp [commitManifest, storable, updated, change]
  have readable : { m with actionManifests := updated.1 }.Valid := by
    refine ⟨valid.results, ?_⟩
    intro row member
    obtain ⟨old, present, rfl⟩ := List.mem_map.mp member
    split
    · exact ⟨record.manifest, rfl⟩
    · exact valid.manifests old present
  have others : ∀ wanted, wanted ≠ rowKey ns key →
      updated.1.lookup wanted = m.actionManifests.lookup wanted := by
    intro wanted different
    rw [lookups]
    cases found : m.actionManifests.lookup wanted with
    | none => rfl
    | some row => simp [Table.lookup_key found, different]
  have unchanged : updated.1.lookup (rowKey ns key) = m.actionManifests.lookup (rowKey ns key) →
      { m with actionManifests := updated.1 }.view = m.view := by
    intro same
    simp only [view, View.mk.injEq, true_and]
    funext other digest
    by_cases keys : rowKey other digest = rowKey ns key
    · rw [keys, same]
    · rw [others _ keys]
  refine ⟨{ m with actionManifests := updated.1 }, ?_, readable, ?_⟩
  all_goals
    cases found : m.actionManifests.lookup (rowKey ns key) with
    | none =>
        have absent : m.view.manifest ns key = none := by simp [view, found]
        have same : updated.1.lookup (rowKey ns key) = none := by rw [lookups, found]; rfl
        rw [found] at count unchanged
        simp [committed, count, View.commitManifest, View.matchesEtag, absent, unchanged same]
    | some row =>
        obtain ⟨held, stored⟩ := valid.manifests row (Table.lookup_mem found)
        have present : m.view.manifest ns key = some ⟨row.etag, held⟩ := by
          simp [view, found, stored, Protocol.valueManifest_manifestValue]
        rw [found] at count unchanged
        by_cases etags : row.etag = expected
        · have replaced : updated.1.lookup (rowKey ns key) = some (change row) := by
            rw [lookups, found]
            simp [Table.lookup_key found, etags]
          have assigned : { m with actionManifests := updated.1 }.view =
              m.view.setManifest ns key record := by
            simp only [view, View.setManifest, View.mk.injEq, true_and]
            funext other digest
            by_cases same : other = ns ∧ digest = key
            · rw [same.1, same.2, View.assign_same, replaced]
              simp [change, Protocol.valueManifest_manifestValue]
            · rw [View.assign_other _ _ same, others _ fun keys => same (rowKey_inj.mp keys)]
          simp [committed, count, etags, View.commitManifest, View.matchesEtag, present, assigned]
        · have same : updated.1.lookup (rowKey ns key) = some row := by
            rw [lookups, found]
            simp [etags]
          simp [committed, count, etags, View.commitManifest, View.matchesEtag, present,
            unchanged same]

theorem commitManifest_insert {m : PostgresMetadata} (now : Instant) (ns : String) (key : Digest)
    (record : ManifestRecord) (valid : m.Valid)
    (fits : manifestFits ns key none record = true) :
    ∃ after, m.commitManifest now ns key none record.etag record.manifest =
        .ok (after, (m.view.commitManifest ns key none record).2) ∧ after.Valid ∧
      after.view = (m.view.commitManifest ns key none record).1 := by
  obtain ⟨storable, checks⟩ := Bool.and_eq_true_iff.mp fits
  simp only [Bool.and_eq_true] at storable
  have fits : ((rowKey ns key).storable && checkManifestKey (rowKey ns key)) = true := by
    rw [storable.1.1.1, Bool.true_and]
    exact checks
  let row : ManifestRow :=
    ⟨rowKey ns key, record.etag, Protocol.manifestValue record.manifest, now, now⟩
  cases found : m.actionManifests.lookup (rowKey ns key) with
  | some existing =>
      obtain ⟨held, stored⟩ := valid.manifests existing (Table.lookup_mem found)
      have present : m.view.manifest ns key = some ⟨existing.etag, held⟩ := by
        simp [view, found, stored, Protocol.valueManifest_manifestValue]
      have conflict := Table.insertIfAbsent_present m.actionManifests row fits found
      refine ⟨m, ?_, valid, ?_⟩
      · simp [commitManifest, storable, row, conflict, View.commitManifest, View.matchesEtag,
          present]
      · simp [View.commitManifest, View.matchesEtag, present]
  | none =>
      have absent : m.view.manifest ns key = none := by simp [view, found]
      obtain ⟨manifests, inserted, lookups⟩ :=
        Table.insertIfAbsent_absent m.actionManifests row fits found
      refine ⟨{ m with actionManifests := manifests }, ?_, ⟨valid.results, ?_⟩, ?_⟩
      · simp [commitManifest, storable, row, inserted, View.commitManifest, View.matchesEtag,
          absent]
      · intro other member
        have looked := Table.mem_lookup member
        rw [lookups] at looked
        split at looked
        · cases looked
          exact ⟨record.manifest, rfl⟩
        · exact valid.manifests other (Table.lookup_mem looked)
      · simp only [View.commitManifest, absent, View.matchesEtag, if_true]
        simp only [view, View.setManifest, View.mk.injEq, true_and]
        funext other digest
        rw [lookups, View.assign]
        by_cases same : other = ns ∧ digest = key
        · rw [if_pos same, if_pos (rowKey_inj.mpr same)]
          simp [row, Protocol.valueManifest_manifestValue]
        · rw [if_neg same, if_neg fun keys => same (rowKey_inj.mp keys)]

theorem commitManifest_refused (m : PostgresMetadata) (now : Instant) (ns : String) (key : Digest)
    (expected : Option String) (record : ManifestRecord)
    (refused : manifestFits ns key expected record = false) :
    m.commitManifest now ns key expected record.etag record.manifest = .error .fault := by
  unfold manifestFits at refused
  unfold commitManifest
  cases storable : (rowKey ns key).storable && validString record.etag &&
      (Protocol.manifestValue record.manifest).storable && expected.all validString with
  | false => simp [storable]
  | true =>
      rw [storable, Bool.true_and] at refused
      cases expected with
      | some expected => cases refused
      | none =>
          have refused : ((rowKey ns key).storable && checkManifestKey (rowKey ns key)) = false := by
            rw [show checkManifestKey (rowKey ns key) = false from refused, Bool.and_false]
          simp only [Bool.and_eq_true] at storable
          have none := Table.insertIfAbsent_refused m.actionManifests
            ⟨rowKey ns key, record.etag, Protocol.manifestValue record.manifest, now, now⟩ refused
          simp [storable, none]

instance : MetadataStore PostgresMetadata where
  empty := empty
  visibleBlobs := visibleBlobs
  registerBlob := registerBlob
  forgetBlob := forgetBlob
  touchBlobs := touchBlobs
  get := get
  getBatch := getBatch
  commit := commitInsert
  resolve := commitSelect
  getManifest := getManifest
  commitManifest m now ns key expected record :=
    m.commitManifest now ns key expected record.etag record.manifest
  defers := true
  valid := Valid
  view := view
  names ns digest := (rowKey ns digest).storable
  lists ns digests := sendable ns (representableDigests digests)
  representsBlob ns digest := (rowKey ns digest).storable && checkKey (rowKey ns digest)
  representsResult ns action result :=
    (rowKey ns action).storable && (Protocol.resultValue result).storable &&
      checkKey (rowKey ns action)
  representsManifest := manifestFits
  empty_valid := ⟨by simp [empty, Table.empty], by simp [empty, Table.empty]⟩
  empty_view := rfl
  names_valid := rowKey_storable
  names_visible := visible_storable
  lists_names := sendable_storable
  visibleBlobs_view _ sent := visibleBlobs_view sent
  visibleBlobs_refused refused := by
    simp only [visibleBlobs, refused, Bool.not_false, if_true]
    rw [if_neg (requests_sent refused)]
  registerBlob_view := registerBlob_view
  registerBlob_refused := registerBlob_refused
  forgetBlob_view := forgetBlob_view
  forgetBlob_refused refused := by simp [forgetBlob, refused]
  touchBlobs_view := touchBlobs_view
  get_view := get_view
  get_refused refused := by simp [get, refused]
  getBatch_view := getBatch_view
  getBatch_refused refused := by
    simp only [getBatch, refused, Bool.not_false, if_true]
    rw [if_neg (requests_sent refused)]
  commit_view := commitInsert_view
  commit_refused := commitInsert_refused
  resolve_view := commitSelect_view
  getManifest_view := getManifest_view
  getManifest_refused refused := by simp [getManifest, refused]
  commitManifest_view now ns key expected record valid fits := by
    cases expected with
    | some expected => exact commitManifest_update now ns key expected record valid fits
    | none => exact commitManifest_insert now ns key record valid fits
  commitManifest_refused := commitManifest_refused

end
end PostgresMetadata
end MbxCache
