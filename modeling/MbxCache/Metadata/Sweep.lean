import MbxCache.Metadata.Postgres
import MbxCache.Relational.Ternary
import MbxCache.Specimen

/-! The sweep of old metadata (`metadata/postgres.rs`). -/

namespace MbxCache

open Relational

structure SweepOutcome where
  blobs : Nat
  actionResults : Nat
  manifests : Nat
  deriving DecidableEq, Repr

inductive SweepStep
  | begin
  | blobs
  | actionResults
  | manifests
  | commit
  deriving DecidableEq, Repr

/-- What the database brings to a sweep: the text of values that are no strings, the number
an odd text casts to, if it does, and which casts a plan evaluates before it needs them. -/
structure SweepPlan where
  text : Json → String
  cast : Json → Except Failure (Option Int64)
  eager : ResultRow → Bool

/-- `now()` is the same throughout a transaction. -/
structure SweepRun where
  now : Instant
  olderThanDays : UInt32
  plan : SweepPlan
  fails : SweepStep → Option Failure

namespace Json

/-- `value -> 'name'`: only an object has fields, and none is `NULL`. -/
def arrow (value : Json) (name : String) : Option Json :=
  value.asObject.bind fun fields => fields.lookup name

/-- `jsonb_typeof` -/
def typeOf : Json → String
  | .null => "null"
  | .bool _ => "boolean"
  | .unsigned _ | .number _ => "number"
  | .string _ => "string"
  | .array _ => "array"
  | .object _ => "object"

end Json

namespace SweepPlan

/-- `value ->> 'name'`: the text of a field, `NULL` for a JSON null. -/
def arrowText (plan : SweepPlan) (value : Json) (name : String) : Option String :=
  match value.arrow name with
  | none | some .null => none
  | some (.string text) => some text
  | some other => some (plan.text other)

/-- `(value ->> 'size')::bigint`, an error when the text is no 64-bit number. -/
def sizeOf (plan : SweepPlan) (value : Json) : Except Failure (Option Int64) :=
  match value.arrow "size" with
  | none | some .null => .ok none
  | some (.unsigned size) => if size.toNat < 2 ^ 63 then .ok (some size.toInt64) else .error .fault
  | some other => plan.cast other

def sameText (plan : SweepPlan) (row : ResultRow) (digest : Json) (blob : BlobRow) : Truth :=
  ((Truth.eq (some blob.key.ns) (some row.key.ns)).and
    (Truth.eq (some blob.key.algorithm) (plan.arrowText digest "algorithm"))).and
      (Truth.eq (some blob.key.hash) (plan.arrowText digest "hash"))

def sameBlob (plan : SweepPlan) (row : ResultRow) (digest : Json) (blob : BlobRow) : Truth :=
  (plan.sameText row digest blob).and
    (Truth.eq (some blob.key.size) ((plan.sizeOf digest).toOption.bind id))

/-- `(VALUES (result -> 'metadata'), (result -> 'output_root'))` -/
def referenced (row : ResultRow) : List (Option Json) :=
  [row.result.arrow "metadata", row.result.arrow "output_root"]

def unbacked (plan : SweepPlan) (blobs : List BlobRow) (row : ResultRow) (digest : Option Json) :
    Truth :=
  (Truth.eq (digest.map Json.typeOf) (some "object")).and
    (Truth.anyRow blobs fun blob =>
      match digest with
      | none => none
      | some digest => plan.sameBlob row digest blob).not

def dangles (plan : SweepPlan) (blobs : List BlobRow) (row : ResultRow) : Truth :=
  Truth.anyRow (referenced row) (plan.unbacked blobs row)

/-- A cast that fails and is evaluated: because a comparison needs it, or anyway. -/
def castFails (plan : SweepPlan) (blobs : List BlobRow) (row : ResultRow) : Bool :=
  (referenced row).any fun digest =>
    match digest with
    | none => false
    | some digest => (plan.sizeOf digest).toOption.isNone &&
        (plan.eager row || blobs.any fun blob => (plan.sameText row digest blob).holds)

end SweepPlan

namespace SweepRun

variable (run : SweepRun)

/-- `now() - interval`, in microseconds. -/
def cutoff : Int := run.now - run.olderThanDays.toNat * 86400000000

/-- `stamp < now() - $1::interval` -/
def older (stamp : Instant) : Truth := some ((stamp : Int) < run.cutoff)

def attempt (step : SweepStep) : Except Failure Unit :=
  match run.fails step with
  | some failure => .error failure
  | none => .ok ()

def statements (m : PostgresMetadata) : Except Failure (PostgresMetadata × SweepOutcome) := do
  run.attempt .begin
  run.attempt .blobs
  let blobs := m.namespaceBlobs.deleteWhere fun row => run.older row.createdAt
  run.attempt .actionResults
  if m.actionResults.rows.any (run.plan.castFails blobs.1.rows) then .error .fault
  else
    let results := m.actionResults.deleteWhere (run.plan.dangles blobs.1.rows)
    run.attempt .manifests
    let manifests := m.actionManifests.deleteWhere fun row => run.older row.updatedAt
    run.attempt .commit
    return (⟨results.1, blobs.1, manifests.1⟩, ⟨blobs.2, results.2, manifests.2⟩)

def sweep (m : PostgresMetadata) : PostgresMetadata × Except Failure SweepOutcome :=
  match run.statements m with
  | .error failure => (m, .error failure)
  | .ok (after, outcome) => (after, .ok outcome)

end SweepRun

inductive HoldsDigest : Option Json → Option Digest → Prop
  | absent : HoldsDigest none none
  | null : HoldsDigest (some .null) none
  | digest {value : Json} {digest : Digest} (object : value.typeOf = "object")
      (algorithm : value.arrow "algorithm" = some (.string digest.algorithm))
      (hash : value.arrow "hash" = some (.string digest.hash))
      (size : value.arrow "size" = some (.unsigned digest.size)) :
      HoldsDigest (some value) (some digest)

/-- A stored result with a digest, a null or nothing where a digest can be. -/
def Shaped (result : Json) : Prop :=
  ∃ metadata outputRoot, HoldsDigest (result.arrow "metadata") metadata ∧
    HoldsDigest (result.arrow "output_root") outputRoot

def NamesDigest (result : Json) (digest : Digest) : Prop :=
  HoldsDigest (result.arrow "metadata") (some digest) ∨
    HoldsDigest (result.arrow "output_root") (some digest)

structure SweptMetadata where
  store : PostgresMetadata
  shaped : ∀ row ∈ store.actionResults.rows, Shaped row.result

structure BlobRow.IsFor (blob : BlobRow) (ns : String) (digest : Digest) : Prop where
  ns : blob.key.ns = ns
  algorithm : blob.key.algorithm = digest.algorithm
  hash : blob.key.hash = digest.hash
  size : blob.key.size.toInt = digest.size.toNat

theorem size_eq_iff (held : Int64) (size : UInt64) :
    held.toInt = size.toNat ↔ size.toNat < 2 ^ 63 ∧ held = size.toInt64 := by
  have bits : size.toInt64.toInt = size.toBitVec.toInt := rfl
  rw [BitVec.toInt_eq_toNat_cond, UInt64.toNat_toBitVec] at bits
  have below : held.toInt < 2 ^ 63 := held.toInt_lt
  constructor
  · intro same
    have small : size.toNat < 2 ^ 63 := by omega
    rw [if_pos (by omega)] at bits
    exact ⟨small, Int64.toInt_inj.mp (same.trans bits.symm)⟩
  · rintro ⟨small, rfl⟩
    rw [bits, if_pos (by omega)]

theorem HoldsDigest.object {value : Json} {digest : Digest}
    (held : HoldsDigest (some value) (some digest)) : value.typeOf = "object" := by
  cases held with
  | digest object algorithm hash size => exact object

theorem HoldsDigest.unique {value : Option Json} {one other : Option Digest}
    (held : HoldsDigest value one) (held' : HoldsDigest value other) : one = other := by
  cases held with
  | absent =>
      cases held'
      rfl
  | null =>
      cases held' with
      | null => rfl
      | digest object algorithm hash size => exact absurd object (by decide)
  | @digest value digest object algorithm hash size =>
      cases held' with
      | null => exact absurd object (by decide)
      | @digest _ digest' _ algorithm' hash' size' =>
          have kind := Option.some.inj (algorithm.symm.trans algorithm')
          have name := Option.some.inj (hash.symm.trans hash')
          have length := Option.some.inj (size.symm.trans size')
          cases digest
          cases digest'
          simp_all

namespace SweepPlan

variable (plan : SweepPlan)

theorem holds_sameBlob {row : ResultRow} {value : Json} {digest : Digest} (blob : BlobRow)
    (held : HoldsDigest (some value) (some digest)) :
    (plan.sameBlob row value blob).holds = true ↔ blob.IsFor row.key.ns digest := by
  cases held with
  | digest object algorithm hash size =>
      have cast : (plan.sizeOf value).toOption.bind id =
          if digest.size.toNat < 2 ^ 63 then some digest.size.toInt64 else none := by
        simp only [sizeOf, size]
        split <;> rfl
      have number : (if digest.size.toNat < 2 ^ 63 then some digest.size.toInt64 else none) =
          some blob.key.size ↔ blob.key.size.toInt = digest.size.toNat := by
        rw [size_eq_iff]
        split <;> simp_all [eq_comm]
      simp only [sameBlob, sameText, Truth.holds_and, Truth.holds_eq, arrowText, algorithm, hash,
        cast, Option.some.injEq, exists_eq_left', number]
      constructor
      · rintro ⟨⟨⟨ns, kind⟩, name⟩, length⟩
        exact ⟨ns.symm, kind.symm, name.symm, length⟩
      · rintro ⟨ns, kind, name, length⟩
        exact ⟨⟨⟨ns.symm, kind.symm⟩, name.symm⟩, length⟩

theorem holds_unbacked {blobs : List BlobRow} {row : ResultRow} {value : Option Json}
    {found : Option Digest} (held : HoldsDigest value found) :
    (plan.unbacked blobs row value).holds = true ↔
      ∃ digest, found = some digest ∧ ∀ blob ∈ blobs, ¬ blob.IsFor row.key.ns digest := by
  simp only [unbacked, Truth.holds_and, Truth.holds_eq, Truth.holds_not_anyRow]
  cases value with
  | none =>
      cases held
      simp
  | some value =>
      cases found with
      | none =>
          cases held
          simp [Json.typeOf]
      | some digest => simp [held.object, plan.holds_sameBlob _ held]

/-- A result goes exactly when it names a digest that has no row. -/
theorem holds_dangles {blobs : List BlobRow} {row : ResultRow} (shaped : Shaped row.result) :
    (plan.dangles blobs row).holds = true ↔
      ∃ digest, NamesDigest row.result digest ∧ ∀ blob ∈ blobs, ¬ blob.IsFor row.key.ns digest := by
  obtain ⟨metadata, outputRoot, first, second⟩ := shaped
  simp only [dangles, referenced, Truth.holds_anyRow, List.mem_cons, List.not_mem_nil, or_false,
    exists_eq_or_imp, exists_eq_left, plan.holds_unbacked first, plan.holds_unbacked second]
  constructor
  · rintro (⟨digest, rfl, lost⟩ | ⟨digest, rfl, lost⟩)
    · exact ⟨digest, .inl first, lost⟩
    · exact ⟨digest, .inr second, lost⟩
  · rintro ⟨digest, held | held, lost⟩
    · exact .inl ⟨digest, first.unique held, lost⟩
    · exact .inr ⟨digest, second.unique held, lost⟩

theorem castFails_small {blobs : List BlobRow} {row : ResultRow} (shaped : Shaped row.result)
    (small : ∀ digest, NamesDigest row.result digest → digest.size.toNat < 2 ^ 63) :
    plan.castFails blobs row = false := by
  obtain ⟨metadata, outputRoot, first, second⟩ := shaped
  have casts {value : Option Json} {found : Option Digest} (held : HoldsDigest value found)
      (fits : ∀ digest, found = some digest → digest.size.toNat < 2 ^ 63) :
      ∀ inner, value = some inner → (plan.sizeOf inner).toOption.isNone = false := by
    rintro inner rfl
    cases held with
    | null => rfl
    | @digest _ digest object algorithm hash size =>
        have short := fits digest rfl
        simp only [sizeOf, size, short, if_true]
        rfl
  have one := casts first fun digest same => small digest (.inl (same ▸ first))
  have other := casts second fun digest same => small digest (.inr (same ▸ second))
  rw [castFails, List.any_eq_false]
  intro value listed
  cases value with
  | none => exact Bool.false_ne_true
  | some inner =>
      have fine : (plan.sizeOf inner).toOption.isNone = false := by
        rcases List.mem_cons.mp listed with front | back
        · exact one inner front.symm
        · exact other inner (List.mem_singleton.mp back).symm
      simp [fine]

end SweepPlan

namespace SweepRun

variable {run : SweepRun} {m after : PostgresMetadata} {outcome : SweepOutcome}

theorem holds_older (stamp : Instant) :
    (run.older stamp).holds = true ↔ (stamp : Int) < run.cutoff := by
  rw [older, Truth.holds, beq_iff_eq, Option.some.injEq, decide_eq_true_eq]

theorem attempt_bind {α : Type} (step : SweepStep) (next : Except Failure α) (value : α) :
    (run.attempt step >>= fun _ => next) = .ok value ↔
      run.fails step = none ∧ next = .ok value := by
  unfold attempt
  cases failing : run.fails step <;> simp [bind, Except.bind]

def done (run : SweepRun) (m : PostgresMetadata) : PostgresMetadata × SweepOutcome :=
  let blobs := m.namespaceBlobs.deleteWhere fun row => run.older row.createdAt
  let results := m.actionResults.deleteWhere (run.plan.dangles blobs.1.rows)
  let manifests := m.actionManifests.deleteWhere fun row => run.older row.updatedAt
  (⟨results.1, blobs.1, manifests.1⟩, ⟨blobs.2, results.2, manifests.2⟩)

def castFails (run : SweepRun) (m : PostgresMetadata) : Bool :=
  m.actionResults.rows.any (run.plan.castFails (run.done m).1.namespaceBlobs.rows)

/-- A sweep goes through exactly if no statement fails. -/
theorem statements_ok (result : PostgresMetadata × SweepOutcome) :
    run.statements m = .ok result ↔
      (∀ step, run.fails step = none) ∧ run.castFails m = false ∧ result = run.done m := by
  unfold statements
  simp only [attempt_bind]
  cases failing : run.castFails m with
  | true =>
      have met : (m.actionResults.rows.any (run.plan.castFails
          (m.namespaceBlobs.deleteWhere fun row => run.older row.createdAt).1.rows)) = true := failing
      simp [met]
  | false =>
      have met : (m.actionResults.rows.any (run.plan.castFails
          (m.namespaceBlobs.deleteWhere fun row => run.older row.createdAt).1.rows)) = false := failing
      simp only [met, Bool.false_eq_true, if_false, attempt_bind, pure, Except.pure, Except.ok.injEq,
        true_and]
      constructor
      · rintro ⟨begin_, blobs, results, manifests, commit, rfl⟩
        refine ⟨fun step => ?_, rfl⟩
        cases step <;> assumption
      · rintro ⟨none, rfl⟩
        exact ⟨none _, none _, none _, none _, none _, rfl⟩

theorem sweep_ok {after : PostgresMetadata} {outcome : SweepOutcome} :
    run.sweep m = (after, .ok outcome) ↔
      (∀ step, run.fails step = none) ∧ run.castFails m = false ∧
        (after, outcome) = run.done m := by
  rw [← statements_ok]
  unfold sweep
  cases run.statements m <;> simp [Prod.ext_iff]

section swept

theorem mem_swept_blobs (row : BlobRow) :
    row ∈ (run.done m).1.namespaceBlobs.rows ↔
      row ∈ m.namespaceBlobs.rows ∧ run.cutoff ≤ row.createdAt := by
  simp only [done, Table.mem_deleteWhere, holds_older, not_lt]

theorem mem_swept_manifests (row : ManifestRow) :
    row ∈ (run.done m).1.actionManifests.rows ↔
      row ∈ m.actionManifests.rows ∧ run.cutoff ≤ row.updatedAt := by
  simp only [done, Table.mem_deleteWhere, holds_older, not_lt]

theorem mem_swept_results (shaped : ∀ row ∈ m.actionResults.rows, Shaped row.result)
    (row : ResultRow) :
    row ∈ (run.done m).1.actionResults.rows ↔
      row ∈ m.actionResults.rows ∧ ∀ digest, NamesDigest row.result digest →
        ∃ blob ∈ (run.done m).1.namespaceBlobs.rows, blob.IsFor row.key.ns digest := by
  change row ∈ (m.actionResults.deleteWhere
    (run.plan.dangles (run.done m).1.namespaceBlobs.rows)).1.rows ↔ _
  rw [Table.mem_deleteWhere]
  refine and_congr_right fun member => ?_
  rw [run.plan.holds_dangles (shaped row member)]
  push Not
  rfl

/-- A second sweep with the same cutoff finds nothing to remove. -/
theorem done_again (shaped : ∀ row ∈ m.actionResults.rows, Shaped row.result) {again : SweepRun}
    (same : again.cutoff = run.cutoff) :
    again.done (run.done m).1 = ((run.done m).1, ⟨0, 0, 0⟩) := by
  have blobs : (run.done m).1.namespaceBlobs.deleteWhere (fun row => again.older row.createdAt) =
      ((run.done m).1.namespaceBlobs, 0) := by
    apply Table.deleteWhere_none
    intro row member
    rw [holds_older, same, not_lt]
    exact ((mem_swept_blobs row).mp member).2
  have manifests : (run.done m).1.actionManifests.deleteWhere
      (fun row => again.older row.updatedAt) = ((run.done m).1.actionManifests, 0) := by
    apply Table.deleteWhere_none
    intro row member
    rw [holds_older, same, not_lt]
    exact ((mem_swept_manifests row).mp member).2
  have results : (run.done m).1.actionResults.deleteWhere
      (again.plan.dangles (run.done m).1.namespaceBlobs.rows) =
      ((run.done m).1.actionResults, 0) := by
    apply Table.deleteWhere_none
    intro row member
    obtain ⟨present, backed⟩ := (mem_swept_results shaped row).mp member
    rw [again.plan.holds_dangles (shaped row present)]
    rintro ⟨digest, named, lost⟩
    obtain ⟨blob, listed, found⟩ := backed digest named
    exact lost blob listed found
  rw [done, blobs]
  simp only [results, manifests]

end swept

/-- A sweep removes the rows and manifests past the cutoff and the results that name a digest
without a row, and counts them; when any statement fails it removes nothing. -/
theorem sweep_exact (run : SweepRun) (metadata : SweptMetadata) :
    let m := metadata.store
    let after := (run.sweep m).1
    (∀ failure, (run.sweep m).2 = .error failure → after = m) ∧
    (∀ step failure, run.fails step = some failure → ∃ failure, (run.sweep m).2 = .error failure) ∧
    ((∀ step, run.fails step = none) →
      (∀ row ∈ m.actionResults.rows, ∀ digest, NamesDigest row.result digest →
        digest.size.toNat < 2 ^ 63) → ∃ outcome, (run.sweep m).2 = .ok outcome) ∧
    ∀ outcome, (run.sweep m).2 = .ok outcome →
      (∀ row, row ∈ after.namespaceBlobs.rows ↔
        row ∈ m.namespaceBlobs.rows ∧ run.cutoff ≤ row.createdAt) ∧
      (∀ row, row ∈ after.actionResults.rows ↔
        row ∈ m.actionResults.rows ∧ ∀ digest, NamesDigest row.result digest →
          ∃ blob ∈ after.namespaceBlobs.rows, blob.IsFor row.key.ns digest) ∧
      (∀ row, row ∈ after.actionManifests.rows ↔
        row ∈ m.actionManifests.rows ∧ run.cutoff ≤ row.updatedAt) ∧
      after.namespaceBlobs.rows.length + outcome.blobs = m.namespaceBlobs.rows.length ∧
      after.actionResults.rows.length + outcome.actionResults = m.actionResults.rows.length ∧
      after.actionManifests.rows.length + outcome.manifests = m.actionManifests.rows.length ∧
      ∀ again : SweepRun, again.cutoff = run.cutoff → ∀ repeated,
        (again.sweep after).2 = .ok repeated → again.sweep after = (after, .ok ⟨0, 0, 0⟩) := by
  intro m after
  refine ⟨?_, ?_, ?_, ?_⟩
  · intro failure failed
    simp only [after, sweep] at failed ⊢
    split at failed
    next => rfl
    next => cases failed
  · intro step failure fails
    cases result : (run.sweep m).2 with
    | error failure => exact ⟨failure, rfl⟩
    | ok outcome =>
        have swept : run.sweep m = (after, .ok outcome) := Prod.ext rfl result
        have through := sweep_ok.mp swept
        rw [through.1 step] at fails
        cases fails
  · intro none small
    have casts : run.castFails m = false := by
      rw [castFails, List.any_eq_false]
      intro row member
      rw [run.plan.castFails_small (metadata.shaped row member) (small row member)]
      exact Bool.false_ne_true
    have through := sweep_ok.mpr ⟨none, casts, rfl⟩
    exact ⟨_, congrArg Prod.snd through⟩
  · intro outcome result
    have swept : run.sweep m = (after, .ok outcome) := Prod.ext rfl result
    have finished := (sweep_ok.mp swept).2.2
    have tables : after = (run.done m).1 := congrArg Prod.fst finished
    have counts : outcome = (run.done m).2 := congrArg Prod.snd finished
    have lengths : after.namespaceBlobs.rows.length + outcome.blobs =
        m.namespaceBlobs.rows.length ∧
        after.actionResults.rows.length + outcome.actionResults = m.actionResults.rows.length ∧
        after.actionManifests.rows.length + outcome.manifests =
          m.actionManifests.rows.length := by
      rw [tables, counts]
      exact ⟨Table.length_deleteWhere _ _, Table.length_deleteWhere _ _,
        Table.length_deleteWhere _ _⟩
    refine ⟨?_, ?_, ?_, lengths.1, lengths.2.1, lengths.2.2, ?_⟩
    · rw [tables]
      exact mem_swept_blobs
    · rw [tables]
      exact mem_swept_results metadata.shaped
    · rw [tables]
      exact mem_swept_manifests
    · intro again same repeated through
      have twice : again.sweep after = ((again.sweep after).1, .ok repeated) :=
        Prod.ext rfl through
      have nothing : again.done after = (after, ⟨0, 0, 0⟩) := by
        rw [tables]
        exact done_again metadata.shaped same
      obtain ⟨kept, none⟩ := Prod.mk.inj ((sweep_ok.mp twice).2.2.trans nothing)
      rw [twice, kept, none]

end SweepRun

section Aged

def days (count : Nat) : Instant := count * 86400000000

def oldBlob : BlobRow := ⟨rowKey "team" Specimen.zeroDigest, days 10, days 99⟩

def newBlob : BlobRow := ⟨rowKey "team" Specimen.emptyDigest, days 80, days 80⟩

def orphan : ResultRow where
  key := rowKey "team" Specimen.zeroDigest
  result := .object [("metadata", Specimen.digestValue Specimen.zeroDigest),
    ("output_root", .null)]
  createdAt := days 99

def backed : ResultRow where
  key := rowKey "team" Specimen.emptyDigest
  result := .object [("metadata", Specimen.digestValue Specimen.emptyDigest),
    ("output_root", Specimen.digestValue Specimen.emptyDigest)]
  createdAt := days 5

def oldManifest : ManifestRow := ⟨rowKey "team" Specimen.zeroDigest, "a", .null, days 10, days 60⟩

def newManifest : ManifestRow := ⟨rowKey "team" Specimen.emptyDigest, "b", .null, days 10, days 75⟩

theorem holds_value (digest : Digest) :
    HoldsDigest (some (Specimen.digestValue digest)) (some digest) :=
  .digest rfl rfl rfl rfl

def agedMetadata : SweptMetadata where
  store := ⟨⟨[orphan, backed], by decide, by decide +kernel⟩,
    ⟨[oldBlob, newBlob], by decide, by decide +kernel⟩,
    ⟨[oldManifest, newManifest], by decide, by decide +kernel⟩⟩
  shaped := by
    simp only [List.forall_mem_cons]
    refine ⟨⟨_, _, holds_value Specimen.zeroDigest, .null⟩, ⟨_, _, holds_value Specimen.emptyDigest,
      holds_value Specimen.emptyDigest⟩, by simp⟩

def agedRun : SweepRun where
  now := days 100
  olderThanDays := 30
  plan := ⟨fun _ => "", fun _ => .error .fault, fun _ => false⟩
  fails _ := none

/-- The old blob goes, with the result that names it and the manifest that was not updated. A
second sweep finds nothing. -/
theorem aged_sweep_exact :
    let after := (agedRun.sweep agedMetadata.store).1
    (agedRun.sweep agedMetadata.store).2 = .ok ⟨1, 1, 1⟩ ∧
      (∀ row, row ∈ after.namespaceBlobs.rows ↔ row = newBlob) ∧
      orphan ∉ after.actionResults.rows ∧ backed ∈ after.actionResults.rows ∧
      (∀ row, row ∈ after.actionManifests.rows ↔ row = newManifest) ∧
      agedRun.sweep after = (after, .ok ⟨0, 0, 0⟩) := by
  intro after
  have swept : (agedRun.sweep agedMetadata.store).2 = .ok ⟨1, 1, 1⟩ := by decide +kernel
  have again : (agedRun.sweep after).2 = .ok ⟨0, 0, 0⟩ := by decide +kernel
  obtain ⟨-, -, -, survive⟩ := agedRun.sweep_exact agedMetadata
  obtain ⟨blobs, results, manifests, -, -, -, repeats⟩ := survive _ swept
  have kept (row : BlobRow) : row ∈ after.namespaceBlobs.rows ↔ row = newBlob := by
    refine (blobs row).trans ⟨?_, ?_⟩
    · rintro ⟨member, young⟩
      rcases List.mem_pair.mp member with rfl | rfl
      · exact absurd young (by decide)
      · rfl
    · rintro rfl
      exact ⟨List.mem_cons_of_mem _ List.mem_cons_self, by decide⟩
  refine ⟨swept, kept, fun member => ?_, (results backed).mpr ⟨?_, ?_⟩, fun row => ?_,
    repeats agedRun rfl _ again⟩
  · obtain ⟨blob, there, named⟩ := ((results orphan).mp member).2 Specimen.zeroDigest
      (.inl (holds_value _))
    obtain rfl := (kept blob).mp there
    exact absurd named.hash (by decide)
  · exact List.mem_cons_of_mem _ List.mem_cons_self
  · rintro digest (held | held)
    all_goals
      cases (holds_value Specimen.emptyDigest).unique held
      exact ⟨newBlob, (kept newBlob).mpr rfl, ⟨rfl, rfl, rfl, by decide⟩⟩
  · refine (manifests row).trans ⟨?_, ?_⟩
    · rintro ⟨member, young⟩
      rcases List.mem_pair.mp member with rfl | rfl
      · exact absurd young (by decide)
      · rfl
    · rintro rfl
      exact ⟨List.mem_cons_of_mem _ List.mem_cons_self, by decide⟩

end Aged
end MbxCache
