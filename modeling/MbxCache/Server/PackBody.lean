import MbxCache.Server.PackStream

/-! How packs are counted (`metrics.rs`), and the body of a served pack, poll by poll. -/

namespace MbxCache

inductive PackOutcome
  | completed
  | error
  | cancelled
  deriving DecidableEq, Repr

structure Metrics where
  packRequests : PackOutcome → Nat
  packInFlight : Int
  requestedBlobs : Nat
  missingBlobs : Nat
  servedBlobs : Nat
  requestedBytes : Nat
  servedBytes : Nat
  firstBytes : Nat
  blobHits : Nat

structure PackGuard where
  finished : Option PackOutcome
  firstByteRecorded : Bool
  deriving DecidableEq, Repr

namespace Metrics

def new : Metrics := ⟨fun _ => 0, 0, 0, 0, 0, 0, 0, 0, 0⟩

def incBlobHit (metrics : Metrics) : Metrics := { metrics with blobHits := metrics.blobHits + 1 }

def startPack (metrics : Metrics) (requestedBlobs requestedBytes missingBlobs : Nat) :
    Metrics × PackGuard :=
  ({ metrics with
      packInFlight := metrics.packInFlight + 1
      requestedBlobs := metrics.requestedBlobs + requestedBlobs
      missingBlobs := metrics.missingBlobs + missingBlobs
      requestedBytes := metrics.requestedBytes + requestedBytes },
    ⟨none, false⟩)

end Metrics

structure Guarded where
  metrics : Metrics
  guard : PackGuard

namespace Guarded

variable (guarded : Guarded)

def recordFirstByte : Guarded :=
  if guarded.guard.firstByteRecorded then guarded
  else ⟨{ guarded.metrics with firstBytes := guarded.metrics.firstBytes + 1 },
    { guarded.guard with firstByteRecorded := true }⟩

def addServedBytes (bytes : Nat) : Guarded :=
  { guarded with metrics :=
    { guarded.metrics with servedBytes := guarded.metrics.servedBytes + bytes } }

def blobServed : Guarded :=
  { guarded with metrics :=
    { guarded.metrics with servedBlobs := guarded.metrics.servedBlobs + 1 } }

def incBlobHit : Guarded := { guarded with metrics := guarded.metrics.incBlobHit }

def finish (outcome : PackOutcome) : Guarded :=
  match guarded.guard.finished with
  | some _ => guarded
  | none =>
      ⟨{ guarded.metrics with
          packRequests := fun other =>
            if other = outcome then guarded.metrics.packRequests other + 1
            else guarded.metrics.packRequests other
          packInFlight := guarded.metrics.packInFlight - 1 },
        { guarded.guard with finished := some outcome }⟩

def complete : Guarded := guarded.finish .completed

def error : Guarded := guarded.finish .error

/-- A guard that is dropped unfinished counts its pack as cancelled. -/
def drop : Guarded := guarded.finish .cancelled

end Guarded

structure PackRead extends ServedEntry where
  opened : Option Blob

inductive Suspended
  | unpolled (reads : List PackRead)
  | reading (reads : List PackRead)
  | sending (size streamed : Nat) (chunks : List Bytes) (broken : Bool) (reads : List PackRead)
  | returned

inductive Polled
  | pending
  | chunk (bytes : Bytes)
  | failed
  | ended
  deriving DecidableEq, Repr

/-- A poll of the body, in which `ready` awaits of the storage get through before one is
pending. -/
def resume : Nat → Guarded → Suspended → Guarded × Suspended × Polled
  | _, guarded, .unpolled reads => (guarded.recordFirstByte, .reading reads, .chunk blobPackMagic)
  | _, guarded, .reading [] => (guarded.complete, .returned, .ended)
  | _, guarded, .returned => (guarded, .returned, .ended)
  | 0, guarded, suspended => (guarded, suspended, .pending)
  | _ + 1, guarded, .reading (read :: reads) =>
      match read.opened with
      | none => (guarded.error, .returned, .failed)
      | some blob =>
          (guarded, .sending blob.size.toNat 0 blob.stream.chunks blob.stream.broken reads,
            .chunk read.header)
  | ready + 1, guarded, .sending size streamed [] broken reads =>
      if broken then (guarded.error, .returned, .failed)
      else if streamed ≠ size then (guarded.error, .returned, .failed)
      else resume ready guarded.blobServed.incBlobHit (.reading reads)
  | _ + 1, guarded, .sending size streamed (chunk :: chunks) broken reads =>
      let sum := streamed + chunk.length
      if 2 ^ 64 ≤ sum then (guarded.error, .returned, .failed)
      else if size < sum then (guarded.error, .returned, .failed)
      else (guarded.addServedBytes chunk.length, .sending size sum chunks broken reads,
        .chunk chunk)

end MbxCache
