import MbxCache.Concurrent.Holding
import MbxCache.Server.PackUpload

/-! The upload spool: what uploads reserve, write and let go of (`server.rs`). The programs are
those of the uploads with their spool files and permits made explicit. -/

namespace MbxCache

open Concurrent Pack

/-- `Semaphore::MAX_PERMITS`, where sizes have 64 bits. -/
def maxPermits : Nat := (2 ^ 64 - 1) / 8

def permitsFor (bytes : UInt64) : Nat := (bytes.toNat + 1023) / 1024

/-- `SpoolBudget::new`: the permits of a spool, or `none` where it has no bounds. -/
def spoolBudget (maxBytes : UInt64) : Option Nat :=
  if 0 < maxBytes then some (min (permitsFor maxBytes) maxPermits) else none

/-- A reservation: the bytes it was made for, its permits, and the spool file under it, as long
as the file exists. -/
structure Lease where
  bytes : UInt64
  permits : Nat
  file : Option Bytes

/-- What uploads await, with the dropping of files and permits. Files are created and written
under the reservation made last; what is dropped is named by its place. -/
inductive SpoolOp
  | reserve (bytes : UInt64)
  | create
  | write (bytes : Bytes)
  | flush
  | remove (place : Nat)
  | release (place : Nat)
  | base (op : Op)

def SpoolOp.Value : SpoolOp → Type
  | .reserve _ => Except ApiError Unit
  | .create => Except Failure Unit
  | .write _ => Except Failure Unit
  | .flush => Except Failure Unit
  | .remove _ => Unit
  | .release _ => Unit
  | .base op => Except Failure op.Value

abbrev Spooling : Interface := ⟨SpoolOp, SpoolOp.Value, Job, Out⟩

structure SpoolState (M : Type) where
  server : ServerState M
  available : Option Nat

structure SpoolChoice where
  choice : Choice
  kept : Nat

namespace Spool

/-- `SpoolBudget::reserve` -/
def reserved (available : Option Nat) (bytes : UInt64) : Except ApiError (Option Nat × Lease) :=
  match available with
  | none => .ok (none, ⟨bytes, 0, none⟩)
  | some left =>
      if 2 ^ 32 ≤ permitsFor bytes then .error (.tooLarge "blob exceeds the upload spool")
      else if left < permitsFor bytes then
        .error (.unavailable "upload spool is full, retry later")
      else .ok (some (left - permitsFor bytes), ⟨bytes, permitsFor bytes, none⟩)

def edit (change : Option Bytes → Option Bytes) : List Lease → List Lease
  | [] => []
  | lease :: rest => { lease with file := change lease.file } :: rest

def attempted (fault : Fault) (before done partly : List Lease) :
    List Lease × Except Failure Unit :=
  match fault with
  | .none => (done, .ok ())
  | .before failure => (before, .error failure)
  | .after failure => (partly, .error failure)

/-- Drop the permits of a reservation. If its file still exists, it is left without them. -/
def released (available : Option Nat) (hand : List Lease) (place : Nat) :
    Option Nat × List Lease :=
  match hand[place]? with
  | none => (available, hand)
  | some lease =>
      (available.map (· + lease.permits),
        match lease.file with
        | none => hand.eraseIdx place
        | some _ => hand.set place { lease with permits := 0 })

variable {M : Type} [Protocol] [MetadataStore M]

def exec (choice : SpoolChoice) : (op : SpoolOp) → SpoolState M × List Lease →
    (SpoolState M × List Lease) × op.Value
  | .reserve bytes, (state, hand) =>
      match reserved state.available bytes with
      | .error error => ((state, hand), .error error)
      | .ok (left, lease) => (({ state with available := left }, lease :: hand), .ok ())
  | .create, (state, hand) =>
      let created := edit (fun _ => some []) hand
      let (hand, result) := attempted choice.choice.fault hand created created
      ((state, hand), result)
  | .write bytes, (state, hand) =>
      let (hand, result) := attempted choice.choice.fault hand
        (edit (Option.map (· ++ bytes)) hand)
        (edit (Option.map (· ++ bytes.take choice.kept)) hand)
      ((state, hand), result)
  | .flush, (state, hand) =>
      let (hand, result) := attempted choice.choice.fault hand hand hand
      ((state, hand), result)
  | .remove place, (state, hand) =>
      ((state, hand.modify place fun lease => { lease with file := none }), ())
  | .release place, (state, hand) =>
      let (available, hand) := released state.available hand place
      (({ state with available := available }, hand), ())
  | .base op, (state, hand) =>
      let (server, value) := MbxCache.exec choice.choice op state.server
      (({ state with server := server }, hand), value)

/-- A reservation that goes out of scope: first its file is removed, then its permits are
released. -/
def letGo (lease : Lease) (state : SpoolState M) : SpoolState M × Option Lease :=
  match lease.file with
  | some _ => (state, some { lease with file := none })
  | none => ({ state with available := state.available.map (· + lease.permits) }, none)

end Spool

def Spooler (A : Type) := Program Spooling (Except ApiError A)

namespace Spooler

variable {A B : Type}

protected def bind (handler : Spooler A) (next : A → Spooler B) : Spooler B :=
  Program.bindOk handler next

instance : Monad Spooler where
  pure value := .done (.ok value)
  bind := Spooler.bind

def refuse (error : ApiError) : Spooler A := .done (.error error)

def pureStep (result : Except ApiError A) : Spooler A := .done result

def internally (result : Except Failure A) : Spooler A :=
  .done (result.mapError ApiError.internal)

end Spooler

namespace Spool

variable {A B : Type}

def reserve (bytes : UInt64) : Spooler Unit := .call (.reserve bytes) fun result => .done result

def create : Spooler Unit := .call .create Spooler.internally

def writeAll (bytes : Bytes) : Spooler Unit := .call (.write bytes) Spooler.internally

def flush : Spooler Unit := .call .flush Spooler.internally

def base (op : Op) : Spooler op.Value := .call (.base op) Spooler.internally

def dropping (place : Nat) (rest : Program Spooling A) : Program Spooling A :=
  .call (.remove place) fun _ => .call (.release place) fun _ => rest

def holding (scope : Spooler A) : Spooler A :=
  Program.bind scope fun result => dropping 0 (.done result)

variable [Protocol]

def receive (config : ServerConfig) (digest : Digest) : List Bytes → Upload → Spooler Upload
  | [], upload => pure upload
  | chunk :: rest, upload =>
      let size := upload.size + chunk.length
      if 2 ^ 64 ≤ size then .refuse (.tooLarge "blob is too large")
      else if digest.size.toNat < size || config.maxBlobBytes.toNat < size then
        .refuse (.tooLarge "blob exceeds declared or configured size")
      else do
        let algorithm ← Spooler.pureStep (algorithmOf digest)
        writeAll chunk
        receive config digest rest
          ⟨size, upload.hashing.update algorithm chunk, upload.file ++ chunk⟩

def putBlob (config : ServerConfig) (headers : Headers) (parts : String × String × UInt64)
    (body : Body) : Spooler Response := do
  let ns ← Spooler.pureStep (headers.authorize .write)
  Spooler.pureStep (requireImmutablePrecondition headers)
  let digest ← Spooler.pureStep (parseDigest parts)
  if config.maxBlobBytes < digest.size then
    .refuse (.tooLarge "blob exceeds configured limit")
  else do
    reserve digest.size
    holding do
      create
      let upload ← receive config digest body.chunks ⟨0, Hashing.new, []⟩
      Spooler.pureStep (transport body)
      flush
      Spooler.pureStep (checkUpload digest upload)
      let outcome ← base (.put digest upload.file)
      base (.registerBlob ns digest outcome)
      return ⟨putStatus outcome, [], .empty⟩

/-- `PackFrame::store` drops its frame when it ends. -/
def storeFrame (ns : String) (digest : Digest) (bytes : Bytes) : Program Spooling Out :=
  Program.bind (do
    let outcome ← base (.put digest bytes)
    base (.registerBlob ns digest outcome)
    return outcome : Spooler PutOutcome) fun result => dropping 0 (.done (.stored result))

/-- Reads hold nothing. -/
def openEntry (ns : String) (digest : Digest) : Program Spooling Out :=
  .call (.base (.get digest)) fun found : Except Failure (Option Blob) =>
    match found with
    | .error _ => .done (.opened none)
    | .ok none => .call (.base (.forgetBlob ns digest)) fun _ => .done (.opened none)
    | .ok (some blob) =>
        if blob.size ≠ digest.size then .done (.opened none) else .done (.opened (some blob))

def jobBody : Job → Program Spooling Out
  | .store ns digest bytes => storeFrame ns digest bytes
  | .read ns digest => openEntry ns digest

namespace PackFrame

def new (digest : Digest) : Spooler MbxCache.PackFrame := do
  create
  return ⟨digest, [], 0, Hashing.new⟩

def write (frame : MbxCache.PackFrame) (payload : Bytes) : Spooler MbxCache.PackFrame := do
  let algorithm ← Spooler.pureStep (algorithmOf frame.digest)
  writeAll payload
  return { frame with
    size := frame.size + payload.length
    hashing := frame.hashing.update algorithm payload
    file := frame.file ++ payload }

def verify (frame : MbxCache.PackFrame) : Spooler Unit := do
  flush
  Spooler.pureStep frame.check

end PackFrame

abbrev Reads (A : Type) := Program Spooling (Uploading × Except ApiError A)

def refuse (up : Uploading) (error : ApiError) : Reads A := .done (up, .error error)

def handle (up : Uploading) (handler : Spooler A) (next : A → Reads B) : Reads B :=
  Program.bind handler fun result =>
    match result with
    | .error error => refuse up error
    | .ok value => next value

def proceed (first : Reads A) (next : Uploading → A → Reads B) : Reads B :=
  Program.bind first fun result =>
    match result with
    | (up, .error error) => refuse up error
    | (up, .ok value) => next up value

def next (up : Uploading) : Reads Unit :=
  .join up.stores fun id out =>
    let rest := { up with stores := up.stores.erase id }
    match up.receipt.count out with
    | .error error => refuse rest error
    | .ok receipt => .done ({ rest with receipt := receipt }, .ok ())

def makeRoom (config : ServerConfig) (up : Uploading) : Reads Unit :=
  if config.packStoreConcurrency ≤ up.stores.length && !up.stores.isEmpty then next up
  else .done (up, .ok ())

def replacing (up : Uploading) (rest : Program Spooling A) : Program Spooling A :=
  match up.frame with
  | some _ => dropping 1 rest
  | none => rest

def event (config : ServerConfig) (ns : String) (up : Uploading) : PackEvent → Reads Unit
  | .started digest =>
      handle up (reserve digest.size) fun _ =>
        Program.bind (PackFrame.new digest) fun result =>
          match result with
          | .error error => dropping 0 (refuse up error)
          | .ok frame => replacing up (.done ({ up with frame := some frame }, .ok ()))
  | .payload bytes =>
      match up.frame with
      | none => refuse up (.internal .fault)
      | some frame =>
          handle up (PackFrame.write frame bytes) fun written =>
            .done ({ up with frame := some written }, .ok ())
  | .complete =>
      match up.frame with
      | none => refuse up (.internal .fault)
      | some finished =>
          let taken := { up with frame := none }
          Program.bind (PackFrame.verify finished) fun result =>
            match result with
            | .error error => dropping 0 (refuse taken error)
            | .ok () =>
                Program.bind (makeRoom config taken) fun result =>
                  match result with
                  | (up, .error error) => dropping 0 (refuse up error)
                  | (up, .ok ()) =>
                      .spawn (.store ns finished.digest finished.file) fun id =>
                        .done ({ up with stores := up.stores ++ [id] }, .ok ())

def events (config : ServerConfig) (ns : String) (up : Uploading) : List PackEvent → Reads Unit
  | [] => .done (up, .ok ())
  | first :: rest => proceed (event config ns up first) fun up _ => events config ns up rest

def chunks (config : ServerConfig) (ns : String) (up : Uploading) (reader : PackReader) :
    List Bytes → Reads PackReader
  | [] => .done (up, .ok reader)
  | chunk :: rest =>
      match reader.push chunk with
      | .error error => refuse up (packError error)
      | .ok (next, read) =>
          proceed (events config ns up read) fun up _ => chunks config ns up next rest

def collect (up : Uploading) : Nat → Reads Unit
  | 0 => .done (up, .ok ())
  | left + 1 => proceed (next up) fun up _ => collect up left

def drain (stores : List Nat) : Nat → Program Spooling Unit
  | 0 => .done ()
  | left + 1 => .join stores fun id _ => drain (stores.erase id) left

def read (config : ServerConfig) (ns : String) (up : Uploading) (reader : PackReader)
    (body : Body) : Reads PackReader :=
  proceed (chunks config ns up reader body.chunks) fun up reader =>
    match transport body with
    | .error error => refuse up error
    | .ok () => proceed (collect up up.stores.length) fun up _ => .done (up, .ok reader)

def leaving (up : Uploading) (rest : Program Spooling A) : Program Spooling A :=
  match up.frame with
  | some _ => dropping 0 rest
  | none => rest

def uploadPack (config : ServerConfig) (ns : String) (blobs bytes : UInt64) (body : Body) :
    Spooler Response :=
  Program.bind (read config ns ⟨none, [], ⟨0, 0⟩⟩
    (PackReader.new config.maxBlobBytes blobs bytes) body) fun result =>
      match result with
      | (up, .error error) =>
          Program.bind (drain up.stores up.stores.length) fun _ =>
            leaving up (.done (.error error))
      | (up, .ok reader) =>
          leaving up (match checkPack reader blobs bytes with
            | .error error => .done (.error error)
            | .ok () =>
                .done (.ok {
                  status := .ok
                  headers :=
                    [("content-type", "application/vnd.mbx.cache-blob-pack-receipt.v1+json")]
                  content := .receipt up.receipt.created up.receipt.existing }))

def putBlobPack (config : ServerConfig) (headers : Headers) (body : Body) : Spooler Response := do
  let ns ← Spooler.pureStep (headers.authorize .write)
  let (blobs, bytes) ← Spooler.pureStep (declared config headers)
  uploadPack config ns blobs bytes body

def takes : Job → Nat
  | .store _ _ _ => 1
  | .read _ _ => 0

end Spool

/-- The server with its spool, over a metadata store of type `M`. -/
abbrev spoolEstate (M : Type) [Protocol] [MetadataStore M] : Estate Spooling where
  Shared := SpoolState M
  Held := Lease
  Choice := SpoolChoice
  exec := Spool.exec
  pick choice := choice.choice.pick
  body := Spool.jobBody
  detached := Job.detached
  takes := Spool.takes
  letGo := Spool.letGo

end MbxCache
