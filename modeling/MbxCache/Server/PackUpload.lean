import MbxCache.Server.Blobs

/-! Uploading several blobs in one framed request (`server.rs`). -/

namespace MbxCache

open Concurrent Pack

variable [Protocol]

structure BlobPackReceipt where
  created : Nat
  existing : Nat
  deriving DecidableEq, Repr

/-- Count one store, or fail as it failed. A store that was cut off failed too. -/
def BlobPackReceipt.count (receipt : BlobPackReceipt) :
    Option Out → Except ApiError BlobPackReceipt
  | some (.stored (.ok .created)) => .ok { receipt with created := receipt.created + 1 }
  | some (.stored (.ok .alreadyExists)) => .ok { receipt with existing := receipt.existing + 1 }
  | some (.stored (.error error)) => .error error
  | _ => .error (.internal .fault)

structure PackFrame where
  digest : Digest
  file : Bytes
  size : Nat
  hashing : Hashing

namespace PackFrame

def new (digest : Digest) : Handler PackFrame := do
  localIo
  return ⟨digest, [], 0, Hashing.new⟩

def write (frame : PackFrame) (payload : Bytes) : Handler PackFrame := do
  let algorithm ← Handler.pureStep (algorithmOf frame.digest)
  localIo
  return { frame with
    size := frame.size + payload.length
    hashing := frame.hashing.update algorithm payload
    file := frame.file ++ payload }

def check (frame : PackFrame) : Except ApiError Unit := do
  let algorithm ← algorithmOf frame.digest
  if frame.size ≠ frame.digest.size.toNat ||
      frame.hashing.finalize algorithm ≠ frame.digest.hash then
    .error (.badRequest "packed blob does not match its declared digest")
  else .ok ()

def verify (frame : PackFrame) : Handler Unit := do
  localIo
  Handler.pureStep frame.check

end PackFrame

def packError : PackError → ApiError
  | .blobTooLarge size limit => .tooLarge (PackError.blobTooLarge size limit).text
  | .tooManyBytes limit => .tooLarge (PackError.tooManyBytes limit).text
  | .tooManyBlobs limit => .tooLarge (PackError.tooManyBlobs limit).text
  | other => .badRequest other.text

/-- What survives an error of the reading loop: the stores under way. -/
structure Uploading where
  frame : Option PackFrame
  stores : List Nat
  receipt : BlobPackReceipt

abbrev Reads (A : Type) := Program Api (Uploading × Except ApiError A)

namespace Uploading

def refuse {A : Type} (up : Uploading) (error : ApiError) : Reads A := .done (up, .error error)

def handle {A B : Type} (up : Uploading) (handler : Handler A) (next : A → Reads B) : Reads B :=
  Program.bind handler fun result =>
    match result with
    | .error error => up.refuse error
    | .ok value => next value

def next (up : Uploading) : Reads Unit :=
  .join up.stores fun id out =>
    let rest := { up with stores := up.stores.erase id }
    match up.receipt.count out with
    | .error error => rest.refuse error
    | .ok receipt => .done ({ rest with receipt := receipt }, .ok ())

/-- Wait for a store when as many as allowed are under way. -/
def makeRoom (config : ServerConfig) (up : Uploading) : Reads Unit :=
  if config.packStoreConcurrency ≤ up.stores.length && !up.stores.isEmpty then up.next
  else .done (up, .ok ())

def event (config : ServerConfig) (ns : String) (up : Uploading) : PackEvent → Reads Unit
  | .started digest =>
      up.handle (reserve config digest.size) fun _ =>
        up.handle (PackFrame.new digest) fun frame =>
          .done ({ up with frame := some frame }, .ok ())
  | .payload bytes =>
      match up.frame with
      | none => up.refuse (.internal .fault)
      | some frame =>
          up.handle (frame.write bytes) fun written =>
            .done ({ up with frame := some written }, .ok ())
  | .complete =>
      match up.frame with
      | none => up.refuse (.internal .fault)
      | some finished =>
          let taken := { up with frame := none }
          taken.handle finished.verify fun _ =>
            (taken.makeRoom config).bind fun result =>
              match result with
              | (up, .error error) => up.refuse error
              | (up, .ok ()) =>
                  .spawn (.store ns finished.digest finished.file) fun id =>
                    .done ({ up with stores := up.stores ++ [id] }, .ok ())

def events (config : ServerConfig) (ns : String) (up : Uploading) : List PackEvent → Reads Unit
  | [] => .done (up, .ok ())
  | first :: rest =>
      (up.event config ns first).bind fun result =>
        match result with
        | (up, .error error) => up.refuse error
        | (up, .ok ()) => up.events config ns rest

def chunks (config : ServerConfig) (ns : String) (up : Uploading) (reader : PackReader) :
    List Bytes → Reads PackReader
  | [] => .done (up, .ok reader)
  | chunk :: rest =>
      match reader.push chunk with
      | .error error => up.refuse (packError error)
      | .ok (next, events) =>
          (up.events config ns events).bind fun result =>
            match result with
            | (up, .error error) => up.refuse error
            | (up, .ok ()) => up.chunks config ns next rest

/-- Count every store still under way; `left` is how many there are. -/
def collect (up : Uploading) : Nat → Reads Unit
  | 0 => .done (up, .ok ())
  | left + 1 =>
      up.next.bind fun result =>
        match result with
        | (up, .error error) => up.refuse error
        | (up, .ok ()) => up.collect left

def drain (stores : List Nat) : Nat → Program Api Unit
  | 0 => .done ()
  | left + 1 => .join stores fun id _ => drain (stores.erase id) left

def read (config : ServerConfig) (ns : String) (up : Uploading) (reader : PackReader)
    (body : Body) : Reads PackReader :=
  (up.chunks config ns reader body.chunks).bind fun result =>
    match result with
    | (up, .error error) => up.refuse error
    | (up, .ok reader) =>
        match transport body with
        | .error error => up.refuse error
        | .ok () =>
            (up.collect up.stores.length).bind fun result =>
              match result with
              | (up, .error error) => up.refuse error
              | (up, .ok ()) => .done (up, .ok reader)

end Uploading

def checkPack (reader : PackReader) (declaredBlobs declaredBytes : UInt64) :
    Except ApiError Unit :=
  match reader.finish with
  | .error error => .error (packError error)
  | .ok () =>
      if reader.blobs ≠ declaredBlobs.toNat || reader.payloadBytes ≠ declaredBytes.toNat then
        .error (.badRequest "blob pack does not carry what its headers declared")
      else .ok ()

def declared (config : ServerConfig) (headers : Headers) : Except ApiError (UInt64 × UInt64) := do
  let blobs ← requiredU64Header headers.packBlobs "mbx-cache-pack-blobs"
  let bytes ← requiredU64Header headers.packBytes "mbx-cache-pack-bytes"
  if maxBatchItems < blobs.toNat then
    .error (.badRequest "blob pack declares more blobs than the supported batch size")
  else if config.maxBlobBytes < bytes then
    .error (.tooLarge "blob pack exceeds the configured size limit")
  else .ok (blobs, bytes)

/-- The pack once its headers are known: read it, wait for every store whatever
happened, and answer. -/
def uploadPack (config : ServerConfig) (ns : String) (blobs bytes : UInt64) (body : Body) :
    Handler Response :=
  (Uploading.read config ns ⟨none, [], ⟨0, 0⟩⟩ (PackReader.new config.maxBlobBytes blobs bytes)
    body).bind fun result =>
      match result with
      | (up, .error error) =>
          (Uploading.drain up.stores up.stores.length).bind fun _ => .done (.error error)
      | (up, .ok reader) =>
          match checkPack reader blobs bytes with
          | .error error => .done (.error error)
          | .ok () =>
              .done (.ok {
                status := .ok
                headers :=
                  [("content-type", "application/vnd.mbx.cache-blob-pack-receipt.v1+json")]
                content := .receipt up.receipt.created up.receipt.existing })

def putBlobPack (config : ServerConfig) (headers : Headers) (body : Body) : Handler Response := do
  let ns ← Handler.pureStep (headers.authorize .write)
  let (blobs, bytes) ← Handler.pureStep (declared config headers)
  uploadPack config ns blobs bytes body

end MbxCache
