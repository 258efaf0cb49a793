import MbxCache.Pack.Format
import MbxCache.Server.Http

/-! Single blobs, missing-blob queries and served packs (`server.rs`). -/

namespace MbxCache

open Concurrent

variable [Protocol]

/-- The two running hashes of an upload; only the declared algorithm's is fed. -/
structure Hashing where
  blake3 : Protocol.blake3.State
  sha256 : Protocol.sha256.State

namespace Hashing

def new : Hashing := ⟨Protocol.blake3.new, Protocol.sha256.new⟩

def update (hashing : Hashing) (algorithm : Algorithm) (bytes : Bytes) : Hashing :=
  match algorithm with
  | .blake3 => { hashing with blake3 := Protocol.blake3.update hashing.blake3 bytes }
  | .sha256 => { hashing with sha256 := Protocol.sha256.update hashing.sha256 bytes }

def finalize (hashing : Hashing) : Algorithm → String
  | .blake3 => Hex.encode (Protocol.blake3.finalize hashing.blake3)
  | .sha256 => Hex.encode (Protocol.sha256.finalize hashing.sha256)

end Hashing

def algorithmOf (digest : Digest) : Except ApiError Algorithm :=
  match digest.algorithmKind with
  | some algorithm => .ok algorithm
  | none => .error (.badRequest (Protocol.algorithmError digest.algorithm))

def getBlob (headers : Headers) (parts : String × String × UInt64) : Handler Response := do
  let ns ← Handler.pureStep (headers.authorize .read)
  let digest ← Handler.pureStep (parseDigest parts)
  let visible ← isVisible ns digest
  if !visible then .refuse (.notFound "blob not found")
  else do
    let found ← fetch digest
    match found with
    | none => do
        forgetMissingBlob ns digest
        Handler.refuse (.notFound "blob not found")
    | some blob =>
        return {
          status := .ok
          headers := [("content-length", toString blob.size),
            ("content-type", "application/octet-stream"), ("etag", quotedEtag digest.hash),
            ("digest", digest.algorithm ++ "=" ++ digest.hash)]
          content := .stream blob.stream }

structure Upload where
  size : Nat
  hashing : Hashing
  file : Bytes

/-- The receiving loop of `put_blob`. -/
def receive (config : ServerConfig) (digest : Digest) : List Bytes → Upload → Handler Upload
  | [], upload => pure upload
  | chunk :: rest, upload =>
      let size := upload.size + chunk.length
      if 2 ^ 64 ≤ size then .refuse (.tooLarge "blob is too large")
      else if digest.size.toNat < size || config.maxBlobBytes.toNat < size then
        .refuse (.tooLarge "blob exceeds declared or configured size")
      else do
        let algorithm ← Handler.pureStep (algorithmOf digest)
        localIo
        receive config digest rest
          ⟨size, upload.hashing.update algorithm chunk, upload.file ++ chunk⟩

def checkUpload (digest : Digest) (upload : Upload) : Except ApiError Unit := do
  let algorithm ← algorithmOf digest
  if upload.size ≠ digest.size.toNat || upload.hashing.finalize algorithm ≠ digest.hash then
    .error (.badRequest "content does not match the requested digest")
  else .ok ()

def putStatus : PutOutcome → StatusCode
  | .created => .created
  | .alreadyExists => .noContent

def transport (body : Body) : Except ApiError Unit :=
  match body.failure with
  | some error => .error (.badRequest error)
  | none => .ok ()

def putBlob (config : ServerConfig) (headers : Headers) (parts : String × String × UInt64)
    (body : Body) : Handler Response := do
  let ns ← Handler.pureStep (headers.authorize .write)
  Handler.pureStep (requireImmutablePrecondition headers)
  let digest ← Handler.pureStep (parseDigest parts)
  if config.maxBlobBytes < digest.size then
    .refuse (.tooLarge "blob exceeds configured limit")
  else do
    reserve config digest.size
    localIo
    let upload ← receive config digest body.chunks ⟨0, Hashing.new, []⟩
    Handler.pureStep (transport body)
    localIo
    Handler.pureStep (checkUpload digest upload)
    let outcome ← store digest upload.file
    register ns digest outcome
    return ⟨putStatus outcome, [], .empty⟩

def checkDigests : List Digest → Except ApiError Unit
  | [] => .ok ()
  | digest :: rest => do
      validateDigest digest
      checkDigests rest

def missingBlobs (headers : Headers) (digests : List Digest) : Handler Response := do
  let ns ← Handler.pureStep (headers.authorize .read)
  if maxBatchItems < digests.length then
    .refuse (.badRequest "at most 10000 digests may be checked")
  else do
    Handler.pureStep (checkDigests digests)
    let visible ← visibleBlobs ns digests
    return ⟨.ok, [], .missing (digests.filter fun digest => !visible.contains digest)⟩

def packRequest (config : ServerConfig) : List Digest → List Digest → Nat →
    Except ApiError (List Digest)
  | [], requested, _ => .ok requested
  | digest :: rest, requested, total => do
      validateDigest digest
      if requested.contains digest then packRequest config rest requested total
      else
        let sum := total + digest.size.toNat
        if 2 ^ 64 ≤ sum then .error (.tooLarge "blob pack is too large")
        else if config.maxBlobBytes.toNat < sum then
          .error (.tooLarge "blob pack exceeds the configured size limit")
        else packRequest config rest (requested ++ [digest]) sum

structure ServedEntry where
  header : Bytes
  digest : Digest

structure ServedPack where
  entries : List ServedEntry
  payloadBytes : Nat
  packBytes : Nat

def packEntries : List Digest → ServedPack → Except ApiError ServedPack
  | [], pack => .ok pack
  | digest :: rest, pack => do
      let header ← Pack.packBlobHeader digest
      let payload := pack.payloadBytes + digest.size.toNat
      if 2 ^ 64 ≤ payload then .error (.tooLarge "blob pack is too large")
      else
        let total := pack.packBytes + blobPackHeaderBytes + digest.size.toNat
        if 2 ^ 64 ≤ total then .error (.tooLarge "blob pack is too large")
        else packEntries rest ⟨pack.entries ++ [⟨header, digest⟩], payload, total⟩

/-- The payload chunks that are sent of a stored object, and whether they were all it
should have had. -/
def servePayload (size : Nat) (broken : Bool) : List Bytes → Nat → List Bytes × Bool
  | [], streamed => ([], !broken && streamed == size)
  | chunk :: rest, streamed =>
      if size < streamed + chunk.length then ([], false)
      else
        let (more, complete) := servePayload size broken rest (streamed + chunk.length)
        (chunk :: more, complete)

structure Reading where
  header : Bytes
  id : Nat

/-- `MAX_PACK_STORAGE_READS` -/
def maxPackStorageReads : Nat := 16

/-- Start reads until `room` more are under way. -/
def startReads (ns : String) : Nat → List ServedEntry → List Reading →
    Program Api (List ServedEntry × List Reading)
  | 0, entries, window => .done (entries, window)
  | _ + 1, [], window => .done ([], window)
  | room + 1, entry :: rest, window =>
      .spawn (.read ns entry.digest) fun id =>
        startReads ns room rest (window ++ [⟨entry.header, id⟩])

/-- The response stream: reads run ahead in a window, their blobs are sent in order.
`left` counts the entries not yet sent. -/
def streamPack (ns : String) : Nat → List ServedEntry → List Reading → List Bytes →
    Program Api ByteStream
  | 0, _, _, sent => .done ⟨sent, false⟩
  | left + 1, entries, window, sent =>
      (startReads ns (maxPackStorageReads - window.length) entries window).bind fun started =>
        match started with
        | (_, []) => .done ⟨sent, false⟩
        | (waiting, reading :: others) =>
            .join [reading.id] fun _ out =>
              match out with
              | some (.opened (some blob)) =>
                  let (payload, complete) :=
                    servePayload blob.size.toNat blob.stream.broken blob.stream.chunks 0
                  if complete then
                    streamPack ns left waiting others (sent ++ reading.header :: payload)
                  else .done ⟨sent ++ reading.header :: payload, true⟩
              | _ => .done ⟨sent, true⟩

def packBlobs (config : ServerConfig) (headers : Headers) (digests : List Digest) :
    Handler Response := do
  let ns ← Handler.pureStep (headers.authorize .read)
  if maxBatchItems < digests.length then
    .refuse (.badRequest "at most 10000 digests may be packed")
  else do
    let requested ← Handler.pureStep (packRequest config digests [] 0)
    let visible ← visibleBlobs ns requested
    let pack ← Handler.pureStep (packEntries visible ⟨[], 0, blobPackMagic.length⟩)
    let stream : ByteStream ← ((streamPack ns pack.entries.length pack.entries []
      [blobPackMagic]).bind fun stream => .done (.ok stream) : Handler ByteStream)
    return {
      status := .ok
      headers := [("content-type", "application/vnd.mbx.cache-blob-pack.v1"),
        ("content-length", toString pack.packBytes),
        ("mbx-cache-pack-blobs", toString pack.entries.length),
        ("mbx-cache-pack-bytes", toString pack.payloadBytes)]
      content := .stream stream }

end MbxCache
