import MbxCache.Server.Http

/-! Action manifests: mutable, guarded by an etag over their canonical bytes
(`server.rs`). -/

namespace MbxCache

open Concurrent

variable [Protocol]

/-- `MAX_ACTION_MANIFEST_BYTES` -/
def maxActionManifestBytes : Nat := 16 * 1024 * 1024

def canonicalBytes (manifest : TaskActionManifest) : Except ApiError Bytes :=
  (Protocol.canonicalManifest manifest).mapError ApiError.internal

def manifestFound (found : Option ManifestRecord) : Except ApiError ManifestRecord :=
  match found with
  | some record => .ok record
  | none => .error (.notFound "action manifest not found")

def getActionManifest (headers : Headers) (parts : String × String × UInt64) :
    Handler Response := do
  let ns ← Handler.pureStep (headers.authorize .read)
  let key ← Handler.pureStep (parseActionDigest parts)
  let found ← getManifest ns key
  let record ← Handler.pureStep (manifestFound found)
  let body ← Handler.pureStep (canonicalBytes record.manifest)
  return ⟨.ok, [("content-type", Protocol.manifestMediaType), ("etag", quotedEtag record.etag)],
    .stream ⟨[body], false⟩⟩

/-- A whole body of bounded size (`to_bytes`). -/
def wholeBody (body : Body) (limit : Nat) : Except ApiError Bytes :=
  if body.failure.isSome || limit < body.chunks.flatten.length then
    .error (.tooLarge "action manifest is too large")
  else .ok body.chunks.flatten

def parseManifest (bytes : Bytes) : Except ApiError TaskActionManifest :=
  match Protocol.parseManifest bytes with
  | .ok manifest => .ok manifest
  | .error error => .error (.badRequest s!"invalid action manifest: {error}")

def checkManifest (manifest : TaskActionManifest) (key : Digest) : Except ApiError Unit :=
  if !Protocol.manifestValid manifest || Protocol.selectorDigest manifest ≠ key then
    .error (.badRequest "action manifest does not match request")
  else .ok ()

def manifestStatus : ManifestCommitOutcome → Except ApiError StatusCode
  | .created => .ok .created
  | .updated => .ok .noContent
  | .preconditionFailed =>
      .error (.precondition "action manifest changed; read and merge it before retrying")

def manifestEtag (canonical : Bytes) : String := contentHash .blake3 canonical

def putActionManifest (headers : Headers) (parts : String × String × UInt64) (body : Body) :
    Handler Response := do
  let ns ← Handler.pureStep (headers.authorize .write)
  let bytes ← Handler.pureStep (wholeBody body maxActionManifestBytes)
  let manifest ← Handler.pureStep (MbxCache.parseManifest bytes)
  let key ← Handler.pureStep (parseActionDigest parts)
  Handler.pureStep (checkManifest manifest key)
  let expected ← Handler.pureStep (manifestPrecondition headers)
  let canonical ← Handler.pureStep (canonicalBytes manifest)
  let etag := manifestEtag canonical
  let outcome ← commitManifest ns key expected ⟨etag, manifest⟩
  let status ← Handler.pureStep (manifestStatus outcome)
  return ⟨status, [("etag", quotedEtag etag)], .empty⟩

end MbxCache
