import MbxCache.Server.Actions
import MbxCache.Server.Manifests
import MbxCache.Server.PackUpload

namespace MbxCache

open Concurrent

inductive Request
  | getBlob (headers : Headers) (parts : String × String × UInt64)
  | putBlob (headers : Headers) (parts : String × String × UInt64) (body : Body)
  | putBlobPack (headers : Headers) (body : Body)
  | missingBlobs (headers : Headers) (digests : List Digest)
  | packBlobs (headers : Headers) (digests : List Digest)
  | getActionResult (headers : Headers) (parts : String × String × UInt64)
  | batchActionResults (headers : Headers) (digests : List Digest)
  | putActionResult (headers : Headers) (parts : String × String × UInt64)
      (result : ActionResult)
  | getActionManifest (headers : Headers) (parts : String × String × UInt64)
  | putActionManifest (headers : Headers) (parts : String × String × UInt64) (body : Body)

namespace Request

def headers : Request → Headers
  | .getBlob headers _ => headers
  | .putBlob headers _ _ => headers
  | .putBlobPack headers _ => headers
  | .missingBlobs headers _ => headers
  | .packBlobs headers _ => headers
  | .getActionResult headers _ => headers
  | .batchActionResults headers _ => headers
  | .putActionResult headers _ _ => headers
  | .getActionManifest headers _ => headers
  | .putActionManifest headers _ _ => headers

def access : Request → Access
  | .putBlob _ _ _ | .putBlobPack _ _ | .putActionResult _ _ _ | .putActionManifest _ _ _ => .write
  | _ => .read

def authorized (request : Request) : Except ApiError String :=
  request.headers.authorize request.access

variable [Protocol]

def handler (config : ServerConfig) : Request → Handler Response
  | .getBlob headers parts => MbxCache.getBlob headers parts
  | .putBlob headers parts body => MbxCache.putBlob config headers parts body
  | .putBlobPack headers body => MbxCache.putBlobPack config headers body
  | .missingBlobs headers digests => MbxCache.missingBlobs headers digests
  | .packBlobs headers digests => MbxCache.packBlobs config headers digests
  | .getActionResult headers parts => MbxCache.getActionResult headers parts
  | .batchActionResults headers digests => MbxCache.batchActionResults headers digests
  | .putActionResult headers parts result => MbxCache.putActionResult headers parts result
  | .getActionManifest headers parts => MbxCache.getActionManifest headers parts
  | .putActionManifest headers parts body => MbxCache.putActionManifest headers parts body

theorem handler_refused (config : ServerConfig) (request : Request) {error : ApiError}
    (refused : request.authorized = .error error) :
    request.handler config = Handler.refuse error := by
  cases request <;> simp only [authorized, headers, access] at refused <;>
    simp only [handler, MbxCache.getBlob, MbxCache.putBlob, MbxCache.putBlobPack,
      MbxCache.missingBlobs, MbxCache.packBlobs, MbxCache.getActionResult,
      MbxCache.batchActionResults, MbxCache.putActionResult, MbxCache.getActionManifest,
      MbxCache.putActionManifest, refused, Handler.pureStep_error]

end Request
end MbxCache
