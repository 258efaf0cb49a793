import MbxCache.ApiError
import MbxCache.Model

/-! What the server takes from the protocol, hashing and serialization crates. -/

namespace MbxCache

structure DirectoryNode where
  name : String
  mode : UInt32
  digest : Digest
  deriving DecidableEq, Repr

structure FileNode where
  name : String
  mode : UInt32
  digest : Digest
  executable : Bool
  deriving DecidableEq, Repr

structure SymlinkNode where
  name : String
  mode : UInt32
  target : String
  deriving DecidableEq, Repr

structure Directory where
  version : UInt8
  directories : List DirectoryNode
  files : List FileNode
  symlinks : List SymlinkNode
  deriving DecidableEq, Repr

structure ActionResult where
  version : UInt8
  action : Digest
  metadata : Option Digest
  outputRoot : Option Digest
  deriving DecidableEq, Repr

structure ActionPrediction where
  action : Digest
  adapter : String
  invocation : Digest
  payload : String
  deriving DecidableEq, Repr

structure TaskActionManifest where
  predictions : List ActionPrediction
  task : String
  version : UInt8
  deriving DecidableEq, Repr

/-- `CcMetadata` and `RustcMetadata`: the output blobs they name, and whether
their own `validate` accepts them. -/
structure CompilerMetadata where
  stdout : Digest
  stderr : Digest
  valid : Bool
  deriving DecidableEq, Repr

structure Hasher where
  State : Type
  new : State
  update : State → Bytes → State
  finalize : State → Bytes
  update_nil : ∀ state, update state [] = state
  update_append : ∀ state front back,
    update (update state front) back = update state (front ++ back)

def Hasher.hash (hasher : Hasher) (bytes : Bytes) : Bytes :=
  hasher.finalize (hasher.update hasher.new bytes)

/-- Functions from outside the server, with the documented behaviour it relies on: hashing does
not see how its input is cut, and serialization round-trips. Beyond ASCII, `isPrintable` is the
table of the characters that `{:?}` leaves as they are. -/
class Protocol where
  blake3 : Hasher
  sha256 : Hasher
  hexError : String → String
  algorithmError : String → String
  isPrintable : Char → Bool
  parseValue : Bytes → Option Json
  writeValue : Json → Bytes
  parseDirectory : Bytes → Option Directory
  writeDirectory : Directory → Bytes
  buildScriptAction : Json → Except String BuildScriptAction
  ccAction : Json → Except String CcAction
  taskAction : Json → Except String TaskAction
  rustcAction : Json → Except String RustcAction
  buildScriptMetadata : Json → Except String BuildScriptMetadata
  ccMetadata : Json → Except String CompilerMetadata
  taskMetadata : Json → Except String TaskMetadata
  rustcMetadata : Json → Except String CompilerMetadata
  manifestMediaType : String
  manifestValid : TaskActionManifest → Bool
  selectorDigest : TaskActionManifest → Digest
  parseManifest : Bytes → Except String TaskActionManifest
  canonicalManifest : TaskActionManifest → Except Failure Bytes
  parseManifest_canonical : ∀ {manifest bytes}, canonicalManifest manifest = .ok bytes →
    parseManifest bytes = .ok manifest
  resultBytes : ActionResult → Bytes
  bytesResult : Bytes → Option ActionResult
  bytesResult_resultBytes : ∀ result, bytesResult (resultBytes result) = some result
  resultValue : ActionResult → Json
  valueResult : Json → Option ActionResult
  valueResult_resultValue : ∀ result, valueResult (resultValue result) = some result
  manifestValue : TaskActionManifest → Json
  valueManifest : Json → Option TaskActionManifest
  valueManifest_manifestValue : ∀ manifest,
    valueManifest (manifestValue manifest) = some manifest

section
variable [Protocol]

def Algorithm.hasher : Algorithm → Hasher
  | .blake3 => Protocol.blake3
  | .sha256 => Protocol.sha256

def contentHash (algorithm : Algorithm) (bytes : Bytes) : String :=
  Hex.encode (algorithm.hasher.hash bytes)

def Digest.Names (digest : Digest) (bytes : Bytes) : Prop :=
  bytes.length = digest.size.toNat ∧
    ∃ algorithm, digest.algorithmKind = some algorithm ∧
      digest.hash = contentHash algorithm bytes

theorem resultBytes_injective {first second : ActionResult}
    (same : Protocol.resultBytes first = Protocol.resultBytes second) : first = second := by
  have read := congrArg Protocol.bytesResult same
  rw [Protocol.bytesResult_resultBytes, Protocol.bytesResult_resultBytes] at read
  exact Option.some.inj read

theorem resultValue_injective {first second : ActionResult}
    (same : Protocol.resultValue first = Protocol.resultValue second) : first = second := by
  have read := congrArg Protocol.valueResult same
  rw [Protocol.valueResult_resultValue, Protocol.valueResult_resultValue] at read
  exact Option.some.inj read

theorem canonicalManifest_injective {first second : TaskActionManifest} {bytes : Bytes}
    (one : Protocol.canonicalManifest first = .ok bytes)
    (other : Protocol.canonicalManifest second = .ok bytes) : first = second := by
  have read := (Protocol.parseManifest_canonical one).symm.trans
    (Protocol.parseManifest_canonical other)
  cases read
  rfl

end
end MbxCache
