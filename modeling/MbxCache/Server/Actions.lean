import Mathlib.Data.Finset.Card
import MbxCache.Server.Http

/-! Action results and the validation they pass before they are published
(`server.rs`). -/

namespace MbxCache

open Concurrent

variable [Protocol]

def getActionResult (headers : Headers) (parts : String × String × UInt64) :
    Handler Response := do
  let ns ← Handler.pureStep (headers.authorize .read)
  let action ← Handler.pureStep (parseActionDigest parts)
  let found ← getResult ns action
  match found with
  | some result => return ⟨.ok, [("content-type", "application/json")], .result result⟩
  | none => .refuse (.notFound "action result not found")

def batchRequest : List Digest → List Digest → Except ApiError (List Digest)
  | [], requested => .ok requested
  | digest :: rest, requested => do
      let digest ← validateActionDigest digest
      batchRequest rest (if requested.contains digest then requested else requested ++ [digest])

def batchActionResults (headers : Headers) (digests : List Digest) : Handler Response := do
  let ns ← Handler.pureStep (headers.authorize .read)
  if maxBatchItems < digests.length then
    .refuse (.badRequest "batch exceeds the supported size")
  else do
    let requested ← Handler.pureStep (batchRequest digests [])
    let results ← getBatch ns requested
    return ⟨.ok, [("content-type", "application/vnd.mbx.cache-action-result-batch.v1+json")],
      .results results⟩

inductive ActionKind
  | buildScript
  | cc
  | rustc
  | task
  deriving DecidableEq, Repr

def ActionKind.name : ActionKind → String
  | .buildScript => "build-script"
  | .cc => "cc"
  | .rustc => "rustc"
  | .task => "task"

def maxObjectBytes : Nat := 16 * 1024 * 1024

def readStream (stream : ByteStream) : Except ApiError Bytes :=
  stream.read.mapError fun _ => .internal .fault

def readVisible (ns : String) (digest : Digest) (missing : ApiError) : Handler Bytes := do
  let visible ← isVisible ns digest
  if !visible then .refuse missing
  else do
    let found ← fetch digest
    match found with
    | none => do
        forgetMissingBlob ns digest
        Handler.refuse missing
    | some blob => Handler.pureStep (readStream blob.stream)

def parseCanonicalObject (label : String) (bytes : Bytes) : Except ApiError Json :=
  match Protocol.parseValue bytes with
  | none => .error (.unprocessable s!"{label} is invalid JSON")
  | some value =>
      if value.asObject.isNone || Protocol.writeValue value ≠ bytes then
        .error (.unprocessable s!"{label} is not canonical JSON")
      else .ok value

def readCanonicalObject (ns : String) (digest : Digest) (label : String) : Handler Json := do
  Handler.pureStep (validateDigest digest)
  if maxObjectBytes < digest.size.toNat then .refuse (.unprocessable s!"{label} is too large")
  else do
    let bytes ← readVisible ns digest (.unprocessable s!"{label} blob is missing")
    Handler.pureStep (parseCanonicalObject label bytes)

/-- A character of a string under `{:?}`. -/
def escapeDebug (c : Char) : String :=
  if c = '\x00' then "\\0"
  else if c = '\t' then "\\t"
  else if c = '\r' then "\\r"
  else if c = '\n' then "\\n"
  else if c.toNat = 34 then "\\\""
  else if c = '\\' then "\\\\"
  else if (if c.toNat < 128 then 32 ≤ c.toNat && c.toNat < 127 else Protocol.isPrintable c) then
    c.toString
  else "\\u\x7b" ++ String.ofList (Nat.toDigits 16 c.toNat) ++ "\x7d"

def quoteDebug (text : String) : String :=
  "\"" ++ String.join (text.toList.map escapeDebug) ++ "\""

example : quoteDebug "link\"er\r\x7f" = "\"link\\\"er\\r\\u\x7b7f\x7d\"" := rfl

def kindAndVersion (label : String) (value : Json) : Except ApiError (String × UInt64) :=
  match value.asObject with
  | none => .error (.unprocessable s!"{label} must be a JSON object")
  | some fields =>
      match (fields.lookup "kind").bind Json.asStr with
      | none => .error (.unprocessable s!"{label} kind is required")
      | some kind =>
          match (fields.lookup "version").bind Json.asU64 with
          | none => .error (.unprocessable s!"{label} version is required")
          | some version => .ok (kind, version)

def decodeValid {A : Type} (label : String) (decode : Json → Except String A) (valid : A → Bool)
    (value : Json) : Except ApiError A :=
  match decode value with
  | .error error => .error (.unprocessable s!"invalid {label}: {error}")
  | .ok record =>
      if valid record then .ok record
      else .error (.unprocessable s!"invalid {label} values")

def unsupportedSchema (label : String) (version : UInt64) : ApiError :=
  .unprocessable s!"unsupported {label} schema {version}"

def validateBuildScriptAction (value : Json) (version : UInt64) : Except ApiError ActionKind :=
  if 2 ^ 8 ≤ version.toNat || !buildScriptActionSchemas (UInt8.ofNat version.toNat) then
    .error (unsupportedSchema "build-script action" version)
  else do
    let _ ← decodeValid "build-script action" Protocol.buildScriptAction
      BuildScriptAction.validate value
    return .buildScript

def validateCcAction (value : Json) (version : UInt64) : Except ApiError ActionKind :=
  if version ≠ 1 then .error (unsupportedSchema "cc action" version)
  else do
    let _ ← decodeValid "cc action" Protocol.ccAction CcAction.validate value
    return .cc

def taskActionFields : List String :=
  ["version", "kind", "task", "phase", "run", "args", "shell", "outputs", "root", "source_hash",
    "environment", "vars", "tools", "os", "arch"]

def missingField (fields : List (String × Json)) : Option String :=
  taskActionFields.find? fun field => (fields.lookup field).isNone

def validateTaskAction (value : Json) (version : UInt64) : Except ApiError ActionKind :=
  if version ≠ 1 then .error (unsupportedSchema "task action" version)
  else
    match missingField (value.asObject.getD []) with
    | some field => .error (.unprocessable s!"task action field {quoteDebug field} is required")
    | none => do
        let _ ← decodeValid "task action" Protocol.taskAction TaskAction.validate value
        return .task

def validateRustcAction (value : Json) (version : UInt64) : Except ApiError ActionKind :=
  if version ≠ 1 then .error (unsupportedSchema "rustc action" version)
  else do
    let _ ← decodeValid "rustc action" Protocol.rustcAction RustcAction.validate value
    return .rustc

def descriptorKind (value : Json) : Except ApiError ActionKind := do
  let (kind, version) ← kindAndVersion "action descriptor" value
  if kind = "build-script" then validateBuildScriptAction value version
  else if kind = "cc" then validateCcAction value version
  else if kind = "task" then validateTaskAction value version
  else if kind = "rustc" then validateRustcAction value version
  else .error (.unprocessable s!"unsupported action kind {quoteDebug kind}")

def validateActionDescriptor (ns : String) (digest : Digest) : Handler ActionKind := do
  let value ← readCanonicalObject ns digest "action descriptor"
  Handler.pureStep (descriptorKind value)

def validateActionResultShape (result : ActionResult) (kind : ActionKind) :
    Except ApiError Unit :=
  if kind ≠ .task && (result.metadata.isNone || result.outputRoot.isNone) then
    .error (.unprocessable "compiler action results require metadata and an output root")
  else .ok ()

def requireBlob (ns : String) (digest : Digest) (label : String) : Handler Unit := do
  Handler.pureStep (validateDigest digest)
  let visible ← isVisible ns digest
  if visible then pure () else .refuse (.unprocessable s!"{label} is missing")

def requireOutputBlobs (ns : String) (stdout stderr : Digest) (kind : String) : Handler Unit := do
  requireBlob ns stdout s!"{kind} stdout blob"
  requireBlob ns stderr s!"{kind} stderr blob"

def validateTaskRoot (root : String) : Except ApiError Unit :=
  if root.toList = [] || root.toList.head? = some '/' || root.toList.contains '\\' ||
      root.toList.contains '\x00' || (splitOn '/' root.toList).any (!safeComponent ·) then
    .error (.unprocessable "task metadata root must be a safe relative path")
  else .ok ()

def validateTaskRoots : List String → Except ApiError Unit
  | [] => .ok ()
  | root :: rest => do
      validateTaskRoot root
      validateTaskRoots rest

def validateTaskMetadata (value : Json) (version : UInt64) : Except ApiError Unit :=
  if version ≠ 1 then .error (unsupportedSchema "task metadata" version)
  else do
    let metadata ← decodeValid "task metadata" Protocol.taskMetadata TaskMetadata.validate value
    validateTaskRoots metadata.roots

def validateOutputs {A : Type} (ns : String) (kind : String) (decode : Json → Except String A)
    (valid : A → Bool) (stdout stderr : A → Digest) (value : Json) (version : UInt64) :
    Handler Unit :=
  if version ≠ 1 then .refuse (unsupportedSchema s!"{kind} metadata" version)
  else do
    let metadata ← Handler.pureStep (decodeValid s!"{kind} metadata" decode valid value)
    requireOutputBlobs ns (stdout metadata) (stderr metadata) kind

def validateBuildScriptMetadata (ns : String) (value : Json) (version : UInt64) : Handler Unit :=
  validateOutputs ns "build-script" Protocol.buildScriptMetadata BuildScriptMetadata.validate
    BuildScriptMetadata.stdout BuildScriptMetadata.stderr value version

def validateCcMetadata (ns : String) (value : Json) (version : UInt64) : Handler Unit :=
  validateOutputs ns "cc" Protocol.ccMetadata CompilerMetadata.valid CompilerMetadata.stdout
    CompilerMetadata.stderr value version

def validateRustcMetadata (ns : String) (value : Json) (version : UInt64) : Handler Unit :=
  validateOutputs ns "rustc" Protocol.rustcMetadata CompilerMetadata.valid CompilerMetadata.stdout
    CompilerMetadata.stderr value version

def metadataVersion (kind : ActionKind) (value : Json) : Except ApiError UInt64 := do
  let (found, version) ← kindAndVersion "client metadata" value
  if found ≠ kind.name then
    .error (.unprocessable "client metadata kind does not match action kind")
  else .ok version

def validateClientMetadata (ns : String) (digest : Digest) (kind : ActionKind) :
    Handler Unit := do
  let value ← readCanonicalObject ns digest "client metadata"
  let version ← Handler.pureStep (metadataVersion kind value)
  match kind with
  | .task => Handler.pureStep (validateTaskMetadata value version)
  | .buildScript => validateBuildScriptMetadata ns value version
  | .cc => validateCcMetadata ns value version
  | .rustc => validateRustcMetadata ns value version

def validateEntry (names : List String) (name : String) (mode : UInt32) :
    Except ApiError (List String) :=
  if name = "" || name = "." || name = ".." || name.toList.contains '/' ||
      name.toList.contains '\\' || name.toList.contains '\x00' || 4095 < mode.toNat then
    .error (.unprocessable "invalid directory entry")
  else if names.contains name then .error (.unprocessable "duplicate directory entry")
  else .ok (name :: names)

def validateEntries : List (String × UInt32) → List String → Except ApiError (List String)
  | [], names => .ok names
  | (name, mode) :: rest, names => do
      let names ← validateEntry names name mode
      validateEntries rest names

def validateSymlinks : List SymlinkNode → List String → Except ApiError Unit
  | [], _ => .ok ()
  | node :: rest, names => do
      let names ← validateEntry names node.name node.mode
      if node.target = "" || node.target.toList.contains '\x00' then
        .error (.unprocessable "invalid symlink target")
      else validateSymlinks rest names

def validateDirectoryEntries (directory : Directory) : Except ApiError Unit := do
  let names ← validateEntries (directory.directories.map fun node => (node.name, node.mode)) []
  let names ← validateEntries (directory.files.map fun node => (node.name, node.mode)) names
  validateSymlinks directory.symlinks names

def validateDigests : List Digest → Except ApiError Unit
  | [] => .ok ()
  | digest :: rest => do
      validateDigest digest
      validateDigests rest

def parseDirectory (bytes : Bytes) : Except ApiError Directory :=
  match Protocol.parseDirectory bytes with
  | none => .error (.unprocessable "directory object is invalid")
  | some directory =>
      if Protocol.writeDirectory directory ≠ bytes then
        .error (.unprocessable "directory object is not canonical JSON")
      else if directory.version ≠ 1 then
        .error (.unprocessable "unsupported directory object version")
      else do
        validateDirectoryEntries directory
        validateDigests (directory.files.map (·.digest))
        return directory

/-- The distinct file digests of a directory. They are asked for in one query, whose
order does not matter. -/
def distinctFiles (directory : Directory) : List Digest :=
  (directory.files.map (·.digest)).dedup

/-- One directory of the tree: the directories it names, once its files are known to
be visible. -/
def validateDirectory (ns : String) (digest : Digest) : Handler (List Digest) :=
  if maxObjectBytes < digest.size.toNat then
    .refuse (.unprocessable "directory object is too large")
  else do
    let bytes ← readVisible ns digest (.unprocessable "directory object is missing")
    let directory ← Handler.pureStep (parseDirectory bytes)
    let files := distinctFiles directory
    let visible ← visibleBlobs ns files
    if visible.length ≠ files.length then .refuse (.unprocessable "file blob is missing")
    else return directory.directories.map (·.digest)

inductive Visit
  | enter (digest : Digest)
  | exit (digest : Digest)
  deriving DecidableEq, Repr

def maxDirectories : Nat := 100000

omit [Protocol] in
theorem visited_exit (seen visiting : Finset Digest) (digest : Digest) :
    maxDirectories + 1 - (insert digest seen ∪ visiting.erase digest).card ≤
      maxDirectories + 1 - (seen ∪ visiting).card := by
  apply Nat.sub_le_sub_left
  apply Finset.card_le_card
  intro other member
  simp only [Finset.mem_union, Finset.mem_insert, Finset.mem_erase] at member ⊢
  tauto

omit [Protocol] in
theorem visited_enter {seen visiting : Finset Digest} {digest : Digest} (unseen : digest ∉ seen)
    (fresh : digest ∉ visiting)
    (room : ¬ maxDirectories < seen.card + (insert digest visiting).card) :
    maxDirectories + 1 - (seen ∪ insert digest visiting).card <
      maxDirectories + 1 - (seen ∪ visiting).card := by
  have new : digest ∉ seen ∪ visiting := by simp [unseen, fresh]
  have bound := Finset.card_union_le seen (insert digest visiting)
  rw [Finset.union_insert, Finset.card_insert_of_notMem new] at bound ⊢
  omega

/-- The walk over the directories below a root, depth first, with a stack of visits.
A directory still being visited that is entered again closes a cycle. -/
def visitTree (ns : String) (pending : List Visit) (visiting seen : Finset Digest) :
    Handler Unit :=
  match pending with
  | [] => pure ()
  | .exit digest :: rest => visitTree ns rest (visiting.erase digest) (insert digest seen)
  | .enter digest :: rest =>
      if _unseen : digest ∈ seen then visitTree ns rest visiting seen
      else if _fresh : digest ∈ visiting then
        .refuse (.unprocessable "directory graph contains a cycle")
      else if _room : maxDirectories < seen.card + (insert digest visiting).card then
        .refuse (.unprocessable "directory graph is too large")
      else
        (validateDirectory ns digest).bind fun children =>
          visitTree ns ((children.reverse.map .enter) ++ .exit digest :: rest)
            (insert digest visiting) seen
termination_by (maxDirectories + 1 - (seen ∪ visiting).card, pending.length)
decreasing_by
  · rcases Nat.lt_or_eq_of_le (visited_exit seen visiting digest) with fewer | same
    · exact Prod.Lex.left _ _ fewer
    · rw [same]
      exact Prod.Lex.right _ (Nat.lt_succ_self _)
  · exact Prod.Lex.right _ (Nat.lt_succ_self _)
  · exact Prod.Lex.left _ _ (visited_enter _unseen _fresh _room)

def validateTree (ns : String) (root : Digest) : Handler Unit :=
  visitTree ns [.enter root] ∅ ∅

def whenSome {A : Type} (subject : Option A) (check : A → Handler Unit) : Handler Unit :=
  match subject with
  | some value => check value
  | none => pure ()

def checkResult (result : ActionResult) (action : Digest) : Except ApiError Unit :=
  if result.version ≠ 1 || result.action ≠ action then
    .error (.badRequest "action result does not match request")
  else .ok ()

def commitStatus : CommitOutcome → Except ApiError StatusCode
  | .created => .ok .created
  | .alreadyExists => .ok .noContent
  | .conflict => .error (.conflict "an immutable action result already exists")

def putActionResult (headers : Headers) (parts : String × String × UInt64)
    (result : ActionResult) : Handler Response := do
  let ns ← Handler.pureStep (headers.authorize .write)
  Handler.pureStep (requireImmutablePrecondition headers)
  let action ← Handler.pureStep (parseActionDigest parts)
  Handler.pureStep (checkResult result action)
  let kind ← validateActionDescriptor ns action
  Handler.pureStep (validateActionResultShape result kind)
  whenSome result.metadata fun metadata => validateClientMetadata ns metadata kind
  whenSome result.outputRoot fun root => validateTree ns root
  let outcome ← commit ns action result
  let status ← Handler.pureStep (commitStatus outcome)
  return ⟨status, [], .empty⟩

end MbxCache
