import MbxCache.Auth.Namespace
import MbxCache.Protocol

/-! A protocol small enough to compute with. It knows the hashes of a few contents and
the text of a few values; all other contents share one hash. -/

namespace MbxCache.Specimen

def hasher (known : List (Bytes × String)) : Hasher where
  State := Bytes
  new := []
  update state bytes := state ++ bytes
  finalize state := ((known.lookup state).bind Hex.decode).getD (List.replicate 32 0)
  update_nil state := List.append_nil state
  update_append state front back := List.append_assoc state front back

def team : Namespace := ⟨"team", (validNamespace_iff "team").mp (by decide)⟩

def emptyBlake3 : String := "af1349b9f5f9a1a6a0404dea36dcc9499bcb25c9adc112b7cc9a93cae41f3262"

def zeroBlake3 : String := "2d3adedff11b61f14c886e35afa036736dcd87a74d27b5c1510225d0f592e213"

def emptySha256 : String := "e3b0c44298fc1c149afbf4c8996fb92427ae41e4649b934ca495991b7852b855"

def zeroSha256 : String := "6e340b9cffb37a989ca544e6bb780a2c78901d3fb33738768511a30617afa01d"

section Values

def digestValue (digest : Digest) : Json :=
  .object [("algorithm", .string digest.algorithm), ("hash", .string digest.hash),
    ("size", .unsigned digest.size)]

def valueDigest : Json → Option Digest
  | .object [(_, .string algorithm), (_, .string hash), (_, .unsigned size)] =>
      some ⟨algorithm, hash, size⟩
  | _ => none

@[simp] theorem valueDigest_digestValue (digest : Digest) :
    valueDigest (digestValue digest) = some digest := rfl

def optionValue : Option Digest → Json
  | none => .null
  | some digest => digestValue digest

def valueOption : Json → Option (Option Digest)
  | .null => some none
  | value => (valueDigest value).map some

@[simp] theorem valueOption_optionValue (digest : Option Digest) :
    valueOption (optionValue digest) = some digest := by
  cases digest <;> rfl

def resultValue (result : ActionResult) : Json :=
  .object [("version", .unsigned result.version.toUInt64), ("action", digestValue result.action),
    ("metadata", optionValue result.metadata), ("output_root", optionValue result.outputRoot)]

def valueResult : Json → Option ActionResult
  | .object [(_, .unsigned version), (_, action), (_, metadata), (_, outputRoot)] => do
      let action ← valueDigest action
      let metadata ← valueOption metadata
      let outputRoot ← valueOption outputRoot
      return ⟨version.toUInt8, action, metadata, outputRoot⟩
  | _ => none

theorem valueResult_resultValue (result : ActionResult) :
    valueResult (resultValue result) = some result := by
  simp [valueResult, resultValue]

def predictionValue (prediction : ActionPrediction) : Json :=
  .object [("action", digestValue prediction.action), ("adapter", .string prediction.adapter),
    ("invocation", digestValue prediction.invocation), ("payload", .string prediction.payload)]

def valuePrediction : Json → Option ActionPrediction
  | .object [(_, action), (_, .string adapter), (_, invocation), (_, .string payload)] => do
      let action ← valueDigest action
      let invocation ← valueDigest invocation
      return ⟨action, adapter, invocation, payload⟩
  | _ => none

@[simp] theorem valuePrediction_predictionValue (prediction : ActionPrediction) :
    valuePrediction (predictionValue prediction) = some prediction := rfl

def manifestValue (manifest : TaskActionManifest) : Json :=
  .object [("predictions", .array (manifest.predictions.map predictionValue)),
    ("task", .string manifest.task), ("version", .unsigned manifest.version.toUInt64)]

def valueManifest : Json → Option TaskActionManifest
  | .object [(_, .array predictions), (_, .string task), (_, .unsigned version)] =>
      (predictions.mapM valuePrediction).map fun predictions =>
        ⟨predictions, task, version.toUInt8⟩
  | _ => none

theorem valueManifest_manifestValue (manifest : TaskActionManifest) :
    valueManifest (manifestValue manifest) = some manifest := by
  have predictions : (manifest.predictions.map predictionValue).mapM valuePrediction =
      some manifest.predictions := by
    rw [List.mapM_map]
    induction manifest.predictions with
    | nil => rfl
    | cons first rest ih => simp [List.mapM_cons, ih]
  simp [valueManifest, manifestValue, predictions]

end Values

section Texts

def charBytes (text : List Char) : Bytes :=
  text.flatMap (fun c => 1 :: BigEndian.encode 4 c.toNat) ++ [0]

def bytesChars : Bytes → Option (List Char × Bytes)
  | 0 :: rest => some ([], rest)
  | _ :: a :: b :: c :: d :: rest =>
      (bytesChars rest).map fun (text, rest) =>
        (Char.ofNat (BigEndian.decode [a, b, c, d]) :: text, rest)
  | _ => none

theorem bytesChars_charBytes (text : List Char) (rest : Bytes) :
    bytesChars (charBytes text ++ rest) = some (text, rest) := by
  induction text with
  | nil => rfl
  | cons c text ih =>
      have small : c.toNat < 256 ^ 4 := c.val.toNat_lt
      have read := BigEndian.decode_encode 4 c.toNat small
      have length := BigEndian.encode_length 4 c.toNat
      have split : charBytes (c :: text) ++ rest =
          1 :: (BigEndian.encode 4 c.toNat ++ (charBytes text ++ rest)) := by
        simp [charBytes]
      rw [split]
      generalize BigEndian.encode 4 c.toNat = code at read length
      match code, length with
      | [_, _, _, _], _ =>
          change (bytesChars (charBytes text ++ rest)).map _ = _
          rw [ih, Option.map_some, read, Char.ofNat_toNat]

def digestBytes (digest : Digest) : Bytes :=
  charBytes digest.algorithm.toList ++ (charBytes digest.hash.toList ++
    BigEndian.encode 8 digest.size.toNat)

def bytesDigest (bytes : Bytes) : Option (Digest × Bytes) := do
  let (algorithm, rest) ← bytesChars bytes
  let (hash, rest) ← bytesChars rest
  return (⟨String.ofList algorithm, String.ofList hash,
    UInt64.ofNat (BigEndian.decode (rest.take 8))⟩, rest.drop 8)

theorem bytesDigest_digestBytes (digest : Digest) (rest : Bytes) :
    bytesDigest (digestBytes digest ++ rest) = some (digest, rest) := by
  have small : digest.size.toNat < 256 ^ 8 := digest.size.toNat_lt
  have length := BigEndian.encode_length 8 digest.size.toNat
  simp only [bytesDigest, digestBytes, List.append_assoc, bytesChars_charBytes,
    Option.bind_eq_bind, Option.bind_some, List.take_left' length, List.drop_left' length,
    BigEndian.decode_encode 8 _ small, UInt64.ofNat_toNat, String.ofList_toList]
  rfl

def optionBytes : Option Digest → Bytes
  | none => [0]
  | some digest => 1 :: digestBytes digest

def bytesOption : Bytes → Option (Option Digest × Bytes)
  | 0 :: rest => some (none, rest)
  | _ :: rest => (bytesDigest rest).map fun (digest, rest) => (some digest, rest)
  | [] => none

theorem bytesOption_optionBytes (digest : Option Digest) (rest : Bytes) :
    bytesOption (optionBytes digest ++ rest) = some (digest, rest) := by
  cases digest with
  | none => rfl
  | some digest =>
      change (bytesDigest (digestBytes digest ++ rest)).map _ = _
      rw [bytesDigest_digestBytes]
      rfl

def resultBytes (result : ActionResult) : Bytes :=
  result.version :: (digestBytes result.action ++
    (optionBytes result.metadata ++ (optionBytes result.outputRoot ++ [])))

def bytesResult : Bytes → Option ActionResult
  | [] => none
  | version :: rest => do
      let (action, rest) ← bytesDigest rest
      let (metadata, rest) ← bytesOption rest
      let (outputRoot, _) ← bytesOption rest
      return ⟨version, action, metadata, outputRoot⟩

theorem bytesResult_resultBytes (result : ActionResult) :
    bytesResult (resultBytes result) = some result := by
  simp only [bytesResult, resultBytes, bytesDigest_digestBytes, bytesOption_optionBytes,
    Option.bind_eq_bind, Option.bind_some]
  rfl

end Texts

def emptyDigest : Digest := ⟨"blake3", emptyBlake3, 0⟩

def zeroDigest : Digest := ⟨"blake3", zeroBlake3, 1⟩

section Manifests

def taskIdentity : String := "bbbbbbbbbbbbbbbbbbbbbbbbbbbbbbbbbbbbbbbbbbbbbbbbbbbbbbbbbbbbbbbb"

def prediction (adapter : String) : ActionPrediction :=
  ⟨zeroDigest, adapter, emptyDigest, "\x7b\x7d"⟩

def manifest : TaskActionManifest := ⟨[prediction "rustc"], taskIdentity, 1⟩

def mergedManifest : TaskActionManifest :=
  ⟨[prediction "cc", prediction "rustc"], taskIdentity, 1⟩

-- The canonical texts, spelled out in bytes so that they compute fast.

def zeroDigestBytes : Bytes :=
  [123, 34, 97, 108, 103, 111, 114, 105, 116, 104, 109, 34, 58, 34, 98, 108, 97, 107, 101, 51, 34,
    44, 34, 104, 97, 115, 104, 34, 58, 34, 50, 100, 51, 97, 100, 101, 100, 102, 102, 49, 49, 98, 54,
    49, 102, 49, 52, 99, 56, 56, 54, 101, 51, 53, 97, 102, 97, 48, 51, 54, 55, 51, 54, 100, 99, 100,
    56, 55, 97, 55, 52, 100, 50, 55, 98, 53, 99, 49, 53, 49, 48, 50, 50, 53, 100, 48, 102, 53, 57,
    50, 101, 50, 49, 51, 34, 44, 34, 115, 105, 122, 101, 34, 58, 49, 125]

def emptyDigestBytes : Bytes :=
  [123, 34, 97, 108, 103, 111, 114, 105, 116, 104, 109, 34, 58, 34, 98, 108, 97, 107, 101, 51, 34,
    44, 34, 104, 97, 115, 104, 34, 58, 34, 97, 102, 49, 51, 52, 57, 98, 57, 102, 53, 102, 57, 97,
    49, 97, 54, 97, 48, 52, 48, 52, 100, 101, 97, 51, 54, 100, 99, 99, 57, 52, 57, 57, 98, 99, 98,
    50, 53, 99, 57, 97, 100, 99, 49, 49, 50, 98, 55, 99, 99, 57, 97, 57, 51, 99, 97, 101, 52, 49,
    102, 51, 50, 54, 50, 34, 44, 34, 115, 105, 122, 101, 34, 58, 48, 125]

def predictionBytes (adapter : Bytes) : Bytes :=
  [123, 34, 97, 99, 116, 105, 111, 110, 34, 58] ++ zeroDigestBytes ++
    [44, 34, 97, 100, 97, 112, 116, 101, 114, 34, 58, 34] ++ adapter ++
    [34, 44, 34, 105, 110, 118, 111, 99, 97, 116, 105, 111, 110, 34, 58] ++ emptyDigestBytes ++
    [44, 34, 112, 97, 121, 108, 111, 97, 100, 34, 58, 34, 123, 125, 34, 125]

def textOfPredictions (predictions : Bytes) : Bytes :=
  [123, 34, 112, 114, 101, 100, 105, 99, 116, 105, 111, 110, 115, 34, 58, 91] ++ predictions ++
    [93, 44, 34, 116, 97, 115, 107, 34, 58, 34] ++ List.replicate 64 98 ++
    [34, 44, 34, 118, 101, 114, 115, 105, 111, 110, 34, 58, 49, 125]

def manifestBytes : Bytes := textOfPredictions (predictionBytes [114, 117, 115, 116, 99])

def mergedBytes : Bytes :=
  textOfPredictions (predictionBytes [99, 99] ++ 44 :: predictionBytes [114, 117, 115, 116, 99])

example : String.ofList (manifestBytes.map fun byte => Char.ofNat byte.toNat) =
    "\x7b\"predictions\":[\x7b\"action\":\x7b\"algorithm\":\"blake3\",\"hash\":\"2d3adedff" ++
      "11b61f14c886e35afa036736dcd87a74d27b5c1510225d0f592e213\",\"size\":1\x7d,\"adapter\":" ++
      "\"rustc\",\"invocation\":\x7b\"algorithm\":\"blake3\",\"hash\":\"af1349b9f5f9a1a6a040" ++
      "4dea36dcc9499bcb25c9adc112b7cc9a93cae41f3262\",\"size\":0\x7d,\"payload\":\"\x7b\x7d\"" ++
      "\x7d],\"task\":\"bbbbbbbbbbbbbbbbbbbbbbbbbbbbbbbbbbbbbbbbbbbbbbbbbbbbbbbbbbbbbbbb\",\"" ++
      "version\":1\x7d" := by
  decide +kernel

def manifestBlake3 : String := "e6c28961c2dd7e76956960a02497b09e34baf1c7d2b22ae5fa84240be2092f76"

def mergedBlake3 : String := "2a8c7ab1dd59c69515d76b8aa36ed5396ef2fdf386edd2e046d4bdd9b4d2ddeb"

def manifestKey : Digest :=
  ⟨"blake3", "4511bcbccc5e4f0444608e3edd70458fae458a7c127ac09b1cf4e81f98c0748c", 87⟩

def knownManifests : List (TaskActionManifest × Bytes) :=
  [(manifest, manifestBytes), (mergedManifest, mergedBytes)]

def parseManifest (bytes : Bytes) : Except String TaskActionManifest :=
  match knownManifests.find? fun known => known.2 = bytes with
  | some (manifest, _) => .ok manifest
  | none => .error "unknown manifest"

def canonicalManifest (manifest : TaskActionManifest) : Except Failure Bytes :=
  match knownManifests.lookup manifest with
  | some bytes => .ok bytes
  | none => .error .fault

theorem parseManifest_known : ∀ known ∈ knownManifests, parseManifest known.2 = .ok known.1 := by
  decide +kernel

theorem canonicalManifest_known {found : TaskActionManifest} {bytes : Bytes}
    (canonical : canonicalManifest found = .ok bytes) : (found, bytes) ∈ knownManifests := by
  unfold canonicalManifest at canonical
  split at canonical
  · rename_i known held
    cases canonical
    obtain ⟨front, back, listed, -⟩ := List.lookup_eq_some_iff.mp held
    simp [listed]
  · cases canonical

def manifestValid (manifest : TaskActionManifest) : Bool :=
  manifest.version == 1 && manifest.task.toList.length == 64 &&
    manifest.task.toList.all Hex.isLower &&
    manifest.predictions.all fun prediction =>
      prediction.action.validate && prediction.invocation.validate

end Manifests

abbrev protocol : Protocol where
  blake3 := hasher [([], emptyBlake3), ([0], zeroBlake3), (manifestBytes, manifestBlake3),
    (mergedBytes, mergedBlake3)]
  sha256 := hasher [([], emptySha256), ([0], zeroSha256)]
  hexError _ := "invalid hash"
  algorithmError name := "unsupported digest algorithm: " ++ name
  isPrintable _ := true
  parseValue bytes := if bytes = [123, 125] then some (.object []) else none
  writeValue _ := [123, 125]
  parseDirectory _ := none
  writeDirectory _ := []
  buildScriptAction _ := .error "unknown action"
  ccAction _ := .error "unknown action"
  taskAction _ := .error "unknown action"
  rustcAction _ := .error "unknown action"
  buildScriptMetadata _ := .error "unknown metadata"
  ccMetadata _ := .error "unknown metadata"
  taskMetadata _ := .error "unknown metadata"
  rustcMetadata _ := .error "unknown metadata"
  manifestMediaType := "application/vnd.mbx.task-action-manifest.v1+json"
  manifestValid := manifestValid
  selectorDigest found := if found.task = taskIdentity then manifestKey else zeroDigest
  parseManifest := parseManifest
  canonicalManifest := canonicalManifest
  parseManifest_canonical canonical := parseManifest_known _ (canonicalManifest_known canonical)
  resultBytes := resultBytes
  bytesResult := bytesResult
  bytesResult_resultBytes := bytesResult_resultBytes
  resultValue := resultValue
  valueResult := valueResult
  valueResult_resultValue := valueResult_resultValue
  manifestValue := manifestValue
  valueManifest := valueManifest
  valueManifest_manifestValue := valueManifest_manifestValue

section Tasks

def taskText : String :=
  "\x7b\"arch\":\"x86_64\",\"args\":[],\"environment\":\x7b\x7d,\"kind\":\"task\"," ++
    "\"os\":\"linux\",\"outputs\":[],\"phase\":\"normal\",\"root\":\"\",\"run\":[]," ++
    "\"shell\":null,\"source_hash\":\"\",\"task\":\"build\"," ++
    "\"tools\":[],\"vars\":\x7b\x7d,\"version\":1\x7d"

def taskBytes : Bytes :=
  [123, 34, 97, 114, 99, 104, 34, 58, 34, 120, 56, 54, 95, 54, 52, 34, 44, 34, 97, 114, 103, 115,
    34, 58, 91, 93, 44, 34, 101, 110, 118, 105, 114, 111, 110, 109, 101, 110, 116, 34, 58, 123,
    125, 44, 34, 107, 105, 110, 100, 34, 58, 34, 116, 97, 115, 107, 34, 44, 34, 111, 115, 34, 58,
    34, 108, 105, 110, 117, 120, 34, 44, 34, 111, 117, 116, 112, 117, 116, 115, 34, 58, 91, 93,
    44, 34, 112, 104, 97, 115, 101, 34, 58, 34, 110, 111, 114, 109, 97, 108, 34, 44, 34, 114, 111,
    111, 116, 34, 58, 34, 34, 44, 34, 114, 117, 110, 34, 58, 91, 93, 44, 34, 115, 104, 101, 108,
    108, 34, 58, 110, 117, 108, 108, 44, 34, 115, 111, 117, 114, 99, 101, 95, 104, 97, 115, 104,
    34, 58, 34, 34, 44, 34, 116, 97, 115, 107, 34, 58, 34, 98, 117, 105, 108, 100, 34, 44, 34,
    116, 111, 111, 108, 115, 34, 58, 91, 93, 44, 34, 118, 97, 114, 115, 34, 58, 123, 125, 44, 34,
    118, 101, 114, 115, 105, 111, 110, 34, 58, 49, 125]

example : taskText = String.ofList (taskBytes.map fun byte => Char.ofNat byte.toNat) := by
  decide +kernel

def taskBlake3 : String := "3e839fa1e5ec9761a6b46e92504d027d490ea3158466a7bb4fc3d73e63040759"

def taskDigest : Digest := ⟨"blake3", taskBlake3, 198⟩

def taskValue : Json :=
  .object [("arch", .string "x86_64"), ("args", .array []), ("environment", .object []),
    ("kind", .string "task"), ("os", .string "linux"), ("outputs", .array []),
    ("phase", .string "normal"), ("root", .string ""), ("run", .array []), ("shell", .null),
    ("source_hash", .string ""), ("task", .string "build"), ("tools", .array []),
    ("vars", .object []), ("version", .unsigned 1)]

def task : TaskAction where
  version := 1
  kind := "task"
  task := "build"
  phase := .normal
  run := []
  args := []
  shell := none
  outputs := []
  root := ""
  sourceHash := ""
  dependencyKeys := []
  environment := []
  commandInputs := []
  vars := []
  tools := []
  os := "linux"
  arch := "x86_64"

def metadataBytes : Bytes :=
  [123, 34, 101, 120, 101, 99, 117, 116, 105, 111, 110, 95, 100, 117, 114, 97, 116, 105, 111, 110,
    95, 110, 115, 34, 58, 49, 44, 34, 107, 105, 110, 100, 34, 58, 34, 116, 97, 115, 107, 34, 44, 34,
    111, 117, 116, 112, 117, 116, 34, 58, 91, 93, 44, 34, 114, 101, 115, 116, 111, 114, 101, 100,
    95, 98, 121, 116, 101, 115, 34, 58, 49, 44, 34, 114, 111, 111, 116, 115, 34, 58, 91, 34, 111,
    117, 116, 34, 93, 44, 34, 116, 97, 115, 107, 95, 105, 100, 101, 110, 116, 105, 116, 121, 34, 58,
    34, 98, 117, 105, 108, 100, 34, 44, 34, 118, 101, 114, 115, 105, 111, 110, 34, 58, 49, 125]

def metadataDigest : Digest :=
  ⟨"blake3", "69f682bcc4b9a4a1c64a8f56506214cb3d3b1b5ed265695090dba962b48b9691", 124⟩

def metadataValue : Json :=
  .object [("execution_duration_ns", .unsigned 1), ("kind", .string "task"),
    ("output", .array []), ("restored_bytes", .unsigned 1), ("roots", .array [.string "out"]),
    ("task_identity", .string "build"), ("version", .unsigned 1)]

def taskMetadata : TaskMetadata where
  version := 1
  kind := "task"
  taskIdentity := "build"
  roots := ["out"]
  output := []
  restoredBytes := 1
  executionDurationNs := 1

def binBytes : Bytes :=
  [123, 34, 100, 105, 114, 101, 99, 116, 111, 114, 105, 101, 115, 34, 58, 91, 93, 44, 34, 102, 105,
    108, 101, 115, 34, 58, 91, 123, 34, 100, 105, 103, 101, 115, 116, 34, 58] ++ zeroDigestBytes ++
    [44, 34, 101, 120, 101, 99, 117, 116, 97, 98, 108, 101, 34, 58, 116, 114, 117, 101, 44, 34, 109,
    111, 100, 101, 34, 58, 52, 57, 51, 44, 34, 110, 97, 109, 101, 34, 58, 34, 97, 112, 112, 34, 125,
    93, 44, 34, 115, 121, 109, 108, 105, 110, 107, 115, 34, 58, 91, 93, 44, 34, 118, 101, 114, 115,
    105, 111, 110, 34, 58, 49, 125]

def binDigest : Digest :=
  ⟨"blake3", "ce7b95c61d5bf0bd3f95a731db0c25a0f01336ab8e0fce5637c990850f7163e6", 213⟩

def binDirectory : Directory := ⟨1, [], [⟨"app", 493, zeroDigest, true⟩], []⟩

def binDigestBytes : Bytes :=
  [123, 34, 97, 108, 103, 111, 114, 105, 116, 104, 109, 34, 58, 34, 98, 108, 97, 107, 101, 51, 34,
    44, 34, 104, 97, 115, 104, 34, 58, 34, 99, 101, 55, 98, 57, 53, 99, 54, 49, 100, 53, 98, 102,
    48, 98, 100, 51, 102, 57, 53, 97, 55, 51, 49, 100, 98, 48, 99, 50, 53, 97, 48, 102, 48, 49, 51,
    51, 54, 97, 98, 56, 101, 48, 102, 99, 101, 53, 54, 51, 55, 99, 57, 57, 48, 56, 53, 48, 102, 55,
    49, 54, 51, 101, 54, 34, 44, 34, 115, 105, 122, 101, 34, 58, 50, 49, 51, 125]

def rootBytes : Bytes :=
  [123, 34, 100, 105, 114, 101, 99, 116, 111, 114, 105, 101, 115, 34, 58, 91, 123, 34, 100, 105,
    103, 101, 115, 116, 34, 58] ++ binDigestBytes ++
    [44, 34, 109, 111, 100, 101, 34, 58, 52, 57, 51, 44, 34, 110, 97, 109, 101, 34, 58, 34, 98, 105,
    110, 34, 125, 93, 44, 34, 102, 105, 108, 101, 115, 34, 58, 91, 93, 44, 34, 115, 121, 109, 108,
    105, 110, 107, 115, 34, 58, 91, 93, 44, 34, 118, 101, 114, 115, 105, 111, 110, 34, 58, 49, 125]

def rootDigest : Digest :=
  ⟨"blake3", "ceeb9d826f76be87c4442496ad67bc2ddfaf06f56eb689b117a04cde64b83d58", 197⟩

def rootDirectory : Directory := ⟨1, [⟨"bin", 493, binDigest⟩], [], []⟩

def knownValues : List (Bytes × Json) := [(taskBytes, taskValue), (metadataBytes, metadataValue)]

def knownDirectories : List (Bytes × Directory) :=
  [(binBytes, binDirectory), (rootBytes, rootDirectory)]

abbrev taskProtocol : Protocol :=
  { protocol with
    blake3 := hasher [([], emptyBlake3), ([0], zeroBlake3), (taskBytes, taskBlake3),
      (metadataBytes, metadataDigest.hash), (binBytes, binDigest.hash),
      (rootBytes, rootDigest.hash)]
    parseValue := fun bytes => knownValues.lookup bytes
    writeValue := fun value => if value = metadataValue then metadataBytes else taskBytes
    parseDirectory := fun bytes => knownDirectories.lookup bytes
    writeDirectory := fun directory => if directory = binDirectory then binBytes else rootBytes
    taskAction := fun value =>
      if value = taskValue then .ok task else .error "unknown action"
    taskMetadata := fun value =>
      if value = metadataValue then .ok taskMetadata else .error "unknown metadata" }

end Tasks

end MbxCache.Specimen
