import MbxCache.Server.Interface

/-! Requests, responses and the checks every handler starts with (`server.rs`). -/

namespace MbxCache

open Concurrent

inductive Access
  | read
  | write
  deriving DecidableEq, Repr

/-- The headers the handlers look at, each as its text where it has one, and what
authorizing the request comes to. -/
structure Headers where
  authorize : Access → Except ApiError String
  named : ∀ {access ns}, authorize access = .ok ns → IsNamespace ns
  ifNoneMatch : Option String
  ifMatch : Option String
  packBlobs : Option String
  packBytes : Option String

theorem granted_named (ns : Namespace) {name : String}
    (granted : (.ok ns.1 : Except ApiError String) = .ok name) : IsNamespace name :=
  Except.ok.inj granted ▸ ns.2

/-- A request body in the chunks it arrives in, and the transport error it ends with
if it does not end. -/
structure Body where
  chunks : List Bytes
  failure : Option String
  deriving DecidableEq, Repr

inductive Content
  | empty
  | stream (bytes : ByteStream)
  | missing (digests : List Digest)
  | result (result : ActionResult)
  | results (results : List ActionResult)
  | receipt (created existing : Nat)
  deriving DecidableEq, Repr

structure Response where
  status : StatusCode
  headers : List (String × String)
  content : Content
  deriving DecidableEq, Repr

structure ServerConfig where
  maxBlobBytes : UInt64
  packStoreConcurrency : Nat
  /-- Whether the upload spool has a budget at all. -/
  spoolBudget : Bool
  deriving DecidableEq, Repr

def Handler (A : Type) := Program Api (Except ApiError A)

namespace Handler

variable {A B : Type}

protected def bind (handler : Handler A) (next : A → Handler B) : Handler B :=
  Program.bindOk handler next

instance : Monad Handler where
  pure value := .done (.ok value)
  bind := Handler.bind

def refuse (error : ApiError) : Handler A := .done (.error error)

def pureStep (result : Except ApiError A) : Handler A := .done result

@[simp] theorem pureStep_ok (value : A) (next : A → Handler B) :
    pureStep (.ok value) >>= next = next value := rfl

@[simp] theorem pureStep_error (error : ApiError) (next : A → Handler B) :
    pureStep (.error error) >>= next = refuse error := rfl

def internally (result : Except Failure A) : Handler A :=
  .done (result.mapError ApiError.internal)

end Handler

def Handler.Gives {A : Type} (holds : A → Prop) (handler : Handler A) : Prop :=
  Program.Always (fun result : Except ApiError A => ∀ value, result = .ok value → holds value)
    handler

namespace Handler.Gives

variable {A B : Type} {holds : A → Prop} {final : B → Prop} {handler : Handler A}
  {next : A → Handler B}

theorem pure {value : A} (met : holds value) : (Pure.pure value : Handler A).Gives holds := by
  intro found same
  cases same
  exact met

theorem refuse (error : ApiError) : (Handler.refuse error : Handler A).Gives holds := by
  intro found wrong
  cases wrong

theorem mono (gives : handler.Gives holds) {weaker : A → Prop}
    (weaken : ∀ value, holds value → weaker value) : handler.Gives weaker :=
  Program.Always.mono gives fun _ step value same => weaken value (step value same)

theorem any (handler : Handler A) : handler.Gives fun _ => True :=
  Program.Always.all (fun _ _ _ => trivial) handler

theorem bind (first : handler.Gives fun value => (next value).Gives final) :
    (handler >>= next).Gives final := by
  refine Program.Always.bind (Program.Always.mono first ?_)
  intro result step
  cases result with
  | error error => exact Gives.refuse error
  | ok value => exact step value rfl

theorem pureStep (result : Except ApiError A) :
    (Handler.pureStep result).Gives fun value => result = .ok value :=
  fun _ same => same

end Handler.Gives

section Awaits

def localIo : Handler Unit := .call .localIo Handler.internally

def fetch (digest : Digest) : Handler (Option Blob) := .call (.get digest) Handler.internally

def store (digest : Digest) (bytes : Bytes) : Handler PutOutcome :=
  .call (.put digest bytes) Handler.internally

def visibleBlobs (ns : String) (digests : List Digest) : Handler (List Digest) :=
  .call (.visibleBlobs ns digests) Handler.internally

/-- `blob_visible` asks for a list of one. -/
def isVisible (ns : String) (digest : Digest) : Handler Bool := do
  let found ← visibleBlobs ns [digest]
  return !found.isEmpty

def register (ns : String) (digest : Digest) (stored : PutOutcome) : Handler Unit :=
  .call (.registerBlob ns digest stored) Handler.internally

/-- `forget_missing_blob` goes on whether or not the row could be dropped. -/
def forgetMissingBlob (ns : String) (digest : Digest) : Handler Unit :=
  .call (.forgetBlob ns digest) fun _ => .done (.ok ())

def getResult (ns : String) (action : Digest) : Handler (Option ActionResult) :=
  .call (.getResult ns action) Handler.internally

def getBatch (ns : String) (actions : List Digest) : Handler (List ActionResult) :=
  .call (.getBatch ns actions) Handler.internally

/-- `commit`, which may take a second statement. -/
def commit (ns : String) (action : Digest) (result : ActionResult) : Handler CommitOutcome := do
  let step : CommitStep ← (.call (.commit ns action result) Handler.internally)
  match step with
  | .answered outcome => return outcome
  | .pending => .call (.resolve ns action result) Handler.internally

def getManifest (ns : String) (key : Digest) : Handler (Option ManifestRecord) :=
  .call (.getManifest ns key) Handler.internally

def commitManifest (ns : String) (key : Digest) (expected : Option String)
    (record : ManifestRecord) : Handler ManifestCommitOutcome :=
  .call (.commitManifest ns key expected record) Handler.internally

def acquire (permits : Nat) : Handler Unit :=
  .call (.acquire permits) fun granted : Except Failure Bool =>
    match granted with
    | .ok true => .done (.ok ())
    | .ok false => .done (.error (.unavailable "upload spool is full, retry later"))
    | .error failure => .done (.error (.internal failure))

/-- `SpoolBudget::reserve`: permits are counted in KiB and must fit 32 bits. -/
def reserve (config : ServerConfig) (bytes : UInt64) : Handler Unit :=
  let permits := (bytes.toNat + 1023) / 1024
  if !config.spoolBudget then pure ()
  else if 2 ^ 32 ≤ permits then .refuse (.tooLarge "blob exceeds the upload spool")
  else acquire permits

end Awaits

def validateDigest (digest : Digest) : Except ApiError Unit :=
  if digest.validate then .ok () else .error (.badRequest "invalid digest")

def parseDigest (parts : String × String × UInt64) : Except ApiError Digest := do
  let digest : Digest := ⟨parts.1, parts.2.1, parts.2.2⟩
  validateDigest digest
  return digest

def validateActionDigest (digest : Digest) : Except ApiError Digest := do
  validateDigest digest
  if digest.algorithm ≠ "blake3" then .error (.badRequest "action result keys must use blake3")
  else .ok digest

def parseActionDigest (parts : String × String × UInt64) : Except ApiError Digest := do
  let digest ← parseDigest parts
  if digest.algorithm ≠ "blake3" then .error (.badRequest "action result keys must use blake3")
  else .ok digest

def requireImmutablePrecondition (headers : Headers) : Except ApiError Unit :=
  if headers.ifNoneMatch = some "*" then .ok ()
  else .error (.precondition "If-None-Match: * is required")

/-- An unsigned 64-bit number as Rust reads one: digits, after at most one `+`. -/
def parseU64 (text : String) : Option UInt64 :=
  let digits := match text.toList with
    | '+' :: rest => rest
    | all => all
  if digits = [] || !digits.all Char.isDigit then none
  else
    let value := digits.foldl (fun total c => 10 * total + (c.toNat - 48)) 0
    if value < 2 ^ 64 then some (UInt64.ofNat value) else none

def requiredU64Header (value : Option String) (name : String) : Except ApiError UInt64 :=
  match value.bind parseU64 with
  | some number => .ok number
  | none => .error (.badRequest s!"{name} must be an unsigned integer")

def quotedEtag (etag : String) : String := "\"" ++ etag ++ "\""

def unquote (value : List Char) : Option (List Char) :=
  match value with
  | '"' :: rest => if rest.getLast? = some '"' then some rest.dropLast else none
  | _ => none

/-- The precondition of a manifest write: `none` creates, an etag updates. -/
def manifestPrecondition (headers : Headers) : Except ApiError (Option String) :=
  if headers.ifNoneMatch = some "*" then .ok none
  else
    match headers.ifMatch with
    | none => .error (.preconditionRequired "If-None-Match: * or If-Match is required")
    | some value =>
        match (unquote value.toList).filter fun etag =>
            etag.length = 64 && etag.all Hex.isLower with
        | some etag => .ok (some (String.ofList etag))
        | none => .error (.badRequest "If-Match must contain one strong BLAKE3 ETag")

theorem parseActionDigest_parsed {parts : String × String × UInt64} {digest : Digest}
    (parsed : parseActionDigest parts = .ok digest) :
    parseDigest parts = .ok digest ∧ digest.algorithm = "blake3" := by
  simp only [parseActionDigest, bind, Except.bind] at parsed
  split at parsed
  · cases parsed
  · rename_i found _ inner
    split at parsed
    · cases parsed
    · rename_i algorithm
      cases parsed
      exact ⟨inner, not_not.mp algorithm⟩

def IsActionDigest (digest : Digest) : Prop := digest.validate = true ∧ digest.algorithm = "blake3"

theorem validateActionDigest_ok {digest : Digest} (key : IsActionDigest digest) :
    validateActionDigest digest = .ok digest := by
  simp [validateActionDigest, validateDigest, key.1, key.2, bind, Except.bind]

theorem parseActionDigest_ok {digest : Digest} (key : IsActionDigest digest) :
    parseActionDigest (digest.algorithm, digest.hash, digest.size) = .ok digest := by
  obtain ⟨valid, algorithm⟩ := key
  obtain ⟨kind, hash, size⟩ := digest
  cases algorithm
  simp [parseActionDigest, parseDigest, validateDigest, valid, bind, Except.bind, pure,
    Except.pure]

theorem parseDigest_valid {parts : String × String × UInt64} {digest : Digest}
    (parsed : parseDigest parts = .ok digest) :
    digest = ⟨parts.1, parts.2.1, parts.2.2⟩ ∧ digest.validate = true := by
  simp only [parseDigest, validateDigest, bind, Except.bind] at parsed
  split at parsed
  · cases parsed
  · rename_i checked
    cases parsed
    split at checked
    · rename_i valid
      exact ⟨rfl, valid⟩
    · cases checked

theorem parseActionDigest_valid {parts : String × String × UInt64} {digest : Digest}
    (parsed : parseActionDigest parts = .ok digest) : IsActionDigest digest :=
  ⟨(parseDigest_valid (parseActionDigest_parsed parsed).1).2, (parseActionDigest_parsed parsed).2⟩

theorem parseU64_toString {number : Nat} (small : number < 2 ^ 64) :
    parseU64 (toString number) = some (UInt64.ofNat number) := by
  have digits : ∀ c ∈ Nat.toDigits 10 number, c.isDigit = true := fun c member =>
    Nat.isDigit_of_mem_toDigits (by decide) (by decide) member
  have value : (Nat.toDigits 10 number).foldl (fun total c => 10 * total + (c.toNat - 48)) 0 =
      number := Nat.ofDigitChars_eq_foldl.symm.trans Nat.ofDigitChars_ten_toDigits
  unfold parseU64
  rw [Nat.toString_eq_repr, Nat.toList_repr]
  have unsigned : (match Nat.toDigits 10 number with
      | '+' :: rest => rest
      | all => all) = Nat.toDigits 10 number := by
    split
    · rename_i rest same
      have plus := digits '+' (by rw [same]; exact List.mem_cons_self)
      cases plus
    · rfl
  simp only [unsigned, value, small, if_true]
  rw [if_neg]
  simp only [Bool.or_eq_true, decide_eq_true_eq, not_or, Bool.not_eq_true', Bool.not_eq_false,
    List.all_eq_true]
  exact ⟨Nat.toDigits_ne_nil, digits⟩

theorem unquote_quotedEtag (etag : String) :
    unquote (quotedEtag etag).toList = some etag.toList := by
  simp [quotedEtag, unquote]

end MbxCache
