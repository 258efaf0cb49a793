import MbxCache.Metadata.Memory
import MbxCache.Server.Manifests
import MbxCache.Server.Sharing
import MbxCache.Specimen

/-! Clients that share action manifests by reading, merging and writing them back: the
loop the documentation asks for, over the handlers that serve it. -/

namespace MbxCache

open Concurrent

variable [Protocol] {M : Type} [MetadataStore M]

abbrev PathParts := String × String × UInt64

def pathDigest (parts : PathParts) : Digest := ⟨parts.1, parts.2.1, parts.2.2⟩

/-- What a client last read of a manifest: the entity tag as it was served, and the
manifest, or that there is none. -/
structure ManifestRead where
  parts : PathParts
  found : Option (String × TaskActionManifest)

namespace ManifestRead

def predictions (read : ManifestRead) : List ActionPrediction :=
  match read.found with
  | some (_, manifest) => manifest.predictions
  | none => []

def headers (read : ManifestRead) (ns : Namespace) : Headers where
  authorize _ := .ok ns.1
  named := granted_named ns
  ifNoneMatch := if read.found.isNone then some "*" else none
  ifMatch := read.found.map Prod.fst
  packBlobs := none
  packBytes := none

/-- What a client makes of the answer to its read. Anything but a manifest or its
absence makes it start again. -/
def ofResponse (parts : PathParts) : Except ApiError Response → Option ManifestRead
  | .ok ⟨_, headers, .stream stream⟩ =>
      match headers.lookup "etag", stream.read with
      | some etag, .ok bytes =>
          match Protocol.parseManifest bytes with
          | .ok manifest => some ⟨parts, some (etag, manifest)⟩
          | .error _ => none
      | _, _ => none
  | .ok _ => none
  | .error error => if error.status = .notFound then some ⟨parts, none⟩ else none

end ManifestRead

structure AcceptedWrite where
  writer : Nat
  key : Digest
  status : StatusCode
  read : Option TaskActionManifest
  replaced : Option TaskActionManifest
  manifest : TaskActionManifest

structure ManifestLoop (M : Type) where
  server : ServerState M
  reads : Nat → Option ManifestRead
  accepted : List AcceptedWrite

inductive ManifestStep
  | get (client : Nat) (parts : PathParts) (choice : Choice)
  | put (client : Nat) (body : Body) (choice : Choice)

namespace ManifestLoop

def initial (M : Type) [MetadataStore M] : ManifestLoop M :=
  ⟨.initial M, fun _ => none, []⟩

def stored (loop : ManifestLoop M) (ns : Namespace) (key : Digest) : Option ManifestRecord :=
  loop.server.view.manifest ns.1 key

def setRead (loop : ManifestLoop M) (client : Nat) (read : Option ManifestRead) :
    Nat → Option ManifestRead :=
  fun other => if other = client then read else loop.reads other

def runGet (ns : Namespace) (parts : PathParts) (choice : Choice) (state : ServerState M) :
    ServerState M × Option (Except ApiError Response) :=
  Program.runAlone (exec choice)
    (getActionManifest ⟨fun _ => .ok ns.1, granted_named ns, none, none, none, none⟩ parts) state

def runPut (ns : Namespace) (read : ManifestRead) (body : Body) (choice : Choice)
    (state : ServerState M) : ServerState M × Option (Except ApiError Response) :=
  Program.runAlone (exec choice) (putActionManifest (read.headers ns) read.parts body) state

def record (loop : ManifestLoop M) (ns : Namespace) (client : Nat) (read : ManifestRead)
    (manifest : TaskActionManifest) : Option (Except ApiError Response) → List AcceptedWrite
  | some (.ok response) =>
      [{ writer := client
         key := pathDigest read.parts
         status := response.status
         read := read.found.map Prod.snd
         replaced := (loop.stored ns (pathDigest read.parts)).map ManifestRecord.manifest
         manifest := manifest }]
  | _ => []

/-- A client writes only after a read, and only a manifest that has all predictions it
read. After its write it starts again, whatever the answer. -/
def step (ns : Namespace) (loop : ManifestLoop M) : ManifestStep → ManifestLoop M
  | .get client parts choice =>
      let (server, answer) := runGet ns parts choice loop.server
      { loop with
        server := server
        reads := loop.setRead client (answer.bind (ManifestRead.ofResponse parts)) }
  | .put client body choice =>
      match loop.reads client, Protocol.parseManifest body.chunks.flatten with
      | some read, .ok manifest =>
          if read.predictions ⊆ manifest.predictions then
            let (server, answer) := runPut ns read body choice loop.server
            { server := server
              reads := loop.setRead client none
              accepted := loop.accepted ++ loop.record ns client read manifest answer }
          else loop
      | _, _ => loop

def run (ns : Namespace) (loop : ManifestLoop M) (steps : List ManifestStep) : ManifestLoop M :=
  steps.foldl (step ns) loop

end ManifestLoop

def Written (steps : List ManifestStep) (bytes : Bytes) : Prop :=
  ∃ client body choice manifest, ManifestStep.put client body choice ∈ steps ∧
    Protocol.parseManifest body.chunks.flatten = .ok manifest ∧
    Protocol.canonicalManifest manifest = .ok bytes

section Handlers

omit [Protocol] in
theorem parseActionDigest_path {parts : PathParts} {digest : Digest}
    (parsed : parseActionDigest parts = .ok digest) : digest = pathDigest parts := by
  have inner := (parseActionDigest_parsed parsed).1
  simp only [parseDigest, bind, Except.bind] at inner
  split at inner
  · cases inner
  · cases inner
    rfl

def serveManifest (found : Option ManifestRecord) : Except ApiError Response := do
  let record ← manifestFound found
  let body ← canonicalBytes record.manifest
  return ⟨.ok, [("content-type", Protocol.manifestMediaType), ("etag", quotedEtag record.etag)],
    .stream ⟨[body], false⟩⟩

def served : Except Failure (Option ManifestRecord) → Program Api (Except ApiError Response)
  | .error failure => .done (.error (.internal failure))
  | .ok found => .done (serveManifest found)

theorem getActionManifest_asks {headers : Headers} {parts : PathParts} {ns : String}
    {key : Digest} (authorized : headers.authorize .read = .ok ns)
    (parsed : parseActionDigest parts = .ok key) :
    getActionManifest headers parts = .call (.getManifest ns key) served := by
  unfold getActionManifest
  simp only [authorized, parsed, Handler.pureStep_ok]
  apply congrArg (Program.call _)
  funext found
  rcases found with failure | _ | record
  · rfl
  · rfl
  · change (Handler.pureStep (canonicalBytes record.manifest) >>= _ : Handler Response) =
      Program.done (serveManifest (some record))
    simp only [serveManifest, manifestFound, bind, Except.bind]
    cases canonicalBytes record.manifest <;> rfl

def writeAnswer (etag : String) (outcome : ManifestCommitOutcome) : Except ApiError Response := do
  let status ← manifestStatus outcome
  return ⟨status, [("etag", quotedEtag etag)], .empty⟩

def written (etag : String) : Except Failure ManifestCommitOutcome →
    Program Api (Except ApiError Response)
  | .error failure => .done (.error (.internal failure))
  | .ok outcome => .done (writeAnswer etag outcome)

omit [Protocol] in
theorem wholeBody_content {body : Body} {limit : Nat} {bytes : Bytes}
    (whole : wholeBody body limit = .ok bytes) : bytes = body.chunks.flatten := by
  unfold wholeBody at whole
  split at whole
  · cases whole
  · cases whole
    rfl

/-- A write that asks the store asks it once, about the manifest of its body under the
canonical bytes of which it computes the entity tag. -/
theorem putActionManifest_asks (headers : Headers) (parts : PathParts) {body : Body}
    {ns : String} {manifest : TaskActionManifest} (authorized : headers.authorize .write = .ok ns)
    (parsed : Protocol.parseManifest body.chunks.flatten = .ok manifest) :
    (∃ error, putActionManifest headers parts body = Handler.refuse error) ∨
      ∃ expected bytes, IsActionDigest (pathDigest parts) ∧
        manifestPrecondition headers = .ok expected ∧
        Protocol.canonicalManifest manifest = .ok bytes ∧
        putActionManifest headers parts body =
          .call (.commitManifest ns (pathDigest parts) expected
            ⟨contentHash .blake3 bytes, manifest⟩) (written (contentHash .blake3 bytes)) := by
  unfold putActionManifest
  simp only [authorized, Handler.pureStep_ok]
  cases whole : wholeBody body maxActionManifestBytes with
  | error error => exact .inl ⟨error, rfl⟩
  | ok bytes =>
      have decoded : parseManifest bytes = .ok manifest := by
        rw [wholeBody_content whole, parseManifest, parsed]
      simp only [decoded, Handler.pureStep_ok]
      cases keyed : parseActionDigest parts with
      | error error => exact .inl ⟨error, rfl⟩
      | ok key =>
          have named := parseActionDigest_path keyed ▸ parseActionDigest_valid keyed
          simp only [Handler.pureStep_ok, parseActionDigest_path keyed]
          cases checkManifest manifest (pathDigest parts) with
          | error error => exact .inl ⟨error, rfl⟩
          | ok _ =>
              simp only [Handler.pureStep_ok]
              cases manifestPrecondition headers with
              | error error => exact .inl ⟨error, rfl⟩
              | ok expected =>
                  cases canonical : Protocol.canonicalManifest manifest with
                  | error failure =>
                      simp only [Handler.pureStep_ok, canonicalBytes, canonical, Except.mapError]
                      exact .inl ⟨.internal failure, rfl⟩
                  | ok canonicalized =>
                      refine .inr ⟨expected, canonicalized, named, rfl, rfl, ?_⟩
                      simp only [Handler.pureStep_ok, canonicalBytes, canonical, Except.mapError]
                      apply congrArg (Program.call _)
                      funext decided
                      rcases decided with failure | _ | _ | _ <;> rfl

omit [Protocol] in
/-- The etag in an `If-Match` that repeats an `ETag` is the one that was served. -/
theorem manifestPrecondition_read {read : ManifestRead} {ns : Namespace} {expected : Option String}
    (guarded : manifestPrecondition (read.headers ns) = .ok expected) :
    match read.found with
    | none => expected = none
    | some (tag, _) => ∃ etag, expected = some etag ∧
        ∀ served, tag = quotedEtag served → etag = served := by
  unfold manifestPrecondition ManifestRead.headers at guarded
  cases found : read.found with
  | none =>
      simp only [found] at guarded
      cases guarded
      rfl
  | some pair =>
      obtain ⟨tag, manifest⟩ := pair
      simp only [found, Option.isNone_some, Bool.false_eq_true, if_false, reduceCtorEq,
        Option.map_some] at guarded
      split at guarded
      · rename_i etag accepted
        cases guarded
        refine ⟨String.ofList etag, rfl, fun served same => ?_⟩
        rw [same, unquote_quotedEtag] at accepted
        rw [← (Option.filter_eq_some_iff.mp accepted).1 |> Option.some.inj, String.ofList_toList]
      · cases guarded

end Handlers

section Answers

variable {state : ServerState M} {ns : Namespace}

/-- How a read can be answered. Only a failing store keeps a stored manifest from it. -/
inductive ReadOutcome (state : ServerState M) (ns : Namespace) (parts : PathParts)
    (choice : Choice) : Option (Except ApiError Response) → Prop
  | malformed (error : ApiError) (refused : parseActionDigest parts = .error error) :
      ReadOutcome state ns parts choice (some (.error error))
  | failed (failure : Failure) (faulted : choice.fault ≠ .none) :
      ReadOutcome state ns parts choice (some (.error (.internal failure)))
  | answered (serves : parseActionDigest parts = .ok (pathDigest parts)) :
      ReadOutcome state ns parts choice
        (some (serveManifest (state.view.manifest ns.1 (pathDigest parts))))

theorem runGet_outcome (ns : Namespace) (valid : MetadataStore.valid state.metadata)
    (parts : PathParts) (choice : Choice) :
    (ManifestLoop.runGet ns parts choice state).1 = state ∧
      ReadOutcome state ns parts choice (ManifestLoop.runGet ns parts choice state).2 := by
  unfold ManifestLoop.runGet
  cases parsed : parseActionDigest parts with
  | error error =>
      simp only [getActionManifest, parsed, Handler.pureStep_ok, Handler.pureStep_error]
      exact ⟨rfl, .malformed error parsed⟩
  | ok key =>
      have named : MetadataStore.names M ns.1 (pathDigest parts) = true :=
        parseActionDigest_path parsed ▸
          MetadataStore.names_valid ns.2 (parseActionDigest_valid parsed).1
      have performed : perform choice state (.getManifest ns.1 (pathDigest parts)) =
          .ok (state, state.view.manifest ns.1 (pathDigest parts)) := by
        simp only [perform, MetadataStore.getManifest_view valid named]
        rfl
      rw [getActionManifest_asks rfl parsed, parseActionDigest_path parsed]
      change ((served (exec choice (.getManifest ns.1 (pathDigest parts)) state).2).runAlone
          (exec choice) (exec choice (.getManifest ns.1 (pathDigest parts)) state).1).1 = _ ∧
        ReadOutcome _ _ _ _ ((served _).runAlone _ _).2
      unfold exec attempt
      rw [performed]
      cases faulted : choice.fault with
      | none => exact ⟨rfl, .answered (parseActionDigest_path parsed ▸ parsed)⟩
      | before failure => exact ⟨rfl, .failed failure (by simp [faulted])⟩
      | after failure => exact ⟨rfl, .failed failure (by simp [faulted])⟩

theorem ReadOutcome.known {parts : PathParts} {choice : Choice}
    {answer : Option (Except ApiError Response)} (outcome : ReadOutcome state ns parts choice answer)
    {found : ManifestRead} {tag : String} {manifest : TaskActionManifest}
    (reading : answer.bind (ManifestRead.ofResponse parts) = some found)
    (present : found.found = some (tag, manifest)) :
    ∃ record, state.view.manifest ns.1 (pathDigest parts) = some record ∧
      tag = quotedEtag record.etag ∧ manifest = record.manifest := by
  have refused : ∀ error : ApiError,
      ManifestRead.ofResponse parts (.error error) = some found → False := by
    intro error reading
    simp only [ManifestRead.ofResponse] at reading
    split at reading
    · cases reading
      cases present
    · cases reading
  cases outcome with
  | malformed error bad => exact (refused error reading).elim
  | failed failure faulted => exact (refused _ reading).elim
  | answered serves =>
      cases held : state.view.manifest ns.1 (pathDigest parts) with
      | none =>
          rw [held] at reading
          exact (refused (.notFound "action manifest not found") reading).elim
      | some record =>
          rw [held] at reading
          simp only [serveManifest, manifestFound, canonicalBytes, bind, Except.bind] at reading
          cases canonical : Protocol.canonicalManifest record.manifest with
          | error failure =>
              rw [canonical] at reading
              exact (refused _ reading).elim
          | ok bytes =>
              have lookup : List.lookup "etag" [("content-type", Protocol.manifestMediaType),
                  ("etag", quotedEtag record.etag)] = some (quotedEtag record.etag) := by
                simp [List.lookup_cons]
              simp only [canonical, Except.mapError, Option.bind_some, pure, Except.pure,
                ManifestRead.ofResponse, lookup, ByteStream.read, Bool.false_eq_true, if_false,
                List.flatten_cons, List.flatten_nil, List.append_nil,
                Protocol.parseManifest_canonical canonical, Option.some.injEq] at reading
              subst reading
              cases present
              exact ⟨record, rfl, rfl, rfl⟩

/-- How a write can go: it leaves the manifests alone and is refused, or it meets its
precondition, replaces what is stored, and is accepted unless its answer is lost. -/
inductive WriteOutcome (state : ServerState M) (ns : Namespace) (read : ManifestRead)
    (manifest : TaskActionManifest) :
    ServerState M × Option (Except ApiError Response) → Prop
  | refused (after : ServerState M) (error : ApiError)
      (valid : MetadataStore.valid after.metadata)
      (same : after.view.manifest = state.view.manifest) :
      WriteOutcome state ns read manifest (after, some (.error error))
  | stored (after : ServerState M) (expected : Option String) (bytes : Bytes)
      (answer : Except ApiError Response) (valid : MetadataStore.valid after.metadata)
      (keyed : IsActionDigest (pathDigest read.parts))
      (guarded : manifestPrecondition (read.headers ns) = .ok expected)
      (canonical : Protocol.canonicalManifest manifest = .ok bytes)
      (matched : View.matchesEtag (state.view.manifest ns.1 (pathDigest read.parts)) expected = true)
      (view : after.view.manifest = (state.view.setManifest ns.1 (pathDigest read.parts)
        ⟨contentHash .blake3 bytes, manifest⟩).manifest)
      (status : ∀ response, answer = .ok response →
        (response.status = .created ↔ state.view.manifest ns.1 (pathDigest read.parts) = none)) :
      WriteOutcome state ns read manifest (after, some answer)

theorem written_outcome {read : ManifestRead} {manifest : TaskActionManifest} {choice : Choice}
    {expected : Option String} {bytes : Bytes} (valid : MetadataStore.valid state.metadata)
    (keyed : IsActionDigest (pathDigest read.parts))
    (guarded : manifestPrecondition (read.headers ns) = .ok expected)
    (canonical : Protocol.canonicalManifest manifest = .ok bytes)
    {executed : ServerState M × Except Failure ManifestCommitOutcome}
    (execution : Executed state (state.write (MetadataStore.commitManifest state.metadata
      choice.now ns.1 (pathDigest read.parts) expected ⟨contentHash .blake3 bytes, manifest⟩))
      executed) :
    WriteOutcome state ns read manifest
      ((written (contentHash .blake3 bytes) executed.2).runAlone (exec choice) executed.1) := by
  have effect : ∀ {after outcome}, state.write (MetadataStore.commitManifest state.metadata
      choice.now ns.1 (pathDigest read.parts) expected ⟨contentHash .blake3 bytes, manifest⟩) =
        .ok (after, outcome) →
      MetadataStore.valid after.metadata ∧ (after.view, outcome) =
        state.view.commitManifest ns.1 (pathDigest read.parts) expected
          ⟨contentHash .blake3 bytes, manifest⟩ := by
    intro after outcome performed
    obtain ⟨metadata, committed, rfl⟩ := write_ok performed
    cases fits : MetadataStore.representsManifest M ns.1 (pathDigest read.parts) expected
        ⟨contentHash .blake3 bytes, manifest⟩ with
    | false =>
        rw [MetadataStore.commitManifest_refused _ _ _ _ _ _ fits] at committed
        cases committed
    | true =>
        obtain ⟨next, decided, still, seen⟩ := MetadataStore.commitManifest_view choice.now ns.1
          (pathDigest read.parts) expected _ valid fits
        rw [decided] at committed
        cases committed
        exact ⟨still, Prod.ext seen rfl⟩
  cases execution with
  | skipped failure => exact .refused state _ valid rfl
  | lost after outcome failure performed =>
      obtain ⟨still, decided⟩ := effect performed
      unfold View.commitManifest at decided
      split at decided
      · rename_i matched
        exact .stored after expected bytes _ still keyed guarded canonical matched
          (by rw [(Prod.mk.inj decided).1]) fun _ wrong => by cases wrong
      · exact .refused after _ still (by rw [(Prod.mk.inj decided).1])
  | answered after outcome performed =>
      obtain ⟨still, decided⟩ := effect performed
      unfold View.commitManifest at decided
      split at decided
      · rename_i matched
        obtain ⟨seen, rfl⟩ := Prod.mk.inj decided
        refine .stored after expected bytes _ still keyed guarded canonical matched (by rw [seen]) ?_
        intro response same
        cases held : state.view.manifest ns.1 (pathDigest read.parts) <;>
          simp only [held, Option.isSome_none, Option.isSome_some, if_true, Bool.false_eq_true,
            if_false] at same <;>
          cases same <;> simp
      · obtain ⟨seen, rfl⟩ := Prod.mk.inj decided
        exact .refused after _ still (by rw [seen])

theorem runPut_outcome (ns : Namespace) (valid : MetadataStore.valid state.metadata)
    (read : ManifestRead) (body : Body) (choice : Choice) {manifest : TaskActionManifest}
    (parsed : Protocol.parseManifest body.chunks.flatten = .ok manifest) :
    WriteOutcome state ns read manifest (ManifestLoop.runPut ns read body choice state) := by
  unfold ManifestLoop.runPut
  rcases putActionManifest_asks (read.headers ns) read.parts rfl parsed with
    ⟨error, refused⟩ | ⟨expected, bytes, keyed, guarded, canonical, asks⟩
  · rw [refused]
    exact .refused state error valid rfl
  · rw [asks]
    exact written_outcome valid keyed guarded canonical
      (exec_executed choice (.commitManifest ns.1 _ expected _) state)

end Answers

/-- BLAKE3 tells the byte strings of a set apart. -/
def HashesApart (occurs : Bytes → Prop) : Prop :=
  ∀ first second, occurs first → occurs second →
    Protocol.blake3.hash first = Protocol.blake3.hash second → first = second

def Tagged (occurs : Bytes → Prop) (etag : String) (manifest : TaskActionManifest) : Prop :=
  ∃ bytes, occurs bytes ∧ Protocol.canonicalManifest manifest = .ok bytes ∧
    etag = contentHash .blake3 bytes

/-- Where hashes are apart, a manifest has no other manifest's entity tag. -/
theorem Tagged.same {occurs : Bytes → Prop} {etag : String} {first second : TaskActionManifest}
    (apart : HashesApart occurs) (one : Tagged occurs etag first)
    (other : Tagged occurs etag second) : first = second := by
  obtain ⟨bytes, occurred, canonical, tag⟩ := one
  obtain ⟨bytes', occurred', canonical', tag'⟩ := other
  have hashes := Hex.encode_injective (tag.symm.trans tag')
  have same := apart bytes bytes' occurred occurred' hashes
  subst same
  exact canonicalManifest_injective canonical canonical'

/-- What holds between the clients and the stored manifests in every state reached. -/
structure Consistent (occurs : Bytes → Prop) (ns : Namespace) (loop : ManifestLoop M) : Prop where
  valid : MetadataStore.valid loop.server.metadata
  tagged : ∀ key record, loop.stored ns key = some record →
    Tagged occurs record.etag record.manifest
  reads : ∀ client read tag manifest, loop.reads client = some read →
    read.found = some (tag, manifest) →
    ∃ etag, tag = quotedEtag etag ∧ Tagged occurs etag manifest
  keyed : ∀ entry ∈ loop.accepted, IsActionDigest entry.key
  kept : ∀ entry ∈ loop.accepted, ∃ record, loop.stored ns entry.key = some record ∧
    entry.manifest.predictions ⊆ record.manifest.predictions
  replaced : ∀ entry ∈ loop.accepted, entry.replaced = entry.read
  created : loop.accepted.Pairwise fun earlier later =>
    earlier.key = later.key → later.status ≠ .created

namespace Consistent

variable {occurs : Bytes → Prop} {ns : Namespace} {loop : ManifestLoop M}

theorem initial : Consistent occurs ns (ManifestLoop.initial M) where
  valid := MetadataStore.empty_valid
  tagged key record present := by
    simp [ManifestLoop.stored, ManifestLoop.initial, ServerState.initial, ServerState.view,
      freshStore, MetadataStore.empty_view, View.empty] at present
  reads _ _ _ _ present := by cases present
  keyed _ member := by cases member
  kept _ member := by cases member
  replaced _ member := by cases member
  created := .nil

theorem setRead (consistent : Consistent occurs ns loop) (client : Nat)
    (read : Option ManifestRead)
    (known : ∀ found tag manifest, read = some found → found.found = some (tag, manifest) →
      ∃ etag, tag = quotedEtag etag ∧ Tagged occurs etag manifest) :
    ∀ other found tag manifest, loop.setRead client read other = some found →
      found.found = some (tag, manifest) → ∃ etag, tag = quotedEtag etag ∧
        Tagged occurs etag manifest := by
  intro other found tag manifest present
  simp only [ManifestLoop.setRead] at present
  split at present
  · exact known found tag manifest present
  · exact consistent.reads other found tag manifest present

theorem replaces (consistent : Consistent occurs ns loop) (apart : HashesApart occurs)
    {client : Nat} {read : ManifestRead} {key : Digest} {expected : Option String}
    (reading : loop.reads client = some read)
    (guarded : manifestPrecondition (read.headers ns) = .ok expected)
    (matched : View.matchesEtag (loop.stored ns key) expected = true) :
    (loop.stored ns key).map ManifestRecord.manifest = read.found.map Prod.snd := by
  have precondition := manifestPrecondition_read guarded
  cases found : read.found with
  | none =>
      rw [found] at precondition
      subst precondition
      cases held : loop.stored ns key with
      | none => rfl
      | some record =>
          rw [held] at matched
          cases matched
  | some pair =>
      obtain ⟨tag, manifest⟩ := pair
      rw [found] at precondition
      obtain ⟨etag, rfl, asServed⟩ := precondition
      obtain ⟨served, quoted, known⟩ := consistent.reads client read tag manifest reading found
      cases held : loop.stored ns key with
      | none =>
          rw [held] at matched
          cases matched
      | some record =>
          rw [held] at matched
          have tag : record.etag = etag := beq_iff_eq.mp matched
          rw [asServed served quoted] at tag
          have mine := consistent.tagged key record held
          rw [tag] at mine
          rw [Option.map_some, Option.map_some, mine.same apart known]

/-- A merged write keeps the predictions of all accepted before it. -/
theorem merges (consistent : Consistent occurs ns loop) {read : ManifestRead}
    {manifest : TaskActionManifest}
    (replaced : (loop.stored ns (pathDigest read.parts)).map ManifestRecord.manifest =
      read.found.map Prod.snd)
    (merged : read.predictions ⊆ manifest.predictions) {entry : AcceptedWrite}
    (member : entry ∈ loop.accepted) (same : entry.key = pathDigest read.parts) :
    entry.manifest.predictions ⊆ manifest.predictions := by
  obtain ⟨record, held, included⟩ := consistent.kept entry member
  rw [same] at held
  rw [held] at replaced
  cases found : read.found with
  | none =>
      rw [found] at replaced
      cases replaced
  | some pair =>
      rw [found] at replaced
      have equal : record.manifest = pair.2 := Option.some.inj replaced
      have all : read.predictions = record.manifest.predictions := by
        rw [ManifestRead.predictions, found, equal]
      exact List.Subset.trans included (all ▸ merged)

theorem get (consistent : Consistent occurs ns loop) (client : Nat) (parts : PathParts)
    (choice : Choice) : Consistent occurs ns (loop.step ns (.get client parts choice)) := by
  obtain ⟨same, answered⟩ := runGet_outcome ns consistent.valid parts choice
  simp only [ManifestLoop.step]
  rw [same]
  refine ⟨consistent.valid, consistent.tagged, ?_, consistent.keyed, consistent.kept,
    consistent.replaced, consistent.created⟩
  apply consistent.setRead client _
  intro found tag manifest reading present
  obtain ⟨record, held, rfl, rfl⟩ := answered.known reading present
  exact ⟨record.etag, rfl, consistent.tagged _ record held⟩

theorem put (consistent : Consistent occurs ns loop) (apart : HashesApart occurs) (client : Nat)
    (body : Body) (choice : Choice)
    (occurring : ∀ manifest bytes, Protocol.parseManifest body.chunks.flatten = .ok manifest →
      Protocol.canonicalManifest manifest = .ok bytes → occurs bytes) :
    Consistent occurs ns (loop.step ns (.put client body choice)) := by
  simp only [ManifestLoop.step]
  split
  · rename_i read manifest reading parsed
    split
    · rename_i merged
      have outcome := runPut_outcome ns consistent.valid read body choice parsed
      have nothing := consistent.setRead client none nofun
      generalize ManifestLoop.runPut ns read body choice loop.server = result at outcome
      cases outcome with
      | refused after error valid same =>
          have stored : ∀ key, after.view.manifest ns.1 key = loop.stored ns key := by
            intro key
            rw [same]
            rfl
          refine ⟨valid, ?_, nothing, ?_, ?_, ?_, ?_⟩
          · intro key record present
            exact consistent.tagged key record ((stored key).symm.trans present)
          · simp only [ManifestLoop.record, List.append_nil]
            exact consistent.keyed
          · intro entry member
            simp only [ManifestLoop.record, List.append_nil] at member
            obtain ⟨record, held, included⟩ := consistent.kept entry member
            exact ⟨record, (stored entry.key).trans held, included⟩
          · simp only [ManifestLoop.record, List.append_nil]
            exact consistent.replaced
          · simp only [ManifestLoop.record, List.append_nil]
            exact consistent.created
      | stored after expected bytes answer valid keyed guarded canonical matched seen status =>
          have replaced := consistent.replaces apart reading guarded matched
          have own : after.view.manifest ns.1 (pathDigest read.parts) =
              some ⟨contentHash .blake3 bytes, manifest⟩ := by
            rw [seen]
            exact View.assign_same _ _ _ _
          have others : ∀ key, key ≠ pathDigest read.parts →
              after.view.manifest ns.1 key = loop.stored ns key := by
            intro key different
            rw [seen]
            exact View.assign_other _ _ fun same => different same.2
          refine ⟨valid, ?_, nothing, ?_, ?_, ?_, ?_⟩
          · intro key record present
            by_cases here : key = pathDigest read.parts
            · rw [here] at present
              cases own.symm.trans present
              exact ⟨bytes, occurring manifest bytes parsed canonical, canonical, rfl⟩
            · exact consistent.tagged key record ((others key here).symm.trans present)
          · intro entry member
            rcases List.mem_append.mp member with old | new
            · exact consistent.keyed entry old
            · cases answer with
              | error error => cases new
              | ok response =>
                  cases List.mem_singleton.mp new
                  exact keyed
          · intro entry member
            rcases List.mem_append.mp member with old | new
            · by_cases here : entry.key = pathDigest read.parts
              · rw [here]
                exact ⟨_, own, consistent.merges replaced merged old here⟩
              · obtain ⟨record, held, included⟩ := consistent.kept entry old
                exact ⟨record, (others entry.key here).trans held, included⟩
            · cases answer with
              | error error => cases new
              | ok response =>
                  cases List.mem_singleton.mp new
                  exact ⟨_, own, List.Subset.refl _⟩
          · intro entry member
            rcases List.mem_append.mp member with old | new
            · exact consistent.replaced entry old
            · cases answer with
              | error error => cases new
              | ok response =>
                  cases List.mem_singleton.mp new
                  exact replaced
          · refine List.pairwise_append.mpr ⟨consistent.created, ?_, ?_⟩
            · cases answer with
              | error error => exact .nil
              | ok response => exact List.pairwise_singleton _ _
            · intro earlier old later new same created
              obtain ⟨record, held, _⟩ := consistent.kept earlier old
              cases answer with
              | error error => cases new
              | ok response =>
                  cases List.mem_singleton.mp new
                  have absent := (status response rfl).mp created
                  rw [same] at held
                  exact absurd (held.symm.trans absent) (by simp)
    · exact consistent
  · exact consistent

theorem step (consistent : Consistent occurs ns loop) (apart : HashesApart occurs)
    (action : ManifestStep) (occurring : ∀ bytes, Written [action] bytes → occurs bytes) :
    Consistent occurs ns (loop.step ns action) := by
  cases action with
  | get client parts choice => exact consistent.get client parts choice
  | put client body choice =>
      apply consistent.put apart client body choice
      intro manifest bytes parsed canonical
      exact occurring bytes ⟨client, body, choice, manifest, List.mem_singleton.mpr rfl, parsed,
        canonical⟩

theorem run (consistent : Consistent occurs ns loop) (apart : HashesApart occurs)
    (steps : List ManifestStep) (occurring : ∀ bytes, Written steps bytes → occurs bytes) :
    Consistent occurs ns (loop.run ns steps) := by
  induction steps generalizing loop with
  | nil => exact consistent
  | cons first rest ih =>
      apply ih (consistent.step apart first ?_)
      · rintro bytes ⟨client, body, choice, manifest, member, parsed, canonical⟩
        exact occurring bytes ⟨client, body, choice, manifest, List.mem_cons_of_mem _ member,
          parsed, canonical⟩
      · rintro bytes ⟨client, body, choice, manifest, member, parsed, canonical⟩
        exact occurring bytes ⟨client, body, choice, manifest,
          List.mem_cons.mpr (.inl (List.mem_singleton.mp member)), parsed, canonical⟩

end Consistent

def manifestLoop (M : Type) [MetadataStore M] (ns : Namespace) (steps : List ManifestStep) :
    ManifestLoop M :=
  (ManifestLoop.initial M).run ns steps

def manifestResponse (bytes : Bytes) : Response :=
  ⟨.ok, [("content-type", Protocol.manifestMediaType),
    ("etag", quotedEtag (contentHash .blake3 bytes))], .stream ⟨[bytes], false⟩⟩

/-- No accepted prediction is lost: an accepted write replaced what its writer had read,
only one write creates a key, the entity tag is the hash of the canonical bytes, and a
read serves these bytes, under that tag, with all predictions accepted before, unless the
store fails. -/
theorem accepted_predictions_kept (ns : Namespace) (steps : List ManifestStep)
    (apart : HashesApart (Written steps)) :
    (∀ entry ∈ (manifestLoop M ns steps).accepted, entry.replaced = entry.read) ∧
      ((manifestLoop M ns steps).accepted.Pairwise fun earlier later =>
        earlier.key = later.key → later.status ≠ .created) ∧
      (∀ key record, (manifestLoop M ns steps).stored ns key = some record →
        ∃ bytes, Protocol.canonicalManifest record.manifest = .ok bytes ∧
          record.etag = contentHash .blake3 bytes) ∧
      ∀ entry ∈ (manifestLoop M ns steps).accepted, ∀ parts choice,
        pathDigest parts = entry.key →
        ∃ bytes manifest, Protocol.canonicalManifest manifest = .ok bytes ∧
          Protocol.parseManifest bytes = .ok manifest ∧
          entry.manifest.predictions ⊆ manifest.predictions ∧
          ((ManifestLoop.runGet ns parts choice (manifestLoop M ns steps).server).2 =
              some (.ok (manifestResponse bytes)) ∨
            choice.fault ≠ .none ∧ ∃ failure,
              (ManifestLoop.runGet ns parts choice (manifestLoop M ns steps).server).2 =
                some (.error (.internal failure))) := by
  have consistent : Consistent (Written steps) ns (manifestLoop M ns steps) :=
    Consistent.initial.run apart steps fun _ occurs => occurs
  refine ⟨consistent.replaced, consistent.created, ?_, ?_⟩
  · intro key record present
    obtain ⟨bytes, _, canonical, tag⟩ := consistent.tagged key record present
    exact ⟨bytes, canonical, tag⟩
  · intro entry member parts choice path
    obtain ⟨record, held, included⟩ := consistent.kept entry member
    obtain ⟨bytes, _, canonical, tag⟩ := consistent.tagged _ record held
    refine ⟨bytes, record.manifest, canonical, Protocol.parseManifest_canonical canonical,
      included, ?_⟩
    have served : serveManifest (some record) = .ok (manifestResponse bytes) := by
      simp only [serveManifest, manifestFound, canonicalBytes, canonical, tag, bind, Except.bind]
      rfl
    have key := parseActionDigest_ok (consistent.keyed entry member)
    rw [← path] at held key
    rw [ManifestLoop.stored] at held
    obtain ⟨_, outcome⟩ := runGet_outcome ns consistent.valid parts choice
    generalize ManifestLoop.runGet ns parts choice (manifestLoop M ns steps).server = ran at outcome
    obtain ⟨after, answer⟩ := ran
    cases outcome with
    | malformed error refused =>
        rw [show parseActionDigest parts = .ok (pathDigest parts) from key] at refused
        cases refused
    | failed failure faulted => exact .inr ⟨faulted, failure, rfl⟩
    | answered serves => exact .inl (by rw [held, served])

end MbxCache

namespace MbxCache

section Example

attribute [local instance] Specimen.protocol

def manifestParts : PathParts :=
  (Specimen.manifestKey.algorithm, Specimen.manifestKey.hash, Specimen.manifestKey.size)

/-- Two clients find that a manifest is absent. One creates it, the other one's creation is
refused, so that it reads again and adds to what it read. -/
def creation : List ManifestStep :=
  [.get 0 manifestParts ⟨.none, [], false, false, 0, 0⟩,
    .get 1 manifestParts ⟨.none, [], false, false, 0, 0⟩,
    .put 0 ⟨[Specimen.manifestBytes], none⟩ ⟨.none, [], false, false, 1, 0⟩,
    .put 1 ⟨[Specimen.manifestBytes], none⟩ ⟨.none, [], false, false, 2, 0⟩,
    .get 1 manifestParts ⟨.none, [], false, false, 2, 0⟩,
    .put 1 ⟨[Specimen.mergedBytes], none⟩ ⟨.none, [], false, false, 3, 0⟩]

theorem creation_apart : HashesApart (Written creation) := by
  have known : ∀ bytes, Written creation bytes →
      bytes = Specimen.manifestBytes ∨ bytes = Specimen.mergedBytes := by
    rintro bytes ⟨_, _, _, manifest, _, _, canonical⟩
    have listed := Specimen.canonicalManifest_known canonical
    simp only [Specimen.knownManifests, List.mem_cons, Prod.mk.injEq, List.not_mem_nil,
      or_false] at listed
    exact listed.imp And.right And.right
  have differ : Protocol.blake3.hash Specimen.manifestBytes ≠
      Protocol.blake3.hash Specimen.mergedBytes := by decide +kernel
  intro one other first second same
  rcases known one first with rfl | rfl <;> rcases known other second with rfl | rfl
  · rfl
  · exact absurd same differ
  · exact absurd same.symm differ
  · rfl

/-- The next read serves what both wrote. -/
theorem creation_kept :
    ((manifestLoop MemoryMetadata Specimen.team creation).accepted.map fun entry =>
        (entry.key, entry.status, entry.manifest)) =
      [(Specimen.manifestKey, .created, Specimen.manifest),
        (Specimen.manifestKey, .noContent, Specimen.mergedManifest)] ∧
      ∃ bytes manifest, Protocol.parseManifest bytes = .ok manifest ∧
        Specimen.mergedManifest.predictions ⊆ manifest.predictions ∧
        (ManifestLoop.runGet Specimen.team manifestParts ⟨.none, [], false, false, 4, 0⟩
          (manifestLoop MemoryMetadata Specimen.team creation).server).2 =
            some (.ok (manifestResponse bytes)) := by
  have accepted : ((manifestLoop MemoryMetadata Specimen.team creation).accepted.map fun entry =>
        (entry.key, entry.status, entry.manifest)) =
      [(Specimen.manifestKey, .created, Specimen.manifest),
        (Specimen.manifestKey, .noContent, Specimen.mergedManifest)] := by decide +kernel
  refine ⟨accepted, ?_⟩
  have merged : (Specimen.manifestKey, StatusCode.noContent, Specimen.mergedManifest) ∈
      (manifestLoop MemoryMetadata Specimen.team creation).accepted.map fun entry =>
        (entry.key, entry.status, entry.manifest) := by rw [accepted]; simp
  obtain ⟨entry, member, same⟩ := List.mem_map.mp merged
  simp only [Prod.mk.injEq] at same
  obtain ⟨bytes, manifest, _, parsed, included, answer⟩ :=
    (accepted_predictions_kept Specimen.team creation creation_apart).2.2.2 entry member
      manifestParts ⟨.none, [], false, false, 4, 0⟩ same.1.symm
  exact ⟨bytes, manifest, parsed, same.2.2 ▸ included, answer.resolve_right fun failed =>
    failed.1 rfl⟩

end Example
end MbxCache
