import MbxCache.Metadata.Memory
import MbxCache.Server.ServedPack
import MbxCache.Server.Undisturbed
import MbxCache.Specimen

namespace MbxCache

open Concurrent Pack

/-- A response whose body ends, as long as it was announced. -/
def Response.Carries (response : Response) (body : Bytes) : Prop :=
  response.status = .ok ∧ ∃ stream, response.content = .stream stream ∧ stream.read = .ok body ∧
    response.headers.lookup "content-length" = some (toString body.length)

def ReadSingly (answer : Except ApiError Response) (blob : Bytes) : Prop :=
  ∃ response, answer = .ok response ∧ response.Carries blob

def ReadPacked [Protocol] (digest : Digest) (answer : Except ApiError Response) (blob : Bytes) :
    Prop :=
  ∃ response header, answer = .ok response ∧ packBlobHeader digest = .ok header ∧
    response.headers.lookup "mbx-cache-pack-blobs" = some "1" ∧
    response.Carries (blobPackMagic ++ (header ++ blob))

section
variable [Protocol] {M : Type} [MetadataStore M]

def AnswersWith (state : ServerState M) (handler : Handler Response)
    (answer : Except ApiError Response) : Prop :=
  ∃ moves, (∀ move ∈ moves, (⟨Choice.Clean, Choice.Clean, False⟩ : Regime (server M)).Admits move) ∧
    ((server M).run state (.start handler) moves).2.answer = some answer

theorem answersWith_iff {state : ServerState M} {handler : Handler Response}
    {expected : Except ApiError Response}
    (answers : handler.Answers (fun result _ => result = expected) state)
    (answer : Except ApiError Response) :
    AnswersWith state handler answer ↔ answer = expected := by
  constructor
  · rintro ⟨moves, admitted, answered⟩
    exact answers.answered (fun choice member => admitted _ member) answered
  · rintro rfl
    obtain ⟨count, result, answered, same⟩ := answers.answers (fun _ => calm 0)
      (fun _ => calm_clean 0) []
    refine ⟨_, ?_, by rw [← same]; exact answered⟩
    intro move member
    obtain ⟨n, _, rfl⟩ := List.mem_map.mp member
    exact calm_clean 0

/-- Both ways of reading a digest deliver the same blobs, of the length it declares. -/
def PathsAgree (config : ServerConfig) (headers : Headers) (state : ServerState M)
    (digest : Digest) : Prop :=
  ∀ single packed,
    AnswersWith state (getBlob headers (digest.algorithm, digest.hash, digest.size)) single →
    AnswersWith state (packBlobs config headers [digest]) packed →
    ∀ blob, (ReadSingly single blob ↔ ReadPacked digest packed blob) ∧
      (ReadSingly single blob → blob.length = digest.size.toNat) ∧
      (ReadPacked digest packed blob → blob.length = digest.size.toNat)

/-- An object that a namespace can read is as long as its digest declares, and so short
that a pack of it can be announced. -/
def Intact (state : ServerState M) (ns : String) (digest : Digest) : Prop :=
  digest.validate = true → state.Sees ns digest → ∀ bytes, state.blobs digest = some bytes →
    bytes.length < 2 ^ 64 → bytes.length = digest.size.toNat ∧ packSize [digest] < 2 ^ 64

theorem getBlob_answers {headers : Headers} {ns : String}
    (authorized : headers.authorize .read = .ok ns) (state : Working M) (digest : Digest) :
    (getBlob headers (digest.algorithm, digest.hash, digest.size)).Answers
      (fun result _ =>
        match result with
        | .ok response => response.status = .ok ∧ digest.validate = true ∧
            state.1.Sees ns digest ∧ ∃ bytes cuts, state.1.blobs digest = some bytes ∧
              response.content = .stream (ByteStream.opened bytes cuts false) ∧
              response.headers.lookup "content-length" =
                some (toString (UInt64.ofNat bytes.length))
        | .error _ => ¬ (digest.validate = true ∧ state.1.Sees ns digest ∧
            (state.1.blobs digest).isSome)) state.1 := by
  rw [getBlob, authorized, Handler.pureStep_ok]
  cases valid : digest.validate with
  | false =>
      have parsed : parseDigest (digest.algorithm, digest.hash, digest.size) =
          .error (.badRequest "invalid digest") := by
        simp [parseDigest, validateDigest, valid, bind, Except.bind]
      rw [parsed, Handler.pureStep_error]
      exact .refuse (by simp)
  | true =>
      have parsed : parseDigest (digest.algorithm, digest.hash, digest.size) = .ok digest := by
        simp [parseDigest, validateDigest, valid, bind, Except.bind, pure, Except.pure]
      rw [parsed, Handler.pureStep_ok]
      have named : MetadataStore.names M ns digest = true :=
        MetadataStore.names_valid (headers.named authorized) valid
      apply Handler.Answers.bind (isVisible_answers state.2 (lists_one named))
      · rintro error after ⟨wrong, _⟩
        cases wrong
      · rintro seen after ⟨same, rfl⟩
        cases same
        cases seen : state.1.view.visible ns digest with
        | false =>
            refine .refuse ?_
            rintro ⟨_, visible, _⟩
            rw [ServerState.Sees, seen] at visible
            cases visible
        | true =>
            apply Handler.Answers.bind (fetch_answers digest)
            · rintro error after ⟨_, cuts, wrong⟩
              cases wrong
            · rintro found after ⟨rfl, cuts, same⟩
              cases same
              cases stored : state.1.blobs digest with
              | none =>
                  apply Handler.Answers.bind (forgetMissingBlob_answers state.2 digest)
                  · exact fun error after _ => by simp
                  · exact fun _ after _ => .refuse (by simp)
              | some bytes => exact .pure ⟨rfl, rfl, seen, bytes, cuts, rfl, rfl, rfl⟩

def quiet (state : Working M) : ReadSide (server M) where
  admits := Choice.Clean
  start := state.1
  Inv after := after.blobs = state.1.blobs ∧ MetadataStore.valid after.metadata
  visible := state.1.view.visible
  Finds digest found := ∃ cuts, found = .ok ((state.1.blobs digest).map fun bytes =>
    ⟨UInt64.ofNat bytes.length, ByteStream.opened bytes cuts false⟩)
  body _ := rfl
  inv_start := ⟨rfl, state.2⟩
  fails := False
  look ns digests _ := exec_visibleBlobs _ ns digests state.1
  sees {choice ns digests} clean name valid := by
    have performed : perform choice state.1 (.visibleBlobs ns digests) =
        .ok (state.1, digests.filter (state.1.view.visible ns)) := by
      change state.1.look (MetadataStore.visibleBlobs state.1.metadata ns digests) = _
      rw [MetadataStore.visibleBlobs_view state.2 (lists_valid name valid)]
      rfl
    have executed : exec choice (.visibleBlobs ns digests) state.1 =
        (state.1, .ok (digests.filter (state.1.view.visible ns))) := by
      rw [exec_clean clean, performed]
    exact .inl (congrArg Prod.snd executed)
  get {choice after} digest clean inv := by
    have executed : exec choice (.get digest) after = (after, .ok ((state.1.blobs digest).map
        fun bytes => ⟨UInt64.ofNat bytes.length, ByteStream.opened bytes choice.cuts false⟩)) := by
      rw [exec_clean clean, ← inv.1, ← clean.2.1]
      rfl
    have kept : (exec choice (.get digest) after).1 = after := congrArg Prod.fst executed
    refine ⟨?_, choice.cuts, congrArg Prod.snd executed⟩
    change (exec choice (.get digest) after).1.blobs = _ ∧
      MetadataStore.valid (exec choice (.get digest) after).1.metadata
    rw [kept]
    exact inv
  forget {choice after} ns digest clean inv := by
    obtain ⟨metadata, forgotten, valid, _⟩ := exec_forgetBlob clean inv.2 ns digest
    change (exec choice (.forgetBlob ns digest) after).1.blobs = _ ∧
      MetadataStore.valid (exec choice (.forgetBlob ns digest) after).1.metadata
    rw [forgotten]
    exact ⟨inv.1, valid⟩

theorem quiet_lively (state : Working M) : (quiet state).regime.Lively :=
  undisturbed_lively

/-- A pack request always comes to an answer. -/
theorem packBlobs_answers (config : ServerConfig) (headers : Headers) (state : Working M)
    (digests : List Digest) :
    ∃ answer, AnswersWith state.1 (packBlobs config headers digests) answer := by
  have unmoved : ∀ move ∈ ([] : List (Move Choice)), move ≠ .drop := by simp
  obtain ⟨more, answer, goes, answered⟩ := (packBlobs_waits config headers digests).answers
    (quiet_lively state) state.1 unmoved
  exact ⟨answer, more, fun move member => (goes move member).1, answered⟩

theorem getBlob_answered (headers : Headers) (state : Working M) {ns : String}
    (authorized : headers.authorize .read = .ok ns) (digest : Digest) :
    ∃ answer, AnswersWith state.1
      (getBlob headers (digest.algorithm, digest.hash, digest.size)) answer := by
  obtain ⟨count, answer, answered, _⟩ := (getBlob_answers authorized state digest).answers
    (fun _ => calm 0) (fun _ => calm_clean 0) []
  refine ⟨answer, _, ?_, answered⟩
  intro move member
  obtain ⟨n, _, rfl⟩ := List.mem_map.mp member
  exact calm_clean 0

theorem quiet_whole {state : Working M} {digest : Digest} {found : Except Failure (Option Blob)}
    (finds : (quiet state).Finds digest found) :
    (∀ payload, Whole digest found payload → state.1.blobs digest = some payload.flatten ∧
      payload.flatten.length = digest.size.toNat) ∧
    (∀ bytes, state.1.blobs digest = some bytes → bytes.length = digest.size.toNat →
      ∃ payload, Whole digest found payload) := by
  obtain ⟨cuts, rfl⟩ := finds
  constructor
  · rintro payload ⟨⟨blob, same, _, stream⟩, length⟩
    obtain ⟨bytes, stored, opened⟩ := Option.map_eq_some_iff.mp (Except.ok.inj same)
    rw [← opened] at stream
    have chunks : payload = ByteStream.split cuts bytes := (congrArg ByteStream.chunks stream).symm
    rw [chunks, ByteStream.split_flatten] at length ⊢
    exact ⟨stored, length⟩
  · intro bytes stored length
    refine ⟨ByteStream.split cuts bytes, ⟨_, by rw [stored]; rfl, ?_, rfl⟩, ?_⟩
    · change UInt64.ofNat bytes.length = digest.size
      rw [length]
      exact UInt64.ofNat_toNat
    · rw [ByteStream.split_flatten, length]

section
variable {config : ServerConfig} {ns : String} {state : Working M} {digest : Digest}

theorem readSingly_iff {headers : Headers} (authorized : headers.authorize .read = .ok ns)
    {single : Except ApiError Response} (answers : AnswersWith state.1
      (getBlob headers (digest.algorithm, digest.hash, digest.size)) single) (blob : Bytes) :
    ReadSingly single blob ↔ digest.validate = true ∧ state.1.Sees ns digest ∧
      state.1.blobs digest = some blob ∧ blob.length < 2 ^ 64 := by
  obtain ⟨moves, admitted, answered⟩ := answers
  have result := (getBlob_answers authorized state digest).answered
    (fun choice member => admitted _ member) answered
  cases single with
  | error error =>
      constructor
      · rintro ⟨_, wrong, _⟩
        cases wrong
      · rintro ⟨valid, seen, stored, _⟩
        exact absurd ⟨valid, seen, by rw [stored]; rfl⟩ result
  | ok response =>
      obtain ⟨status, valid, seen, bytes, cuts, stored, content, length⟩ := result
      constructor
      · rintro ⟨_, same, _, stream, body, read, announced⟩
        cases same
        rw [content] at body
        cases body
        cases ByteStream.opened_read read
        rw [length, Option.some.injEq] at announced
        have value : (UInt64.ofNat blob.length).toNat = blob.length := toString_inj.mp announced
        exact ⟨valid, seen, stored, value ▸ (UInt64.ofNat blob.length).toNat_lt⟩
      · rintro ⟨_, _, present, small⟩
        rw [stored] at present
        cases present
        refine ⟨response, rfl, status, _, content, ?_, ?_⟩
        · simp [ByteStream.read, ByteStream.opened, ByteStream.split_flatten]
        · rw [length]
          have value : (UInt64.ofNat blob.length).toNat = blob.length :=
            UInt64.toNat_ofNat_of_lt' small
          exact congrArg some (toString_inj.mpr value)

theorem delivered_single {stream : ByteStream}
    (delivered : (quiet state).Delivered [digest] stream) (unbroken : stream.broken = false) :
    ∃ header bytes, packBlobHeader digest = .ok header ∧ state.1.blobs digest = some bytes ∧
      bytes.length = digest.size.toNat ∧
      stream.chunks.flatten = blobPackMagic ++ (header ++ bytes) := by
  cases delivered with
  | broken => cases unbroken
  | complete entries chunks listed encoded whole =>
      obtain ⟨entry, rfl, rfl⟩ := List.map_eq_singleton_iff.mp listed
      obtain ⟨found, payload, finds, whole, same⟩ := whole entry (List.mem_singleton_self _)
      obtain ⟨stored, length⟩ := (quiet_whole finds).1 payload whole
      simp only [encode, bind, Except.bind] at encoded
      split at encoded
      · cases encoded
      · rename_i frames framed
        obtain ⟨header, rest, packed, empty, rfl⟩ := encodeFrames_cons framed
        cases empty
        have flat := Except.ok.inj encoded
        refine ⟨header, payload.flatten, packed, stored, length, ?_⟩
        rw [← flat, same, List.append_nil]

theorem readPacked_iff (within : digest.size ≤ config.maxBlobBytes) {headers : Headers}
    (authorized : headers.authorize .read = .ok ns) {packed : Except ApiError Response}
    (answers : AnswersWith state.1 (packBlobs config headers [digest]) packed) (blob : Bytes) :
    ReadPacked digest packed blob ↔ digest.validate = true ∧ state.1.Sees ns digest ∧
      state.1.blobs digest = some blob ∧ blob.length = digest.size.toNat ∧
      packSize [digest] < 2 ^ 64 := by
  obtain ⟨moves, admitted, answered⟩ := answers
  have outcome : (quiet state).Outcome config ns [digest] packed :=
    (quiet state).packBlobs_outcome config headers [digest] authorized admitted answered
  have once : [digest].eraseDups = [digest] := by simp [List.eraseDups_cons]
  cases packed with
  | error error =>
      constructor
      · rintro ⟨_, _, wrong, _⟩
        cases wrong
      · rintro ⟨valid, seen, _, _, fits⟩
        rcases outcome with refused | never
        · refine absurd ⟨Nat.le_of_ble_eq_true rfl, by simpa using valid, ?_, ?_⟩ refused
          · rw [once, digestTotal_cons, digestTotal_nil, Nat.add_zero]
            exact UInt64.le_iff_toNat_le.mp within
          · have only : [digest].filter (state.1.view.visible ns) = [digest] :=
              List.filter_cons_of_pos seen
            rw [once, quiet, only]
            exact fits
        · exact never.elim
  | ok response =>
      obtain ⟨accepts, promises, stream, content, delivered⟩ := outcome
      have served : (quiet state).served ns [digest] =
          [digest].filter (state.1.view.visible ns) := by
        rw [ReadSide.served, once]
        rfl
      have fits := accepts.fits
      rw [once] at fits
      rw [served] at promises delivered
      cases seen : state.1.view.visible ns digest with
      | false =>
          constructor
          · rintro ⟨_, header, same, _, one, _⟩
            cases same
            rw [List.filter_cons_of_neg (by simp [seen])] at promises
            have wrong : toString ([] : List Digest).length = toString 1 :=
              Option.some.inj (promises.blobs.symm.trans one)
            exact absurd (toString_inj.mp wrong) (by decide)
          · rintro ⟨_, visible, _⟩
            rw [ServerState.Sees, seen] at visible
            cases visible
      | true =>
          have only : [digest].filter (state.1.view.visible ns) = [digest] :=
            List.filter_cons_of_pos seen
          rw [only] at delivered promises
          rw [quiet, only] at fits
          constructor
          · rintro ⟨_, header, same, packs, _, _, other, body, read, _⟩
            cases same
            rw [content] at body
            cases body
            have unbroken : stream.broken = false := by
              cases broken : stream.broken with
              | false => rfl
              | true => simp [ByteStream.read, broken] at read
            obtain ⟨header', bytes, packs', stored, length, flat⟩ :=
              delivered_single delivered unbroken
            rw [packs] at packs'
            cases packs'
            simp only [ByteStream.read, unbroken, Bool.false_eq_true, if_false, flat,
              Except.ok.injEq, List.append_cancel_left_eq] at read
            cases read
            exact ⟨accepts.valid digest (List.mem_singleton_self _), seen, stored, length, fits⟩
          · rintro ⟨_, _, present, length, _⟩
            have unbroken : stream.broken = false := by
              cases delivered with
              | complete => rfl
              | broken chunks other member found finds partly =>
                  rw [List.mem_singleton.mp member] at finds partly
                  exact absurd ((quiet_whole finds).2 blob present length) partly
            obtain ⟨header, bytes, packs, stored, _, flat⟩ := delivered_single delivered unbroken
            rw [present] at stored
            cases stored
            have read : stream.read = .ok (blobPackMagic ++ (header ++ blob)) := by
              simp only [ByteStream.read, unbroken, Bool.false_eq_true, if_false, flat]
            have count : some (toString 1) = some "1" := rfl
            refine ⟨response, header, rfl, packs, promises.blobs.trans count, promises.status,
              stream, content, read, ?_⟩
            rw [promises.length, Option.some.injEq, toString_inj]
            obtain ⟨_, packs', headerLength⟩ :=
              packBlobHeader_length (accepts.valid digest (List.mem_singleton_self _))
            rw [packs] at packs'
            cases packs'
            simp only [packSize, List.length_append, headerLength, length, digestTotal_cons,
              digestTotal_nil, List.length_cons, List.length_nil]
            omega

theorem PathsAgree.intact {headers : Headers} (authorized : headers.authorize .read = .ok ns)
    (within : digest.size ≤ config.maxBlobBytes)
    (agrees : PathsAgree config headers state.1 digest) : Intact state.1 ns digest := by
  intro valid seen bytes stored small
  obtain ⟨single, reads⟩ := getBlob_answered headers state authorized digest
  obtain ⟨packed, packs⟩ := packBlobs_answers config headers state [digest]
  have delivers : ReadSingly single bytes :=
    (readSingly_iff authorized reads bytes).mpr ⟨valid, seen, stored, small⟩
  have also := ((agrees single packed reads packs bytes).1).mp delivers
  obtain ⟨_, _, _, length, fits⟩ := (readPacked_iff within authorized packs bytes).mp also
  exact ⟨length, fits⟩

theorem Intact.paths_agree {headers : Headers} (authorized : headers.authorize .read = .ok ns)
    (within : digest.size ≤ config.maxBlobBytes) (intact : Intact state.1 ns digest) :
    PathsAgree config headers state.1 digest := by
  intro single packed reads packs blob
  have single_iff := readSingly_iff authorized reads blob
  have packed_iff := readPacked_iff within authorized packs blob
  refine ⟨⟨?_, ?_⟩, ?_, ?_⟩
  · intro delivers
    obtain ⟨valid, seen, stored, small⟩ := single_iff.mp delivers
    exact packed_iff.mpr ⟨valid, seen, stored, intact valid seen blob stored small⟩
  · intro delivers
    obtain ⟨valid, seen, stored, length, _⟩ := packed_iff.mp delivers
    exact single_iff.mpr ⟨valid, seen, stored, length ▸ digest.size.toNat_lt⟩
  · intro delivers
    obtain ⟨valid, seen, stored, small⟩ := single_iff.mp delivers
    exact (intact valid seen blob stored small).1
  · intro delivers
    exact (packed_iff.mp delivers).2.2.2.1

/-- A single read and a pack of one agree exactly on intact objects. -/
theorem paths_agree_iff (config : ServerConfig) (state : Working M) (ns : String)
    (headers : {headers : Headers // headers.authorize .read = .ok ns})
    (digest : {digest : Digest // digest.size ≤ config.maxBlobBytes}) :
    PathsAgree config headers.1 state.1 digest.1 ↔ Intact state.1 ns digest.1 :=
  ⟨PathsAgree.intact headers.2 digest.2, Intact.paths_agree headers.2 digest.2⟩

end
end

section Truncated

attribute [local instance] Specimen.protocol

/-- The object of one zero byte, cut to nothing, and a row that still names it. -/
def truncated : Working MemoryMetadata where
  val := ⟨fun digest => if digest = Specimen.zeroDigest then some [] else none,
    ⟨fun _ _ => none, fun ns digest => ns == "team" && digest == Specimen.zeroDigest,
      fun _ _ => none⟩⟩
  property := by
    intro ns action value present
    cases present

def teamHeaders : Headers := 
  ⟨fun _ => .ok "team", granted_named Specimen.team, none, none, none, none⟩

/-- A truncated object is served by itself and refused in a pack. -/
theorem truncated_paths_disagree :
    ¬ PathsAgree ⟨1024, 4, false⟩ teamHeaders truncated.1 Specimen.zeroDigest := by
  intro agrees
  have authorized : teamHeaders.authorize .read = .ok "team" := rfl
  have intact := agrees.intact authorized (by decide)
  have seen : truncated.1.Sees "team" Specimen.zeroDigest := by
    unfold ServerState.Sees
    decide
  have length := (intact (by decide) seen [] (by decide) (by decide)).1
  exact absurd length (by decide)

end Truncated
end MbxCache
