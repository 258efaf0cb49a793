import Mathlib.Algebra.Order.BigOperators.Group.List
import MbxCache.Server.PackOutcome
import MbxCache.Server.ReadPaths

namespace MbxCache

open Concurrent Pack

def usizeMax : Nat := 2 ^ 64 - 1

def saturatingAdd (one other : Nat) : Nat := min (one + other) usizeMax

def saturatingMul (one other : Nat) : Nat := min (one * other) usizeMax

/-- The limit on the body of a pack upload (`router`). -/
def packLimit (config : ServerConfig) : Nat :=
  let limit := if config.maxBlobBytes.toNat ≤ usizeMax then config.maxBlobBytes.toNat else usizeMax
  saturatingAdd (saturatingAdd limit blobPackMagic.length)
    (saturatingMul blobPackHeaderBytes maxBatchItems)

/-- A pack of at most as many frames and bytes as are supported, if it can be announced at
all, is within the limit. -/
theorem packSize_limit {config : ServerConfig} {digests : List Digest}
    (few : digests.length ≤ maxBatchItems) (small : digestTotal digests ≤ config.maxBlobBytes.toNat)
    (fits : packSize digests < 2 ^ 64) : packSize digests ≤ packLimit config := by
  have frames : blobPackHeaderBytes * digests.length ≤ blobPackHeaderBytes * maxBatchItems :=
    Nat.mul_le_mul_left _ few
  have product : saturatingMul blobPackHeaderBytes maxBatchItems =
      blobPackHeaderBytes * maxBatchItems := by decide
  have bound : config.maxBlobBytes.toNat ≤ usizeMax := Nat.le_pred_of_lt config.maxBlobBytes.toNat_lt
  unfold packLimit saturatingAdd
  rw [product, if_pos bound]
  unfold packSize usizeMax at *
  simp only
  omega

theorem eraseDups_length (digests : List Digest) :
    digests.eraseDups.length ≤ digests.length := by
  generalize size : digests.length = count
  induction count using Nat.strong_induction_on generalizing digests with
  | _ count ih =>
      cases digests with
      | nil => exact Nat.zero_le _
      | cons digest rest =>
          have fewer := List.length_filter_le (fun other => !other == digest) rest
          rw [List.length_cons] at size
          have later := ih _ (by omega) (rest.filter fun other => !other == digest) rfl
          rw [List.eraseDups_cons, List.length_cons]
          omega

theorem digestTotal_filter (keep : Digest → Bool) (digests : List Digest) :
    digestTotal (digests.filter keep) ≤ digestTotal digests := by
  induction digests with
  | nil => exact le_rfl
  | cons digest rest ih =>
      rw [List.filter_cons]
      split
      · simpa using ih
      · exact ih.trans (Nat.le_add_left _ _)

theorem size_digestTotal {digest : Digest} {digests : List Digest} (member : digest ∈ digests) :
    digest.size.toNat ≤ digestTotal digests :=
  List.le_sum_of_mem (List.mem_map_of_mem member)

theorem payloadTotal_digestTotal {entries : List Entry}
    (lengths : ∀ entry ∈ entries, entry.payload.length = entry.digest.size.toNat) :
    payloadTotal entries = digestTotal (entries.map Entry.digest) := by
  induction entries with
  | nil => rfl
  | cons entry rest ih =>
      rw [payloadTotal_cons, List.map_cons, digestTotal_cons, lengths entry List.mem_cons_self,
        ih fun other member => lengths other (List.mem_cons_of_mem _ member)]

theorem encodeFrames_length [Protocol] {entries : List Entry} {bytes : Bytes}
    (valid : ∀ entry ∈ entries, entry.digest.validate = true)
    (encoded : encodeFrames entries = .ok bytes) :
    bytes.length = blobPackHeaderBytes * entries.length + payloadTotal entries := by
  induction entries generalizing bytes with
  | nil =>
      cases encoded
      rfl
  | cons entry rest ih =>
      obtain ⟨header, frames, packed, others, rfl⟩ := encodeFrames_cons encoded
      obtain ⟨header', packed', length⟩ := packBlobHeader_length (valid entry List.mem_cons_self)
      rw [packed] at packed'
      cases packed'
      have later := ih (fun other member => valid other (List.mem_cons_of_mem _ member)) others
      calc (header ++ entry.payload ++ frames).length
        _ = header.length + entry.payload.length + frames.length := by
          rw [List.length_append, List.length_append]
        _ = blobPackHeaderBytes + entry.payload.length +
            (blobPackHeaderBytes * rest.length + payloadTotal rest) := by rw [length, later]
        _ = blobPackHeaderBytes * (entry :: rest).length + payloadTotal (entry :: rest) := by
          rw [List.length_cons, payloadTotal_cons]
          ring

section
variable [Protocol] {M : Type} [MetadataStore M]

structure WildChoice where
  choice : Choice
  found : Except Failure (Option Blob)

/-- The server over a storage that may answer a read with an error, with nothing, or with an
object of any size, in any chunks, that ends or fails anywhere. -/
abbrev wildServer (M : Type) [MetadataStore M] : Machine Api where
  State := ServerState M
  Choice := WildChoice
  exec choice op state :=
    match op with
    | .get _ => (state, choice.found)
    | op => exec choice.choice op state
  pick choice := choice.choice.pick
  body := Job.body
  detached := Job.detached

def wild (state : Working M) : ReadSide (wildServer M) where
  admits _ := True
  start := state.1
  Inv _ := True
  visible := state.1.view.visible
  Finds _ _ := True
  body _ := rfl
  inv_start := trivial
  fails := True
  look {choice} ns digests _ := exec_visibleBlobs choice.choice ns digests state.1
  sees {choice ns digests} _ name valid := by
    have performed : perform choice.choice state.1 (.visibleBlobs ns digests) =
        .ok (state.1, digests.filter (state.1.view.visible ns)) := by
      change state.1.look (MetadataStore.visibleBlobs state.1.metadata ns digests) = _
      rw [MetadataStore.visibleBlobs_view state.2 (lists_valid name valid)]
      rfl
    have executed : (wildServer M).exec choice (.visibleBlobs ns digests) state.1 =
        attempt choice.choice.fault state.1
          (.ok (state.1, digests.filter (state.1.view.visible ns))) :=
      congrArg (attempt choice.choice.fault state.1) performed
    rw [executed]
    cases choice.choice.fault with
    | none => exact .inl rfl
    | before failure => exact .inr ⟨trivial, failure, rfl⟩
    | after failure => exact .inr ⟨trivial, failure, rfl⟩
  get _ _ _ := ⟨trivial, trivial⟩
  forget _ _ _ _ := trivial

structure PackDownload (M : Type) [Protocol] [MetadataStore M] where
  ns : String
  config : ServerConfig
  headers : Headers
  digests : List Digest
  start : Working M
  moves : List (Move WildChoice)
  authorized : headers.authorize .read = .ok ns
  /-- Reads are part of the response and cannot be cut off by themselves. -/
  unaborted : ∀ id, .abort id ∉ moves

namespace PackDownload

variable (download : PackDownload M)

def reached : ServerState M × Process Api (Except ApiError Response) :=
  (wildServer M).run download.start.1
    (.start (packBlobs download.config download.headers download.digests)) download.moves

def served : List Digest :=
  download.digests.eraseDups.filter (download.start.1.view.visible download.ns)

def Packs (entries : List Entry) (body : Bytes) : Prop :=
  entries.map Entry.digest = download.served ∧ encode entries = .ok body ∧
    ∀ entry ∈ entries, entry.payload.length = entry.digest.size.toNat

end PackDownload

/-- An upload carries a body under the headers of a response, in any chunks, to a server of the
same size limit whose spool has no bounds. -/
structure Reuploads {N : Type} [MetadataStore N] (config : ServerConfig) (response : Response)
    (body : Bytes) (upload : PackAttempt N) : Prop where
  limit : upload.config.maxBlobBytes = config.maxBlobBytes
  unbounded : upload.config.spoolBudget = false
  content : upload.body.chunks.flatten = body
  ends : upload.body.failure = none
  blobs : upload.headers.packBlobs = response.headers.lookup "mbx-cache-pack-blobs"
  bytes : upload.headers.packBytes = response.headers.lookup "mbx-cache-pack-bytes"

/-- No check refuses an upload: it is accepted, unless a store that it spawned fails. -/
def Passes {N : Type} [MetadataStore N] (upload : PackAttempt N) : Prop :=
  upload.body.chunks.flatten.length ≤ packLimit upload.config ∧
  ∀ result, upload.process.answer = some result →
    (∃ response, result = .ok response ∧ response.status = .ok) ∨
      ∃ task ∈ upload.process.tasks, task.running = false ∧ succeeded task = none

omit [Protocol] in
theorem checkDigests_ok {digests : List Digest}
    (valid : ∀ digest ∈ digests, digest.validate = true) : checkDigests digests = .ok () := by
  induction digests with
  | nil => rfl
  | cons digest rest ih =>
      rw [checkDigests, ih fun other member => valid other (List.mem_cons_of_mem _ member),
        validateDigest, if_pos (valid digest List.mem_cons_self)]
      rfl

theorem missingBlobs_answers {headers : Headers} {ns : String}
    (authorized : headers.authorize .read = .ok ns) (state : Working M) {digests : List Digest}
    (few : digests.length ≤ maxBatchItems) (valid : ∀ digest ∈ digests, digest.validate = true) :
    (missingBlobs headers digests).Answers (fun result _ => result = .ok ⟨.ok, [],
      .missing (digests.filter fun digest => !state.1.view.visible ns digest)⟩) state.1 := by
  rw [missingBlobs, authorized, Handler.pureStep_ok, if_neg (Nat.not_lt_of_le few),
    checkDigests_ok valid, Handler.pureStep_ok]
  apply Handler.Answers.bind
    (visibleBlobs_answers state.2 (lists_valid (headers.named authorized) valid))
  · rintro error after ⟨wrong, _⟩
    cases wrong
  · rintro visible after ⟨same, _⟩
    cases same
    have unseen : (digests.filter fun digest =>
          !(digests.filter (state.1.view.visible ns)).contains digest) =
        digests.filter fun digest => !state.1.view.visible ns digest := by
      apply List.filter_congr
      intro digest member
      rw [List.contains_eq_mem]
      simp [List.mem_filter, member]
    rw [unseen]
    exact .pure rfl

namespace PackDownload

variable {download : PackDownload M}

theorem outcome {result : Except ApiError Response}
    (answered : download.reached.2.answer = some result) :
    (wild download.start).Outcome download.config download.ns download.digests result := by
  refine (wild download.start).packBlobs_outcome download.config download.headers
    download.digests download.authorized ?_ answered
  intro move member
  cases move with
  | main choice => exact trivial
  | task id choice => exact trivial
  | abort id => exact (download.unaborted id member).elim
  | drop => exact trivial

theorem served_length : download.served.length ≤ download.digests.length :=
  (List.length_filter_le _ _).trans (eraseDups_length _)

theorem served_total (accepts : Accepts download.config
      (download.start.1.view.visible download.ns) download.digests) :
    digestTotal download.served ≤ download.config.maxBlobBytes.toNat :=
  (digestTotal_filter _ _).trans accepts.limit

theorem served_valid (accepts : Accepts download.config
      (download.start.1.view.visible download.ns) download.digests) :
    ∀ digest ∈ download.served, digest.validate = true := by
  intro digest member
  exact accepts.valid digest (List.mem_eraseDups.mp (List.mem_of_mem_filter member))

theorem served_reported (reported : List Digest) (same : reported = download.digests.filter
      fun digest => !download.start.1.view.visible download.ns digest) :
    download.served = download.digests.eraseDups.filter fun digest => digest ∉ reported := by
  subst same
  apply List.filter_congr
  intro digest member
  have asked := List.mem_eraseDups.mp member
  simp [List.mem_filter, asked]

/-- A body that came to its end is the pack of the digests served, as long as announced. -/
theorem delivered_packs (accepts : Accepts download.config
      (download.start.1.view.visible download.ns) download.digests) {stream : ByteStream}
    (delivered : (wild download.start).Delivered download.served stream)
    (unbroken : stream.broken = false) :
    ∃ entries, download.Packs entries stream.chunks.flatten ∧
      stream.chunks.flatten.length = packSize download.served := by
  cases delivered with
  | broken => cases unbroken
  | complete entries chunks listed encoded whole =>
      have lengths : ∀ entry ∈ entries, entry.payload.length = entry.digest.size.toNat := by
        intro entry member
        obtain ⟨found, payload, _, whole, same⟩ := whole entry member
        rw [same]
        exact whole.length
      have valid : ∀ entry ∈ entries, entry.digest.validate = true := by
        intro entry member
        apply served_valid accepts
        rw [← listed]
        exact List.mem_map_of_mem member
      refine ⟨entries, ⟨listed, encoded, lengths⟩, ?_⟩
      simp only [encode, bind, Except.bind] at encoded
      split at encoded
      · cases encoded
      · rename_i frames framed
        have flat := Except.ok.inj encoded
        have length := encodeFrames_length valid framed
        have count : entries.length = download.served.length := by
          rw [← listed, List.length_map]
        rw [← flat, List.length_append, length, payloadTotal_digestTotal lengths, listed, count,
          packSize, Nat.add_assoc]

theorem packs_pass (accepts : Accepts download.config
      (download.start.1.view.visible download.ns) download.digests) {response : Response}
    (promises : Promises download.served response) {body : Bytes} {entries : List Entry}
    (packs : download.Packs entries body) (length : body.length = packSize download.served)
    (named : ∀ entry ∈ entries, entry.digest.Names entry.payload)
    {N : Type} [MetadataStore N] {upload : PackAttempt N}
    (reuploads : Reuploads download.config response body upload) : Passes upload := by
  obtain ⟨listed, encoded, lengths⟩ := packs
  obtain ⟨limit, unbounded, content, ends, blobs, bytes⟩ := reuploads
  have few : download.served.length ≤ maxBatchItems := served_length.trans accepts.count
  have small := served_total accepts
  have count : (UInt64.ofNat download.served.length).toNat = download.served.length :=
    UInt64.toNat_ofNat_of_lt' (lt_of_le_of_lt few (by decide))
  have total : (UInt64.ofNat (digestTotal download.served)).toNat =
      digestTotal download.served :=
    UInt64.toNat_ofNat_of_lt' (lt_of_le_of_lt small download.config.maxBlobBytes.toNat_lt)
  have numbers : declared upload.config upload.headers = .ok
      (UInt64.ofNat download.served.length, UInt64.ofNat (digestTotal download.served)) := by
    refine (PackAttempt.declared_iff _ _ _ _).mpr ⟨⟨?_, ?_⟩, ?_, ?_⟩
    · rw [blobs, promises.blobs, requiredU64Header, Option.bind_some,
        parseU64_toString (lt_of_le_of_lt few (by decide))]
    · rw [bytes, promises.bytes, requiredU64Header, Option.bind_some,
        parseU64_toString (lt_of_le_of_lt small download.config.maxBlobBytes.toNat_lt)]
    · rw [count]
      exact few
    · rw [limit]
      exact UInt64.le_iff_toNat_le.mpr (total.trans_le small)
  refine ⟨?_, ?_⟩
  · have within := packSize_limit few small accepts.fits
    rw [content, length, packLimit, limit]
    exact within
  · intro result answered
    obtain ⟨_, _, outcome⟩ := (PackAttempt.process_holds numbers).answer answered
    cases result with
    | ok response => exact .inl ⟨response, rfl, outcome.answer.1⟩
    | error error =>
        have whole : ∃ last, Pack.Unpacks (.new upload.config.maxBlobBytes
            (UInt64.ofNat download.served.length) (UInt64.ofNat (digestTotal download.served)))
            upload.body.chunks entries last := by
          refine whole_iff.mpr ⟨by rw [content]; exact encoded, ?_, ?_, ?_, ?_⟩
          · intro entry member
            refine ⟨served_valid accepts _ ?_, lengths entry member⟩
            rw [← listed]
            exact List.mem_map_of_mem member
          · intro entry member
            have among : entry.digest ∈ download.served := by
              rw [← listed]
              exact List.mem_map_of_mem member
            rw [limit]
            exact UInt64.le_iff_toNat_le.mpr ((size_digestTotal among).trans small)
          · rw [count, ← listed, List.length_map]
          · rw [total, payloadTotal_digestTotal lengths, listed]
        obtain ⟨last, whole⟩ := whole
        cases outcome with
        | refused permits limited asked =>
            rw [PackAttempt.run, unbounded] at limited
            cases limited
        | oversize sum received frame member large =>
            refine (large fun limited => ?_).elim
            rw [PackAttempt.run, unbounded] at limited
            cases limited
        | mismatch sum received entry member differs =>
            exact (differs (named entry ((received.initial whole).1.subset member))).elim
        | store task member ended failed => exact .inr ⟨task, member, ended, failed⟩
        | incomplete never =>
            refine (never entries ⟨ends, ⟨last, whole⟩, ?_, ?_⟩).elim
            · have frames : entries.length = download.served.length := by
                rw [← listed, List.length_map]
              exact frames.trans count.symm
            · have payload : payloadTotal entries = digestTotal download.served := by
                rw [payloadTotal_digestTotal lengths, listed]
              exact payload.trans total.symm

end PackDownload

/-- A served pack is exact and can be uploaded again: whatever the storage does, a response
announces the pack of the digests asked for and visible, which a query for missing blobs does
not report; its body breaks, or is that pack to the byte; and where the payloads match their
digests, an upload of it under its headers, in any chunks, passes every check. -/
theorem served_pack_returns (download : PackDownload M) :
    (.drop ∉ download.moves → ∃ more result, (∀ id, .abort id ∉ more) ∧
      ((wildServer M).run download.start.1 (.start (packBlobs download.config download.headers
        download.digests)) (download.moves ++ more)).2.answer = some result) ∧
    ∀ response, download.reached.2.answer = some (.ok response) →
      (∃ reported, (∀ answer, AnswersWith download.start.1
          (missingBlobs download.headers download.digests) answer ↔
            answer = .ok ⟨.ok, [], .missing reported⟩) ∧
        download.served = download.digests.eraseDups.filter fun digest => digest ∉ reported) ∧
      (download.served.length ≤ download.digests.eraseDups.length ∧
        digestTotal download.served ≤ digestTotal download.digests.eraseDups ∧
        digestTotal download.digests.eraseDups < 2 ^ 64 ∧ packSize download.served < 2 ^ 64) ∧
      Promises download.served response ∧
      ∃ stream, response.content = .stream stream ∧ (stream.broken = true ∨
        stream.chunks.flatten.length = packSize download.served ∧
        ∃ entries, download.Packs entries stream.chunks.flatten ∧
          ((∀ entry ∈ entries, entry.digest.Names entry.payload) →
            ∀ (N : Type) [MetadataStore N] (upload : PackAttempt N),
              Reuploads download.config response stream.chunks.flatten upload →
                Passes upload)) := by
  constructor
  · intro stays
    have lively : (wild download.start).regime.Lively :=
      ⟨Job.body_plain, fun id => ⟨⟨calm id, .ok none⟩, trivial, rfl⟩,
        ⟨⟨calm 0, .ok none⟩, trivial⟩⟩
    have kept : ∀ move ∈ download.moves, move ≠ .drop := by
      rintro move member rfl
      exact stays member
    obtain ⟨more, result, goes, answered⟩ := (packBlobs_waits download.config download.headers
      download.digests).answers lively download.start.1 kept
    exact ⟨more, result, fun id member => (goes _ member).1, answered⟩
  · intro response answered
    obtain ⟨accepts, promises, stream, content, delivered⟩ := PackDownload.outcome answered
    have query := missingBlobs_answers download.authorized download.start accepts.count
      accepts.valid
    refine ⟨⟨_, answersWith_iff query, PackDownload.served_reported _ rfl⟩,
      ⟨List.length_filter_le _ _, digestTotal_filter _ _,
        lt_of_le_of_lt accepts.limit download.config.maxBlobBytes.toNat_lt, accepts.fits⟩,
      promises, stream, content, ?_⟩
    · cases unbroken : stream.broken with
      | true => exact .inl rfl
      | false =>
          obtain ⟨entries, packs, length⟩ :=
            PackDownload.delivered_packs accepts delivered unbroken
          refine .inr ⟨length, entries, packs, ?_⟩
          intro named N _ upload reuploads
          exact PackDownload.packs_pass accepts promises packs length named reuploads

end

section Two
attribute [local instance] Specimen.protocol

def twoVisible : Working MemoryMetadata :=
  ⟨{ ServerState.initial MemoryMetadata with
      metadata := ⟨fun _ _ => none, fun ns digest => ns = "team" ∧
        (digest = Specimen.zeroDigest ∨ digest = Specimen.emptyDigest), fun _ _ => none⟩ },
    fun _ _ _ present => by cases present⟩

def finding (bytes : Bytes) : WildChoice :=
  ⟨calm 0, .ok (some ⟨UInt64.ofNat bytes.length, ⟨[bytes], false⟩⟩)⟩

def twoDownload : PackDownload MemoryMetadata where
  ns := "team"
  config := ⟨1024, 4, false⟩
  headers := ⟨fun _ => .ok "team", granted_named Specimen.team, none, none, none, none⟩
  digests := [Specimen.zeroDigest, ⟨"sha256", Specimen.zeroSha256, 1⟩, Specimen.emptyDigest,
    Specimen.zeroDigest]
  start := twoVisible
  moves := List.replicate 3 (.main (finding [])) ++ [.task 1 (finding []), .task 0 (finding [0]),
    .main (finding []), .main ⟨calm 1, .ok none⟩]
  authorized := rfl
  unaborted := by simp

def twoDownloaded : Response where
  status := .ok
  headers := [("content-type", "application/vnd.mbx.cache-blob-pack.v1"),
    ("content-length", "91"), ("mbx-cache-pack-blobs", "2"), ("mbx-cache-pack-bytes", "1")]
  content := .stream ⟨[blobPackMagic,
    1 :: ((Hex.decode Specimen.zeroBlake3).getD [] ++ [0, 0, 0, 0, 0, 0, 0, 1]), [0],
    1 :: ((Hex.decode Specimen.emptyBlake3).getD [] ++ [0, 0, 0, 0, 0, 0, 0, 0]), []], false⟩

def returnedFrames (byte : UInt8) : List Entry :=
  [⟨Specimen.zeroDigest, [byte]⟩, ⟨Specimen.emptyDigest, []⟩]

theorem returnedFrames_valid (byte : UInt8) : ∀ entry ∈ returnedFrames byte, entry.Valid := by
  have zero : Specimen.zeroDigest.validate = true := by decide +kernel
  have empty : Specimen.emptyDigest.validate = true := by decide +kernel
  simp only [returnedFrames, List.forall_mem_cons]
  exact ⟨⟨zero, rfl⟩, ⟨empty, rfl⟩, by simp⟩

theorem returnedFrames_limits (byte : UInt8) : WithinLimits (returnedFrames byte) 1 2 1 where
  size := by
    simp only [returnedFrames, List.forall_mem_cons]
    exact ⟨by decide, by decide, by simp⟩
  blobs := le_rfl
  payloadBytes := le_rfl

theorem two_named {entries : List Entry} {stream : ByteStream}
    (content : twoDownloaded.content = .stream stream)
    (packs : twoDownload.Packs entries stream.chunks.flatten) :
    ∀ entry ∈ entries, entry.digest.Names entry.payload := by
  obtain ⟨listed, encoded, lengths⟩ := packs
  cases content
  have served : twoDownload.served = [Specimen.zeroDigest, Specimen.emptyDigest] := by
    decide +kernel
  rw [served] at listed
  match entries, listed with
  | [⟨_, one⟩, ⟨_, other⟩], rfl =>
      have first : one.length = 1 := lengths _ List.mem_cons_self
      have second : other.length = 0 := lengths _ (List.mem_cons_of_mem _ List.mem_cons_self)
      obtain ⟨byte, rfl⟩ := List.length_eq_one_iff.mp first
      obtain rfl := List.length_eq_zero_iff.mp second
      have same : returnedFrames byte = returnedFrames 0 :=
        encode_inj encoded (by decide +kernel) (returnedFrames_valid byte) (returnedFrames_valid 0)
          (returnedFrames_limits byte) (returnedFrames_limits 0)
      obtain rfl : byte = 0 := by simpa [returnedFrames] using same
      intro entry member
      simp only [List.mem_cons, List.not_mem_nil, or_false] at member
      rcases member with rfl | rfl <;> exact ⟨rfl, .blake3, rfl, by decide +kernel⟩

theorem two_returned : ∃ stream entries, twoDownloaded.content = .stream stream ∧
    twoDownload.Packs entries stream.chunks.flatten ∧
    ∀ upload : PackAttempt MemoryMetadata,
      Reuploads twoDownload.config twoDownloaded stream.chunks.flatten upload → Passes upload := by
  have answered : twoDownload.reached.2.answer = some (.ok twoDownloaded) := by decide +kernel
  obtain ⟨-, -, -, stream, content, broken | ⟨-, entries, packs, passes⟩⟩ :=
    (served_pack_returns twoDownload).2 twoDownloaded answered
  · cases content
    cases broken
  · exact ⟨stream, entries, content, packs, passes (two_named content packs) MemoryMetadata⟩

end Two
end MbxCache
