import MbxCache.Metadata.Memory
import MbxCache.Server.Published
import MbxCache.Server.SpoolRuns
import MbxCache.Specimen

namespace MbxCache

open Concurrent Pack

/-- Frames that may still be stored when the next one begins: the last of those before it, and
fewer others than are stored at once. -/
structure Waiting (limit : Nat) (before waiting : List Entry) : Prop where
  among : waiting.Sublist before
  few : waiting.length ≤ limit
  last : waiting.getLast? = before.getLast?

def permitsTotal (entries : List Entry) : Nat :=
  (entries.map fun entry => permitsFor entry.digest.size).sum

/-- Every frame finds room beside those that may still be stored when it begins, and its permits
can be counted. -/
def PackFits (limit budget : Nat) (entries : List Entry) : Prop :=
  ∀ before entry, before ++ [entry] <+: entries → permitsFor entry.digest.size < 2 ^ 32 ∧
    ∀ waiting, Waiting limit before waiting →
      permitsTotal waiting + permitsFor entry.digest.size ≤ budget

def entriesAt (entries : List Entry) (places : List Nat) : List Entry :=
  (entries.zipIdx.filter fun pair => pair.2 ∈ places).map Prod.fst

section Places
variable {entries : List Entry} {places : List Nat}

theorem entriesAt_sublist (entries : List Entry) (places : List Nat) :
    (entriesAt entries places).Sublist entries := by
  have sub := (List.filter_sublist (l := entries.zipIdx)
    (p := fun pair => decide (pair.2 ∈ places))).map Prod.fst
  rwa [List.zipIdx_map_fst] at sub

theorem places_perm (distinct : places.Nodup) (within : ∀ place ∈ places, place < entries.length) :
    ((entries.zipIdx.filter fun pair => pair.2 ∈ places).map Prod.snd).Perm places := by
  apply (List.perm_ext_iff_of_nodup ?_ distinct).mpr
  · intro place
    constructor
    · intro member
      obtain ⟨pair, among, rfl⟩ := List.mem_map.mp member
      simpa using (List.mem_filter.mp among).2
    · intro member
      apply List.mem_map.mpr
      have found := List.getElem?_eq_getElem (within place member)
      refine ⟨(_, place), List.mem_filter.mpr ⟨List.mem_zipIdx_iff_getElem?.mpr found, ?_⟩, rfl⟩
      simpa using member
  · apply List.Nodup.sublist ((List.filter_sublist).map Prod.snd)
    rw [List.zipIdx_map_snd]
    exact List.nodup_range'

theorem permitsTotal_entriesAt (distinct : places.Nodup)
    (within : ∀ place ∈ places, place < entries.length) :
    permitsTotal (entriesAt entries places) =
      (places.map fun place =>
        (entries[place]?.map fun entry => permitsFor entry.digest.size).getD 0).sum := by
  have parts := ((places_perm distinct within).map fun place =>
    (entries[place]?.map fun entry => permitsFor entry.digest.size).getD 0).sum_eq
  rw [← parts, permitsTotal, entriesAt, List.map_map, List.map_map]
  congr 1
  apply List.map_congr_left
  rintro ⟨entry, place⟩ member
  have found := List.mem_zipIdx_iff_getElem?.mp (List.mem_of_mem_filter member)
  simp only [Function.comp, found, Option.map_some, Option.getD_some]

theorem entriesAt_last (fresh : ∀ count, entries.length = count + 1 → count ∈ places) :
    (entriesAt entries places).getLast? = entries.getLast? := by
  induction entries using List.reverseRecOn with
  | nil => rfl
  | append_singleton front last _ =>
      have named := fresh front.length (by simp)
      simp [entriesAt, List.zipIdx_append, named]

theorem entriesAt_length (distinct : places.Nodup)
    (within : ∀ place ∈ places, place < entries.length) :
    (entriesAt entries places).length = places.length := by
  have same := (places_perm distinct within).length_eq
  rwa [List.length_map, ← List.length_map Prod.fst] at same

end Places

/-- An upload as it should be: a blob within the limit, or a pack of such, not more of them than
a batch may have nor longer together than the limit. -/
inductive LegalUpload [Protocol] (config : ServerConfig)
  | blob (headers : Headers) (parts : String × String × UInt64) (body : Body) (digest : Digest)
      (parsed : parseDigest parts = .ok digest) (small : digest.size ≤ config.maxBlobBytes)
  | pack (headers : Headers) (body : Body) (entries : List Entry) (blobs bytes : UInt64)
      (declares : declared config headers = .ok (blobs, bytes))
      (encoded : encode entries = .ok body.chunks.flatten)
      (valid : ∀ entry ∈ entries, entry.Valid)
      (limits : WithinLimits entries config.maxBlobBytes blobs bytes)

/-- Every reservation that an upload will ask for can be made while nobody else holds one. -/
def LegalUpload.Fits [Protocol] {config : ServerConfig} (maxSpoolBytes : UInt64) :
    LegalUpload config → Prop
  | .blob _ _ _ digest _ _ => 0 < maxSpoolBytes → permitsFor digest.size < 2 ^ 32
  | .pack _ _ entries _ _ _ _ _ _ => ∀ budget, spoolBudget maxSpoolBytes = some budget →
      PackFits (max 1 config.packStoreConcurrency) budget entries

def LegalUpload.request [Protocol] {config : ServerConfig} : LegalUpload config → UploadRequest
  | .blob headers parts body _ _ _ => .blob headers parts body
  | .pack headers body _ _ _ _ _ _ _ => .pack headers body

section
variable [Protocol] {M : Type} [MetadataStore M]

def askedRoom (owner : Owner (spoolEstate M) (Except ApiError Response)) : Option UInt64 :=
  if owner.process.dropped then none
  else
    match owner.process.main with
    | .call (.reserve bytes) _ => some bytes
    | _ => none

theorem askedRoom_eq {owner : Owner (spoolEstate M) (Except ApiError Response)} {bytes : UInt64}
    (asked : askedRoom owner = some bytes) : owner.process.dropped = false ∧
      ∃ next, owner.process.main = .call (.reserve bytes) next := by
  unfold askedRoom at asked
  split at asked
  · cases asked
  · rename_i live
    split at asked
    · rename_i next head
      cases asked
      exact ⟨by simpa using live, next, head⟩
    · cases asked

def SpoolRoom (budget : Option Nat) (bytes : UInt64) (trail : Trail (spoolEstate M)) : Prop :=
  ∀ limit, budget = some limit → trail.hand = [] ∧ permitsFor bytes < 2 ^ 32 ∧
    ∃ pending : List Nat, pending.Nodup ∧
      (∀ id < trail.started.length, id ∈ trail.joined ∨ id ∈ pending) ∧
      (pending.map fun id => (trail.started[id]?.map Job.permits).getD 0).sum +
        permitsFor bytes ≤ limit

theorem Intake.Tally.room {intake : Intake} {sum : Assembled} {up : Uploading}
    {trail : Trail (spoolEstate M)} {digest : Digest} {entries : List Entry} {last : PackReader}
    {budget : Option Nat} (tally : intake.Tally sum up trail) (fresh : Intake.Fresh sum up)
    (opens : intake.Opens sum digest) (whole : Unpacks intake.reader intake.body.chunks entries last)
    (fits : ∀ limit, budget = some limit → PackFits intake.limit limit entries) :
    SpoolRoom budget digest.size trail := by
  intro limit bounded
  obtain ⟨closed, more, late, reaches, received⟩ := opens
  obtain ⟨payload, next⟩ := Received.opens received reaches rfl whole
  obtain ⟨small, room⟩ := fits limit bounded _ _ next
  have frame := tally.frame
  rw [closed] at frame
  have distinct : (trail.joined ++ up.stores).Nodup :=
    tally.pending.nodup_iff.mpr List.nodup_range
  have stores := (List.nodup_append.mp distinct).2.1
  have count : trail.started.length = sum.entries.length := by
    rw [tally.started, List.length_map]
  have within : ∀ id ∈ up.stores, id < sum.entries.length := by
    intro id member
    rw [← count]
    exact List.mem_range.mp (tally.pending.subset (List.mem_append_right _ member))
  refine ⟨?_, small, up.stores, stores, ?_, ?_⟩
  · cases held : up.frame with
    | none =>
        rw [held] at frame
        exact frame
    | some spool =>
        rw [held] at frame
        exact frame.elim
  · intro id old
    exact List.mem_append.mp (tally.pending.symm.subset (List.mem_range.mpr old))
  · have waiting : Waiting intake.limit sum.entries (entriesAt sum.entries up.stores) :=
      ⟨entriesAt_sublist _ _, by rw [entriesAt_length stores within]; exact tally.few,
        entriesAt_last fresh⟩
    have enough := room _ waiting
    rw [permitsTotal_entriesAt stores within] at enough
    have same : ∀ id : Nat, (trail.started[id]?.map Job.permits).getD 0 =
        (sum.entries[id]?.map fun entry : Entry => permitsFor entry.digest.size).getD 0 := by
      intro id
      rw [tally.started, List.getElem?_map, Option.map_map]
      rfl
    simp only [same]
    exact enough

namespace SpoolRun
variable {run : SpoolRun M}

theorem room_granted {id : Nat} {owner : Owner (spoolEstate M) (Except ApiError Response)}
    {post : Except ApiError Response → Trail (spoolEstate M) → Prop}
    (present : run.uploads.owners[id]? = some owner)
    (keeps : (spoolLedger run.bounded (SpoolRoom (spoolBudget run.maxSpoolBytes))).Keeps post owner)
    (alone : ∀ other actor, run.uploads.owners[other]? = some actor → other ≠ id →
      actor.holdings = [])
    {bytes : UInt64} (asked : askedRoom owner = some bytes) :
    ∃ granted, Spool.reserved run.uploads.shared.available bytes = .ok granted := by
  obtain ⟨live, next, head⟩ := askedRoom_eq asked
  obtain ⟨sound, whole⟩ := run.accounted run.events
  change run.accounts.wealth run.uploads = _ at whole
  cases available : run.uploads.shared.available with
  | none => exact ⟨_, rfl⟩
  | some left =>
      have limited : (spoolBudget run.maxSpoolBytes).isSome = true := by
        rw [run.budget_isSome, ← show run.uploads.shared.available.isSome = run.bounded from
          sound.ready, available]
        rfl
      obtain ⟨limit, budget⟩ := Option.isSome_iff_exists.mp limited
      obtain ⟨empty, small, pending, distinct, covers, room⟩ := keeps.allowed live head limit budget
      have owed := keeps.owed distinct covers
      have mine : run.accounts.total owner.holdings = run.accounts.total owner.hands.flatten := by
        rw [Owner.holdings, show owner.hand = [] from empty, List.nil_append]
      have all : (run.uploads.owners.map fun owner => run.accounts.total owner.holdings).sum =
          run.accounts.total owner.holdings := by
        apply sum_map_alone (fun owner => run.accounts.total owner.holdings) present
        intro other actor found differs
        simp only [alone other actor found differs]
        rfl
      have enough : permitsFor bytes ≤ left := by
        have parts : left + run.accounts.total owner.holdings = limit := by
          rw [Ledger.wealth, all, budget] at whole
          simpa [accounts, spoolLedger, available] using whole
        have owed : run.accounts.total owner.hands.flatten ≤
          (pending.map fun id => (owner.trail.started[id]?.map Job.permits).getD 0).sum := owed
        omega
      refine ⟨(some (left - permitsFor bytes), ⟨bytes, permitsFor bytes, none⟩), ?_⟩
      rw [Spool.reserved, if_neg (Nat.not_le_of_lt small), if_neg (Nat.not_lt_of_le enough)]

end SpoolRun

/-- An upload that begins after some others, and everything that happens from then on, on a
server that has been configured as it must be. -/
structure LoneUpload (M : Type) [Protocol] [MetadataStore M] where
  before : SpoolRun M
  upload : LegalUpload before.config
  later : List (Event UploadRequest SpoolChoice)
  accepted : before.maxSpoolBytes = 0 ∨ before.config.maxBlobBytes ≤ before.maxSpoolBytes
  concurrency : 1 ≤ before.config.packStoreConcurrency

namespace LoneUpload
variable (lone : LoneUpload M)

def run : SpoolRun M :=
  { lone.before with
    events := lone.before.events ++ .start lone.upload.request :: lone.later }

def id : Nat := lone.before.uploads.owners.length

def Alone : Prop :=
  ∀ other actor, lone.run.uploads.owners[other]? = some actor → other ≠ lone.id →
    actor.holdings = []

def Granted : Prop :=
  ∀ owner bytes, lone.run.uploads.owners[lone.id]? = some owner → askedRoom owner = some bytes →
    ∃ granted, Spool.reserved lone.run.uploads.shared.available bytes = .ok granted

variable {lone}

omit [Protocol] in
theorem blob_fits {size maxBlobBytes maxSpoolBytes : UInt64} {limit : Nat}
    (accepted : maxSpoolBytes = 0 ∨ maxBlobBytes ≤ maxSpoolBytes) (small : size ≤ maxBlobBytes)
    (few : permitsFor size < 2 ^ 32) (budget : spoolBudget maxSpoolBytes = some limit) :
    permitsFor size ≤ limit := by
  unfold spoolBudget at budget
  split at budget
  · rename_i positive
    cases budget
    have within : size.toNat ≤ maxSpoolBytes.toNat := by
      rcases accepted with rfl | enough
      · exact absurd positive (by decide)
      · exact Nat.le_trans small enough
    have most : (2 : Nat) ^ 32 ≤ maxPermits := by decide
    unfold permitsFor at few ⊢
    omega
  · cases budget

/-- By its own account, an upload that fits only asks for room that is there. -/
theorem safe (fits : lone.upload.Fits lone.before.maxSpoolBytes) :
    (spoolLedger (M := M) lone.run.bounded (SpoolRoom (spoolBudget lone.before.maxSpoolBytes))).Safe
      (lone.upload.request.program lone.before.config) (fun _ after => after.hand = [])
      ⟨[], [], []⟩ := by
  cases upload : lone.upload with
  | blob headers parts body digest parsed small =>
      rw [upload] at fits
      apply Spool.putBlob_safe lone.before.config headers parts body rfl
      intro other parsed' _ limit budget
      cases parsed.symm.trans parsed'
      have positive : 0 < lone.before.maxSpoolBytes := by
        unfold spoolBudget at budget
        split at budget
        · assumption
        · cases budget
      have few : permitsFor digest.size < 2 ^ 32 := fits positive
      refine ⟨rfl, few, [], .nil, nofun, ?_⟩
      rw [List.map_nil, List.sum_nil, Nat.zero_add]
      exact blob_fits lone.accepted small few budget
  | pack headers body entries blobs bytes declares encoded valid limits =>
      rw [upload] at fits
      apply Intake.putBlobPack_safe lone.before.config headers body
      intro ns blobs' bytes' declares' sum up trail digest tally fresh opens
      cases declares.symm.trans declares'
      obtain ⟨last, whole⟩ := whole_iff.mpr ⟨encoded, valid, limits⟩
      exact tally.room fresh opens whole fits

/-- At any moment, an upload that fits is given all the room it asks for, as long as no other
holds a reservation. -/
theorem granted_when_fits (lone : LoneUpload M) (fits : lone.upload.Fits lone.before.maxSpoolBytes)
    (alone : lone.Alone) : lone.Granted := by
  intro owner bytes present asked
  obtain ⟨sound, _⟩ := lone.before.accounted lone.before.events
  have handler := lone.before.request_safe
  have begun := (sound.step handler (.start lone.upload.request)).1
  have first : ((lone.before.after lone.before.events).step
      (UploadRequest.program lone.before.config) (.start lone.upload.request)).owners[lone.id]? =
      some ((spoolEstate M).start (lone.upload.request.program lone.before.config)) :=
    List.getElem?_concat_length
  have keeps : (spoolLedger (M := M) lone.run.bounded
      (SpoolRoom (spoolBudget lone.before.maxSpoolBytes))).Keeps (fun _ after => after.hand = [])
      ((spoolEstate M).start (lone.upload.request.program lone.before.config)) :=
    ⟨fun _ => safe fits, rfl, nofun, nofun, nofun⟩
  have shares : ∀ state, lone.before.accounts.Ready state → (spoolLedger (M := M)
      lone.run.bounded (SpoolRoom (spoolBudget lone.before.maxSpoolBytes))).Ready state :=
    fun _ ready => ready
  obtain ⟨later, found, keeps⟩ := begun.keeps handler shares first keeps lone.later
  have same : lone.run.uploads = Estate.Pool.run (UploadRequest.program lone.before.config)
      ((lone.before.after lone.before.events).step (UploadRequest.program lone.before.config)
        (.start lone.upload.request)) lone.later := by
    unfold SpoolRun.uploads SpoolRun.after Estate.Pool.run
    exact List.foldl_append
  rw [← same, present] at found
  cases found
  exact SpoolRun.room_granted present keeps alone asked

end LoneUpload
end

section Tiny

attribute [local instance] Specimen.protocol

def zeroFrame : Entry := ⟨Specimen.zeroDigest, [0]⟩

theorem zeroFrame_valid : ∀ entry ∈ List.replicate 2 zeroFrame, entry.Valid := by
  intro entry member
  cases List.eq_of_mem_replicate member
  exact ⟨by decide, rfl⟩

theorem zeroFrame_within : WithinLimits (List.replicate 2 zeroFrame) 2 2 2 := by
  refine ⟨?_, by decide, by decide⟩
  intro entry member
  cases List.eq_of_mem_replicate member
  decide

/-- Two frames of one byte each, on a server that takes two bytes in all, up to where the second
one asks for room while the first is still stored. -/
def twoFrames (maxSpoolBytes : UInt64) (enough : 2 ≤ maxSpoolBytes) :
    LoneUpload MemoryMetadata where
  before := ⟨⟨2, 8, true⟩, maxSpoolBytes, .initial MemoryMetadata, []⟩
  upload := .pack
    ⟨fun _ => .ok "team", granted_named Specimen.team, none, none, some "2", some "2"⟩
    ⟨[blobPackMagic, (encodeFrames (List.replicate 2 zeroFrame)).toOption.getD []], none⟩
    (List.replicate 2 zeroFrame) 2 2 rfl rfl zeroFrame_valid zeroFrame_within
  later := List.replicate 5 (.turn 0 (.move (.main ⟨⟨.none, [], false, false, 0, 0⟩, 0⟩)))
  accepted := .inr enough
  concurrency := Nat.le_add_left 1 7

theorem twoFrames_alone {maxSpoolBytes : UInt64} {enough : 2 ≤ maxSpoolBytes}
    (one : (twoFrames maxSpoolBytes enough).run.uploads.owners.length = 1) :
    (twoFrames maxSpoolBytes enough).Alone := by
  intro other actor found differs
  obtain ⟨bound, _⟩ := List.getElem?_eq_some_iff.mp found
  rw [one, Nat.lt_one_iff] at bound
  exact absurd bound differs

/-- A pack may be refused for the room its own frames take, though it is smaller than the
spool. -/
theorem tiny_pack_refused :
    (twoFrames 2 (by decide)).Alone ∧ ¬ (twoFrames 2 (by decide)).Granted := by
  refine ⟨twoFrames_alone (by decide +kernel), ?_⟩
  intro granted
  have asked : ((twoFrames 2 (by decide)).run.uploads.owners[0]?).bind askedRoom = some 1 := by
    decide +kernel
  have full : (twoFrames 2 (by decide)).run.uploads.shared.available = some 0 := by
    decide +kernel
  obtain ⟨owner, present, asks⟩ := Option.bind_eq_some_iff.mp asked
  obtain ⟨_, wrong⟩ := granted owner 1 present asks
  rw [full, Spool.reserved, if_neg (by decide), if_pos (by decide)] at wrong
  cases wrong

/-- On a server with room for two permits it is not. -/
theorem two_frames_granted : (twoFrames 2048 (by decide)).Granted := by
  apply LoneUpload.granted_when_fits
  · have two : spoolBudget 2048 = some 2 := by decide
    intro budget limited before entry next
    rw [show (twoFrames 2048 (by decide)).before.maxSpoolBytes = 2048 from rfl, two] at limited
    cases limited
    have single : ∀ entry ∈ List.replicate 2 zeroFrame, permitsFor entry.digest.size = 1 := by
      intro entry member
      cases List.eq_of_mem_replicate member
      rfl
    have member : entry ∈ List.replicate 2 zeroFrame :=
      next.subset (List.mem_append_right _ (List.mem_singleton_self _))
    rw [single entry member]
    refine ⟨by decide, fun waiting waits => ?_⟩
    have short := next.length_le
    rw [List.length_append, List.length_singleton, List.length_replicate] at short
    have fewer := waits.among.length_le
    have total : permitsTotal waiting = waiting.length := by
      rw [permitsTotal, List.map_congr_left fun entry among => single entry
        (next.subset (List.mem_append_left _ (waits.among.subset among)))]
      simp
    omega
  · exact twoFrames_alone (by decide +kernel)

end Tiny
end MbxCache
