import Mathlib.Data.Set.Card
import MbxCache.Server.DanglingPack
import MbxCache.Server.PackBatch
import MbxCache.Server.PackRoundTrip
import MbxCache.Server.Router

/-! Dangling rows disappear as they are read, and uploads bring rows back. -/

namespace MbxCache

open Concurrent ServerState Pack

inductive ContentRead
  | getBlob (headers : Headers) (parts : String × String × UInt64)
  | packBlobs (headers : Headers) (digests : List Digest)
  | putActionResult (headers : Headers) (parts : String × String × UInt64) (result : ActionResult)

def ContentRead.request : ContentRead → Request
  | .getBlob headers parts => .getBlob headers parts
  | .packBlobs headers digests => .packBlobs headers digests
  | .putActionResult headers parts result => .putActionResult headers parts result

def Failed : Except ApiError Response → Prop
  | .error _ => True
  | .ok response => ∃ stream, response.content = .stream stream ∧ stream.broken = true

section Heal
variable [Protocol] {M : Type} [MetadataStore M]

structure Trial (M : Type) [MetadataStore M] (handler : Handler Response)
    (before : ServerState M) where
  moves : List (Move Choice)
  admitted : ∀ move ∈ moves, (undisturbed M).Admits move

structure ReadAttempt (M : Type) [MetadataStore M] (handler : Handler Response)
    (before : ServerState M) extends Trial M handler before where
  result : Except ApiError Response
  answered : ((server M).run before (.start handler) moves).2.answer = some result

section
variable {handler : Handler Response} {before : ServerState M}

def Trial.after (trial : Trial M handler before) : ServerState M :=
  ((server M).run before (.start handler) trial.moves).1

def Trial.Asks (trial : Trial M handler before) (digest : Digest) : Prop :=
  ∃ front move back choice, trial.moves = front ++ move :: back ∧
    (server M).carries ((server M).run before (.start handler) front).2 move =
      some (choice, .get digest)

variable (handler before) in
/-- The handler no longer asks for an absent object. -/
def Quiet : Prop :=
  ∀ (trial : Trial M handler before) digest, trial.Asks digest → before.blobs digest ≠ none

/-- Either the handler asks for no absent object, or all its attempts fail and mend a row. -/
inductive Heals (ns : String) (handler : Handler Response) (before : ServerState M) : Prop
  | quiet (quiet : Quiet handler before)
      (keeps : ∀ attempt : ReadAttempt M handler before, before.Forgets ns attempt.after)
  | mends (mends : ∀ attempt : ReadAttempt M handler before,
      Failed attempt.result ∧ before.Mends ns attempt.after)

theorem Heals.forgets {ns : String} (heals : Heals ns handler before)
    (attempt : ReadAttempt M handler before) : before.Forgets ns attempt.after := by
  cases heals with
  | quiet _ keeps => exact keeps attempt
  | mends mends => exact (mends attempt).2.toForgets

theorem Heals.asked {ns : String} (heals : Heals ns handler before)
    (attempt : ReadAttempt M handler before) {digest : Digest} (asks : attempt.Asks digest)
    (absent : before.blobs digest = none) :
    Failed attempt.result ∧ before.Mends ns attempt.after := by
  cases heals with
  | quiet quiet _ => exact absurd absent (quiet attempt.toTrial digest asks)
  | mends mends => exact mends attempt

theorem Handler.Tries.heals {ns : String}
    (tries : handler.Tries ns (fun _ after => before.Forgets ns after) before) :
    Heals ns handler before := by
  cases tries with
  | quiet confined answers =>
      refine .quiet ?_ fun attempt => ?_
      · rintro trial digest ⟨front, move, back, choice, split, carried⟩
        refine Program.Confined.carries confined (fun made member => ?_) carried
        exact trial.admitted _ (by rw [split]; exact List.mem_append_left _ member)
      · exact Program.Ends.answered answers (fun made member => attempt.admitted _ member)
          attempt.answered
  | mends answers =>
      refine .mends fun attempt => ?_
      obtain ⟨⟨error, same⟩, mends⟩ := Program.Ends.answered answers
        (fun made member => attempt.admitted _ member) attempt.answered
      rw [same]
      exact ⟨trivial, mends⟩

theorem Handler.Answers.attempt {post : Except ApiError Response → ServerState M → Prop}
    (answers : handler.Answers post before) : Nonempty (ReadAttempt M handler before) := by
  obtain ⟨count, result, answered, _⟩ := Program.Ends.answers answers (fun _ => calm 0)
    (fun _ => calm_clean 0) []
  refine ⟨⟨⟨_, fun move member => ?_⟩, result, answered⟩⟩
  obtain ⟨_, _, rfl⟩ := List.mem_map.mp member
  exact calm_clean 0

theorem Handler.Tries.attempt {ns : String}
    {post : Except ApiError Response → ServerState M → Prop} (tries : handler.Tries ns post before) :
    Nonempty (ReadAttempt M handler before) := by
  cases tries with
  | quiet _ answers => exact answers.attempt
  | mends answers => exact answers.attempt

end

section Pack
variable {lossy : Lossy M} {config : ServerConfig} {headers : Headers} {ns : String}
  {digests : List Digest}

theorem packBlobs_holds (authorized : headers.authorize .read = .ok ns)
    {moves : List (Move Choice)} (admitted : ∀ move ∈ moves, (undisturbed M).Admits move) :
    (lonePack lossy config ns digests).Holds
      (fun result after => Explained lossy config ns digests result after.1.state)
      ((server M).run lossy.state (.start (packBlobs config headers digests)) moves) := by
  have opens : (lonePack lossy config ns digests).Inv
      (World.of lossy.state (Process.start (packBlobs config headers digests))) :=
    ⟨fun _ => rfl, Forgets.refl lossy.valid, fun id task found => by cases found⟩
  have holds : (lonePack lossy config ns digests).Holds
      (fun result after => Explained lossy config ns digests result after.1.state)
      (lossy.state, Process.start (packBlobs config headers digests)) :=
    ⟨opens, packBlobs_mends authorized rfl⟩
  exact holds.run admitted

theorem packBlobs_asks (authorized : headers.authorize .read = .ok ns)
    (trial : Trial M (packBlobs config headers digests) lossy.state) {digest : Digest}
    (asks : trial.Asks digest) : Wanted lossy config ns digests digest := by
  obtain ⟨front, move, back, choice, split, carried⟩ := asks
  have holds : (lonePack lossy config ns digests).Holds _
      ((server M).run lossy.state (.start (packBlobs config headers digests)) front) :=
    packBlobs_holds authorized fun made member =>
      trial.admitted made (by rw [split]; exact List.mem_append_left _ member)
  generalize (server M).run lossy.state (.start (packBlobs config headers digests)) front = reached
    at holds carried
  cases move with
  | main made =>
      simp only [Machine.carries] at carried
      split at carried
      · cases carried
      · split at carried
        · rename_i head
          cases carried
          obtain ⟨_, _, wrong⟩ := holds.asks head
          cases wrong
        · cases carried
  | task id made =>
      simp only [Machine.carries] at carried
      split at carried
      · cases carried
      · rename_i task found
        split at carried
        · cases carried
        · split at carried
          · rename_i head
            cases carried
            obtain ⟨opens, _⟩ := holds
            obtain ⟨_, other, wants, mending⟩ := opens.tasks id task found
            rw [head] at mending
            cases mending with
            | start => exact wants
          · cases carried
  | abort id => cases carried
  | drop => cases carried

theorem packBlobs_fails (authorized : headers.authorize .read = .ok ns)
    (attempt : ReadAttempt M (packBlobs config headers digests) lossy.state) {digest : Digest}
    (wants : Wanted lossy config ns digests digest) (absent : lossy.state.blobs digest = none) :
    ∃ response stream, attempt.result = .ok response ∧ response.content = .stream stream ∧
      stream.broken = true := by
  have outcome : (quiet ⟨lossy.state, lossy.valid⟩).Outcome config ns digests attempt.result :=
    (quiet ⟨lossy.state, lossy.valid⟩).packBlobs_outcome config headers digests authorized
      attempt.admitted attempt.answered
  cases came : attempt.result with
  | error error =>
      rw [came] at outcome
      exact (outcome.elim (fun refused => refused wants.1) False.elim).elim
  | ok response =>
      rw [came] at outcome
      obtain ⟨_, _, stream, content, delivered⟩ := outcome
      refine ⟨response, stream, rfl, content, ?_⟩
      cases delivered with
      | broken => rfl
      | complete entries chunks listed encoded whole =>
          have member : digest ∈ entries.map (·.digest) := by
            rw [listed]
            exact wants.2
          obtain ⟨entry, among, rfl⟩ := List.mem_map.mp member
          obtain ⟨found, payload, finds, whole, _⟩ := whole entry among
          have stored := ((quiet_whole finds).1 payload whole).1
          rw [absent] at stored
          cases stored

theorem packBlobs_heals (authorized : headers.authorize .read = .ok ns) :
    Heals ns (packBlobs config headers digests) lossy.state := by
  have ended : ∀ attempt : ReadAttempt M (packBlobs config headers digests) lossy.state,
      lossy.state.Forgets ns attempt.after ∧
        Explained lossy config ns digests attempt.result attempt.after := by
    intro attempt
    have holds : (lonePack lossy config ns digests).Holds _ _ :=
      packBlobs_holds authorized attempt.admitted
    obtain ⟨opens, explained⟩ := holds.answer attempt.answered
    exact ⟨opens.forgets, explained⟩
  by_cases lacks : ∃ digest, Wanted lossy config ns digests digest ∧
      lossy.state.blobs digest = none
  · obtain ⟨digest, wants, absent⟩ := lacks
    refine .mends fun attempt => ?_
    obtain ⟨forgets, explained⟩ := ended attempt
    obtain ⟨response, stream, same, content, broken⟩ := packBlobs_fails authorized attempt wants absent
    obtain ⟨other, wanted, lost, gone⟩ := explained response stream same content broken
    have seen : lossy.state.Sees ns other := (List.mem_filter.mp wanted.2).2
    rw [same]
    exact ⟨⟨stream, content, broken⟩, forgets, other, ⟨seen, lost⟩, gone⟩
  · refine .quiet ?_ fun attempt => (ended attempt).1
    intro trial digest asks absent
    exact lacks ⟨digest, packBlobs_asks authorized trial asks, absent⟩

end Pack

namespace ContentRead

variable (request : ContentRead) (config : ServerConfig) (lossy : Lossy M)

theorem heals {ns : String} (authorized : request.request.authorized = .ok ns) :
    Heals ns (request.request.handler config) lossy.state := by
  cases request with
  | getBlob headers parts => exact (getBlob_tries lossy.valid authorized parts).heals
  | packBlobs headers digests => exact packBlobs_heals authorized
  | putActionResult headers parts result =>
      exact (putActionResult_tries lossy.valid authorized parts result).heals

theorem unauthorized_quiet {error : ApiError}
    (refused : request.request.authorized = .error error) :
    Quiet (request.request.handler config) lossy.state ∧
      ∀ attempt : ReadAttempt M (request.request.handler config) lossy.state,
        attempt.after = lossy.state := by
  rw [Request.handler_refused config _ refused]
  have answers : (Handler.refuse error : Handler Response).Answers
      (fun _ after => after = lossy.state) lossy.state := Handler.Answers.refuse rfl
  constructor
  · rintro trial digest ⟨front, move, back, choice, split, carried⟩
    have confined : (Handler.refuse error : Handler Response).Confined lossy.state := trivial
    refine Program.Confined.carries confined (fun made member => ?_) carried
    exact trial.admitted _ (by rw [split]; exact List.mem_append_left _ member)
  · exact fun attempt => Program.Ends.answered answers
      (fun made member => attempt.admitted _ member) attempt.answered

theorem attempt_exists :
    Nonempty (ReadAttempt M (request.request.handler config) lossy.state) := by
  cases allowed : request.request.authorized with
  | error error =>
      rw [Request.handler_refused config _ allowed]
      have answers : (Handler.refuse error : Handler Response).Answers (fun _ _ => True)
          lossy.state := trivial
      exact answers.attempt
  | ok ns =>
      cases request with
      | getBlob headers parts => exact (getBlob_tries lossy.valid allowed parts).attempt
      | packBlobs headers digests =>
          obtain ⟨answer, moves, admitted, answered⟩ :=
            packBlobs_answers config headers ⟨lossy.state, lossy.valid⟩ digests
          exact ⟨⟨⟨moves, admitted⟩, answer, answered⟩⟩
      | putActionResult headers parts result =>
          exact (putActionResult_tries lossy.valid allowed parts result).attempt

end ContentRead

section Repeating

def Lossy.later (lossy : Lossy M) {ns : String} {after : ServerState M}
    (forgets : lossy.state.Forgets ns after) : Lossy M where
  state := after
  valid := forgets.valid
  named digest bytes stored := lossy.named digest bytes (by rw [← forgets.blobs, stored])
  finite other := (lossy.finite other).subset fun digest seen => forgets.fewer other digest seen

structure Repetition (M : Type) [MetadataStore M] (handler : Handler Response) where
  state : Nat → ServerState M
  attempt : ∀ count, ReadAttempt M handler (state count)
  next : ∀ count, state (count + 1) = (attempt count).after

/-- Mending a row leaves fewer dangling ones. -/
theorem Lossy.fewer_dangling (lossy : Lossy M) {ns : String} {after : ServerState M}
    (mends : lossy.state.Mends ns after) :
    (after.dangling ns).ncard < (lossy.state.dangling ns).ncard := by
  have finite : (lossy.state.dangling ns).Finite :=
    (lossy.finite ns).subset fun digest dangles => dangles.1
  refine Set.ncard_lt_ncard ⟨?_, ?_⟩ finite
  · rintro digest ⟨seen, absent⟩
    exact ⟨mends.fewer ns digest seen, by rw [← mends.blobs, absent]⟩
  · intro all
    obtain ⟨digest, dangles, gone⟩ := mends.mended
    exact gone (all dangles).1

namespace Repetition

variable {ns : String} {handler : Handler Response}

def tail (repeated : Repetition M handler) : Repetition M handler where
  state count := repeated.state (count + 1)
  attempt count := repeated.attempt (count + 1)
  next count := repeated.next (count + 1)

/-- A repetition comes to a state where no attempt asks for an absent object, after fewer failed
attempts than there were dangling rows. -/
theorem settles (heals : ∀ lossy : Lossy M, Heals ns handler lossy.state)
    (repeated : Repetition M handler) (lossy : Lossy M) (start : repeated.state 0 = lossy.state) :
    ∃ count ≤ (lossy.state.dangling ns).ncard, Quiet handler (repeated.state count) ∧
      (∀ earlier < count, Failed (repeated.attempt earlier).result) ∧
      MetadataStore.valid (repeated.state count).metadata ∧
      ∀ earlier ≤ count, ∀ digest, (repeated.state count).Sees ns digest →
        (repeated.state earlier).Sees ns digest := by
  induction bound : (lossy.state.dangling ns).ncard using Nat.strong_induction_on
    generalizing repeated lossy with
  | _ dangling ih =>
      have mender := heals lossy
      rw [← start] at mender
      cases mender with
      | quiet quiet _ =>
          refine ⟨0, Nat.zero_le _, quiet, fun _ none => absurd none (Nat.not_lt_zero _), ?_, ?_⟩
          · rw [start]
            exact lossy.valid
          · intro earlier first digest seen
            rw [Nat.le_zero.mp first]
            exact seen
      | mends mends =>
          obtain ⟨failed, mends⟩ := mends (repeated.attempt 0)
          have mended : lossy.state.Mends ns (repeated.state (0 + 1)) := by
            rw [repeated.next 0, ← start]
            exact mends
          have fewer := lossy.fewer_dangling mended
          obtain ⟨count, few, quiet, failures, valid, kept⟩ := ih _ (bound ▸ fewer) repeated.tail
            (lossy.later mended.toForgets) rfl rfl
          have few' : count ≤ ((repeated.state (0 + 1)).dangling ns).ncard := few
          refine ⟨count + 1, by omega, quiet, ?_, valid, ?_⟩
          · intro earlier before
            cases earlier with
            | zero => exact failed
            | succ earlier => exact failures earlier (by omega)
          · intro earlier before digest seen
            cases earlier with
            | zero =>
                rw [start]
                exact mended.fewer ns digest (kept 0 (Nat.zero_le _) digest seen)
            | succ earlier => exact kept earlier (by omega) digest seen

end Repetition

theorem ContentRead.repetition_exists (request : ContentRead) (config : ServerConfig)
    (lossy : Lossy M) {ns : String} (authorized : request.request.authorized = .ok ns) :
    ∃ repeated : Repetition M (request.request.handler config),
      repeated.state 0 = lossy.state := by
  let attempt (reached : Lossy M) : ReadAttempt M (request.request.handler config) reached.state :=
    Classical.choice (request.attempt_exists config reached)
  let states : Nat → Lossy M := Nat.rec lossy fun _ reached =>
    reached.later ((request.heals config reached authorized).forgets (attempt reached))
  exact ⟨⟨fun count => (states count).state, fun count => attempt (states count), fun _ => rfl⟩, rfl⟩

def ServerState.Reports (state : ServerState M) (ns : String) (digest : Digest) : Prop :=
  ∀ headers digests, headers.authorize .read = .ok ns → digests.length ≤ maxBatchItems →
    (∀ other ∈ digests, other.validate = true) → digest ∈ digests →
    (missingBlobs headers digests).Answers (fun result _ => ∃ missing,
      result = .ok ⟨.ok, [], .missing missing⟩ ∧ digest ∈ missing) state

theorem ServerState.reports {state : ServerState M} {ns : String} {digest : Digest}
    (valid : MetadataStore.valid state.metadata) (unseen : ¬ state.Sees ns digest) :
    state.Reports ns digest := by
  intro headers digests authorized few checked member
  refine (missingBlobs_answers authorized ⟨state, valid⟩ few checked).mono ?_
  rintro result after rfl
  exact ⟨_, rfl, List.mem_filter.mpr ⟨member, by simpa [ServerState.Sees] using unseen⟩⟩

end Repeating

section Uploading

theorem run_valid {A Req : Type} (handler : Req → Program Api A) (state : Working M)
    (actions : List (Action Req Choice)) :
    MetadataStore.valid
      ((Config.initial (server M) A state.1).run handler actions).state.metadata := by
  induction actions using List.reverseRecOn with
  | nil => exact state.2
  | append_singleton front action ih =>
      rw [Config.run_snoc, Config.step_state]
      split
      · exact ih
      · exact (exec_effect _ _ ih).1

/-- An upload of a digest to a namespace, by itself or in a pack, that is as it should be and
that nobody disturbs, and what it leaves. -/
inductive Reuploaded (config : ServerConfig) (ns : String) (digest : Digest) (before : Working M) :
    ServerState M → Prop
  | single (headers : Headers) (entry : Entry) (body : Body) (named : entry.digest = digest)
      (authorized : headers.authorize .write = .ok ns) (immutable : headers.ifNoneMatch = some "*")
      (uploadable : Uploadable M config ns entry) (content : body.chunks.flatten = entry.payload)
      (ends : body.failure = none)
      (attempt : ReadAttempt M (putBlob config headers
        (entry.digest.algorithm, entry.digest.hash, entry.digest.size) body) before.1) :
      Reuploaded config ns digest before attempt.after
  | pack (batch : PackBatch M) (start : batch.start = before) (space : batch.ns = ns)
      (settings : batch.config = config) (member : digest ∈ batch.frames.map Entry.digest)
      (result : Except ApiError Response) (answered : batch.reached.2.answer = some result) :
      Reuploaded config ns digest before batch.reached.1

omit [Protocol] in
theorem storeAll_brings {ns : String} {entries : List Entry} {shown : Objects × View}
    {digest : Digest} (member : digest ∈ entries.map Entry.digest) :
    (storeAll ns entries shown).2.visible ns digest = true ∧
      ∀ bytes, shown.1 digest = some bytes → (storeAll ns entries shown).1 digest = some bytes := by
  obtain ⟨entry, among, named⟩ := List.mem_map.mp member
  refine ⟨((storeAll_view entries shown).2.2 ns digest).mpr (.inr ⟨rfl, entry, among, named⟩), ?_⟩
  intro bytes present
  rw [storeAll_blobs, present, Option.some_or]

theorem Reuploaded.brings {config : ServerConfig} {ns : String} {digest : Digest}
    {before : Working M} {after : ServerState M}
    (uploaded : Reuploaded config ns digest before after) :
    after.Sees ns digest ∧
      ∀ bytes, before.1.blobs digest = some bytes → after.blobs digest = some bytes := by
  have brings : ∀ entries : List Entry, digest ∈ entries.map Entry.digest →
      after.shown = storeAll ns entries before.1.shown → after.Sees ns digest ∧
        ∀ bytes, before.1.blobs digest = some bytes → after.blobs digest = some bytes := by
    intro entries member shown
    obtain ⟨row, object⟩ := @storeAll_brings ns entries before.1.shown digest member
    have blobs : after.blobs = (storeAll ns entries before.1.shown).1 := congrArg Prod.fst shown
    have view : after.view = (storeAll ns entries before.1.shown).2 := congrArg Prod.snd shown
    exact ⟨by rw [ServerState.Sees, view, row], fun bytes present => by rw [blobs, object bytes present]⟩
  cases uploaded with
  | single headers entry body named authorized immutable uploadable content ends attempt =>
      obtain ⟨_, _, shown⟩ := Program.Ends.answered (putBlob_answers before.2 authorized immutable
        uploadable content ends) (fun made member => attempt.admitted _ member) attempt.answered
      exact brings [entry] (by simp [named]) shown
  | pack batch start space settings member result answered =>
      obtain ⟨_, shown⟩ := batch.answered_ok answered
      rw [space, start] at shown
      exact brings batch.frames member shown

end Uploading

/-- Rows without an object heal. A request that asks for the missing object of a row fails and
drops such a row of its namespace; made again and again, it comes to ask for present objects
only, and what was dropped is reported missing. One upload brings a row back wherever its object
is present, after whatever requests and failures. -/
theorem dangling_rows_heal (config : ServerConfig) (lossy : Lossy M) :
    (∀ request : ContentRead,
      Nonempty (ReadAttempt M (request.request.handler config) lossy.state) ∧
      (∀ attempt : ReadAttempt M (request.request.handler config) lossy.state,
        (∀ digest, attempt.Asks digest → lossy.state.blobs digest = none →
          Failed attempt.result ∧ ∃ ns, request.request.authorized = .ok ns ∧
            ∃ dropped ∈ lossy.state.dangling ns, ¬ attempt.after.Sees ns dropped) ∧
        ∀ ns digest, lossy.state.Sees ns digest → lossy.state.blobs digest ≠ none →
          attempt.after.Sees ns digest) ∧
      ∀ ns, request.request.authorized = .ok ns →
        (∃ repeated : Repetition M (request.request.handler config),
          repeated.state 0 = lossy.state) ∧
        ∀ repeated : Repetition M (request.request.handler config),
          repeated.state 0 = lossy.state →
          ∃ count ≤ (lossy.state.dangling ns).ncard,
            Quiet (request.request.handler config) (repeated.state count) ∧
            (∀ earlier < count, Failed (repeated.attempt earlier).result) ∧
            ∀ earlier ≤ count, ∀ digest, lossy.state.Sees ns digest →
              ¬ (repeated.state earlier).Sees ns digest →
              (repeated.state count).Reports ns digest) ∧
    ∀ (actions : List (Action Request Choice)) ns digest bytes after,
      let reached := (Config.initial (server M) _ lossy.state).run (Request.handler config) actions
      reached.state.blobs digest = some bytes →
      Reuploaded config ns digest
        ⟨reached.state, run_valid _ ⟨lossy.state, lossy.valid⟩ actions⟩ after →
      after.Sees ns digest ∧ after.blobs digest = some bytes := by
  refine ⟨fun request => ⟨request.attempt_exists config lossy, ?_, ?_⟩, ?_⟩
  · intro attempt
    cases allowed : request.request.authorized with
    | error error =>
        obtain ⟨quiet, unchanged⟩ := request.unauthorized_quiet config lossy allowed
        refine ⟨fun digest asks absent => absurd absent (quiet attempt.toTrial digest asks), ?_⟩
        intro ns digest seen _
        rw [unchanged attempt]
        exact seen
    | ok ns =>
        have heals := request.heals config lossy allowed
        constructor
        · intro digest asks absent
          obtain ⟨failed, mends⟩ := heals.asked attempt asks absent
          exact ⟨failed, ns, rfl, mends.mended⟩
        · intro other digest seen present
          exact ((heals.forgets attempt).kept other digest seen).resolve_right
            fun lost => present lost.2
  · intro ns authorized
    refine ⟨request.repetition_exists config lossy authorized, ?_⟩
    intro repeated start
    obtain ⟨count, few, quiet, failures, valid, kept⟩ := repeated.settles
      (fun lossy => request.heals config lossy authorized) lossy start
    refine ⟨count, few, quiet, failures, fun earlier before digest _ gone => ?_⟩
    exact ServerState.reports valid fun seen => gone (kept earlier before digest seen)
  · intro actions ns digest bytes after reached present uploaded
    obtain ⟨seen, kept⟩ := uploaded.brings
    exact ⟨seen, kept bytes present⟩

end Heal

section Lost
attribute [local instance] Specimen.protocol

def lostZero : Lossy MemoryMetadata where
  state := { twoVisible.1 with
    blobs := fun digest => if digest = Specimen.emptyDigest then some [] else none }
  valid := twoVisible.2
  named digest bytes stored := by
    simp only at stored
    split at stored
    next same =>
      cases stored
      subst same
      exact ⟨rfl, .blake3, rfl, by decide +kernel⟩
    next => cases stored
  finite ns := by
    refine Set.Finite.subset (Set.toFinite {Specimen.zeroDigest, Specimen.emptyDigest}) ?_
    intro digest seen
    have row : ns = "team" ∧ (digest = Specimen.zeroDigest ∨ digest = Specimen.emptyDigest) :=
      of_decide_eq_true seen
    exact row.2

def lostRead : ContentRead :=
  .getBlob ⟨fun _ => .ok "team", granted_named Specimen.team, none, none, none, none⟩
    ("blake3", Specimen.zeroBlake3, 1)

def lostConfig : ServerConfig := ⟨1024, 4, false⟩

def lostAttempt :
    ReadAttempt MemoryMetadata (lostRead.request.handler lostConfig) lostZero.state where
  moves := List.replicate 3 (.main (calm 0))
  admitted move member := by
    rw [List.eq_of_mem_replicate member]
    exact calm_clean 0
  result := .error (.notFound "blob not found")
  answered := by decide +kernel

theorem lost_dangling : lostZero.state.dangling "team" = {Specimen.zeroDigest} := by
  ext digest
  constructor
  · rintro ⟨seen, absent⟩
    have row : "team" = "team" ∧ (digest = Specimen.zeroDigest ∨ digest = Specimen.emptyDigest) :=
      of_decide_eq_true seen
    rcases row.2 with same | rfl
    · exact same
    · cases absent
  · rintro rfl
    exact ⟨rfl, by decide⟩

/-- The read fails and drops the one row, and made again and again it soon asks for nothing that
is lost. -/
theorem lost_zero_heals : Failed lostAttempt.result ∧
    ¬ lostAttempt.after.Sees "team" Specimen.zeroDigest ∧
    lostAttempt.after.Sees "team" Specimen.emptyDigest ∧
    ∃ repeated : Repetition MemoryMetadata (lostRead.request.handler lostConfig),
      repeated.state 0 = lostZero.state ∧
        ∃ count ≤ 1, Quiet (lostRead.request.handler lostConfig) (repeated.state count) := by
  obtain ⟨-, attempts, repeats⟩ := (dangling_rows_heal lostConfig lostZero).1 lostRead
  obtain ⟨mends, keeps⟩ := attempts lostAttempt
  have asks : lostAttempt.Asks Specimen.zeroDigest :=
    ⟨[.main (calm 0)], .main (calm 0), [.main (calm 0)], calm 0, rfl, by rfl⟩
  obtain ⟨failed, ns, granted, dropped, dangles, unseen⟩ := mends _ asks (by decide)
  cases granted
  rw [lost_dangling] at dangles
  obtain rfl := dangles
  obtain ⟨⟨repeated, first⟩, bounded⟩ := repeats "team" rfl
  obtain ⟨count, few, quiet, -⟩ := bounded repeated first
  rw [lost_dangling, Set.ncard_singleton] at few
  exact ⟨failed, unseen, keeps "team" _ rfl (by decide), repeated, first, count, few, quiet⟩

end Lost
end MbxCache
