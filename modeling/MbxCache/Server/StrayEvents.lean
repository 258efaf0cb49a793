import MbxCache.Pack.Bracketing
import MbxCache.Server.PackUpload

namespace MbxCache

open Concurrent Pack

section
variable [Protocol]

/-- The handler has a use for an event: no frame begins within another, payload belongs to
a frame, and a frame that ends has the size it announced. -/
def orderly (up : Uploading) : PackEvent → Bool
  | .started _ => up.frame.isNone
  | .payload _ => up.frame.isSome
  | .complete => up.frame.any fun frame => frame.size == frame.digest.size.toNat

namespace Uploading

def eventsBy (event : Uploading → PackEvent → Reads Unit) (up : Uploading) :
    List PackEvent → Reads Unit
  | [] => .done (up, .ok ())
  | first :: rest =>
      (event up first).bind fun result =>
        match result with
        | (up, .error error) => up.refuse error
        | (up, .ok ()) => up.eventsBy event rest

def chunksBy (event : Uploading → PackEvent → Reads Unit) (up : Uploading) (reader : PackReader) :
    List Bytes → Reads PackReader
  | [] => .done (up, .ok reader)
  | chunk :: rest =>
      match reader.push chunk with
      | .error error => up.refuse (packError error)
      | .ok (next, events) =>
          (up.eventsBy event events).bind fun result =>
            match result with
            | (up, .error error) => up.refuse error
            | (up, .ok ()) => up.chunksBy event next rest

/-- Treat orderly events as the handler does, and the others in any way at all. -/
def eventOr (stray : Uploading → PackEvent → Reads Unit) (config : ServerConfig) (ns : String)
    (up : Uploading) (event : PackEvent) : Reads Unit :=
  if orderly up event then up.event config ns event else stray up event

end Uploading

def Tracks : Option PackFrame → Option Entry → Prop
  | none, none => True
  | some frame, some entry => frame.digest = entry.digest ∧ frame.size = entry.payload.length
  | _, _ => False

/-- A part of the loop that succeeds leaves the handler where the reader is. -/
def Leaves {A : Type} (sum : Assembled) (result : Uploading × Except ApiError A) : Prop :=
  ∀ value, result.2 = .ok value → Tracks result.1.frame sum.opened

variable {config : ServerConfig} {ns : String} {up : Uploading} {sum next after : Assembled}
  {event : PackEvent} {events : List PackEvent} {reader : PackReader}
  {stray : Uploading → PackEvent → Reads Unit}

theorem add_orderly (tracks : Tracks up.frame sum.opened) (added : sum.add event = some next) :
    orderly up event = true := by
  cases frame : up.frame with
  | none =>
      cases opened : sum.opened with
      | none =>
          cases event with
          | started digest => simp [orderly, frame]
          | payload bytes => simp [Assembled.add, opened] at added
          | complete => simp [Assembled.add, opened] at added
      | some entry =>
          rw [frame, opened] at tracks
          exact tracks.elim
  | some spool =>
      cases opened : sum.opened with
      | none =>
          rw [frame, opened] at tracks
          exact tracks.elim
      | some entry =>
          rw [frame, opened] at tracks
          obtain ⟨digest, size⟩ := tracks
          cases event with
          | started digest => simp [Assembled.add, opened] at added
          | payload bytes => simp [orderly, frame]
          | complete =>
              simp only [Assembled.add, opened] at added
              split at added
              next whole => simp [orderly, frame, digest, size, whole]
              next => cases added

theorem refuse_leaves {A : Type} (up : Uploading) (error : ApiError) :
    (up.refuse (A := A) error).Always (Leaves sum) := by
  intro value succeeded
  cases succeeded

theorem handle_leaves {A B : Type} {handler : Handler A} {rest : A → Reads B}
    (gives : handler.Gives fun value => (rest value).Always (Leaves sum)) :
    (up.handle handler rest).Always (Leaves sum) := by
  refine Program.Always.bind (Program.Always.mono gives ?_)
  intro result step
  cases result with
  | error error => exact refuse_leaves up error
  | ok value => exact step value rfl

theorem frame_new (digest : Digest) : (PackFrame.new digest).Gives fun frame =>
    frame.digest = digest ∧ frame.size = 0 :=
  .bind ((Handler.Gives.any _).mono fun _ _ => .pure ⟨rfl, rfl⟩)

theorem frame_write (frame : PackFrame) (payload : Bytes) :
    (frame.write payload).Gives fun written =>
      written.digest = frame.digest ∧ written.size = frame.size + payload.length :=
  .bind ((Handler.Gives.any _).mono fun _ _ =>
    .bind ((Handler.Gives.any _).mono fun _ _ => .pure ⟨rfl, rfl⟩))

theorem makeRoom_frame (config : ServerConfig) (up : Uploading) :
    (up.makeRoom config).Always fun result => result.1.frame = up.frame := by
  unfold Uploading.makeRoom
  split
  next =>
    intro id out
    dsimp only
    split <;> rfl
  next => rfl

theorem event_leaves (tracks : Tracks up.frame sum.opened) (added : sum.add event = some next) :
    (up.event config ns event).Always (Leaves next) := by
  cases event with
  | started digest =>
      have opened : next.opened = some ⟨digest, []⟩ := by
        simp only [Assembled.add] at added
        split at added <;> cases added
        rfl
      apply handle_leaves
      refine (Handler.Gives.any _).mono fun _ _ => handle_leaves ?_
      refine (frame_new digest).mono fun frame fresh value _ => ?_
      rw [opened]
      exact fresh
  | payload bytes =>
      simp only [Uploading.event]
      split
      next => exact refuse_leaves up _
      next frame held =>
        simp only [Assembled.add] at added
        split at added
        next => cases added
        next entry opened =>
          cases added
          rw [held, opened] at tracks
          apply handle_leaves
          refine (frame_write frame bytes).mono fun written grown value _ => ?_
          refine ⟨grown.1.trans tracks.1, ?_⟩
          rw [grown.2, tracks.2, List.length_append]
  | complete =>
      have opened : next.opened = none := by
        simp only [Assembled.add] at added
        split at added
        next => cases added
        next =>
          split at added <;> cases added
          rfl
      simp only [Uploading.event]
      split
      next => exact refuse_leaves up _
      next finished held =>
        apply handle_leaves
        refine (Handler.Gives.any _).mono fun _ _ => Program.Always.bind ?_
        refine Program.Always.mono (makeRoom_frame config _) fun result frame => ?_
        obtain ⟨up, error | _⟩ := result
        · exact refuse_leaves up error
        · intro id value _
          rw [opened, show up.frame = none from frame]
          trivial

theorem event_or (tracks : Tracks up.frame sum.opened) (added : sum.add event = some next) :
    up.eventOr stray config ns event = up.event config ns event :=
  if_pos (add_orderly tracks added)

theorem events_or (tracks : Tracks up.frame sum.opened)
    (added : sum.addAll events = some after) :
    up.eventsBy (Uploading.eventOr stray config ns) events = up.events config ns events ∧
      (up.events config ns events).Always (Leaves after) := by
  induction events generalizing up sum with
  | nil =>
      cases added
      exact ⟨rfl, fun _ _ => tracks⟩
  | cons first rest ih =>
      obtain ⟨middle, one, others⟩ := Option.bind_eq_some_iff.mp added
      have leaves : (up.event config ns first).Always (Leaves middle) := event_leaves tracks one
      constructor
      · simp only [Uploading.eventsBy, Uploading.events, event_or tracks one]
        refine leaves.bind_congr fun result left => ?_
        obtain ⟨up, error | _⟩ := result
        · rfl
        · exact (ih (left () rfl) others).1
      · refine Program.Always.bind (leaves.mono fun result left => ?_)
        obtain ⟨up, error | _⟩ := result
        · exact refuse_leaves up error
        · exact (ih (left () rfl) others).2

/-- Whatever is done with events out of order, the loop over a body is the same program. -/
theorem chunks_or {consumed : Bytes} (tracks : Tracks up.frame sum.opened)
    (reached : Reached reader sum consumed) (chunks : List Bytes) :
    up.chunksBy (Uploading.eventOr stray config ns) reader chunks =
      up.chunks config ns reader chunks := by
  induction chunks generalizing up reader sum consumed with
  | nil => rfl
  | cons chunk rest ih =>
      simp only [Uploading.chunksBy, Uploading.chunks]
      cases pushed : reader.push chunk with
      | error error => rfl
      | ok pair =>
          obtain ⟨next, events⟩ := pair
          obtain ⟨after, added, reached'⟩ := reached.push pushed
          have both : up.eventsBy (Uploading.eventOr stray config ns) events =
              up.events config ns events ∧ (up.events config ns events).Always (Leaves after) :=
            events_or tracks added
          obtain ⟨same, leaves⟩ := both
          dsimp only
          rw [same]
          refine leaves.bind_congr fun result left => ?_
          obtain ⟨up, error | _⟩ := result
          · rfl
          · exact ih (left () rfl) reached'

theorem uploadPack_loop (config : ServerConfig) (ns : String) (blobs bytes : UInt64)
    (body : Body) :
    ∃ rest : Uploading × Except ApiError PackReader → Program Api (Except ApiError Response),
      uploadPack config ns blobs bytes body =
        (Uploading.chunks config ns ⟨none, [], ⟨0, 0⟩⟩ (.new config.maxBlobBytes blobs bytes)
          body.chunks).bind rest := by
  unfold uploadPack Uploading.read
  rw [Program.bind_assoc]
  exact ⟨_, rfl⟩

/-- A reader emits whole frames and at most the beginning of one more, within its limits, and
buffers no more than a header. So a pack upload is the same program whatever it would do with
a frame inside a frame, payload or an end outside of one, or a frame that ends at another size. -/
theorem pack_events_bracketed (maxBlobBytes maxBlobs maxPayloadBytes : UInt64)
    (chunks : List Bytes) :
    let start := PackReader.new maxBlobBytes maxBlobs maxPayloadBytes
    (∃ report : Report, report.events = (emitted start chunks).2 ∧
      report.Bounded maxBlobBytes maxBlobs maxPayloadBytes) ∧
    Turns start (emitted start chunks).1 ∧
    (∀ reader, Turns start reader → reader.buffer.length ≤ blobPackHeaderBytes ∧
      ∀ wanted, reader.Awaits wanted → ∀ rest,
        (reader.fill rest wanted).2.1.buffer.length ≤ blobPackHeaderBytes) ∧
    ∀ (config : ServerConfig) (ns : String) (blobs bytes : UInt64) (body : Body),
      ∃ rest : Uploading × Except ApiError PackReader → Program Api (Except ApiError Response),
        ∀ stray : Uploading → PackEvent → Reads Unit, uploadPack config ns blobs bytes body =
          (Uploading.chunksBy (Uploading.eventOr stray config ns) ⟨none, [], ⟨0, 0⟩⟩
            (.new config.maxBlobBytes blobs bytes) body.chunks).bind rest := by
  intro start
  have valid := PackReader.new_valid maxBlobBytes maxBlobs maxPayloadBytes
  refine ⟨emitted_report maxBlobBytes maxBlobs maxPayloadBytes chunks, Turns.start.emitted chunks,
    fun reader turns => turns.buffered valid, ?_⟩
  intro config ns blobs bytes body
  obtain ⟨rest, whole⟩ := uploadPack_loop config ns blobs bytes body
  refine ⟨rest, fun stray => ?_⟩
  have same : Uploading.chunksBy (Uploading.eventOr stray config ns) ⟨none, [], ⟨0, 0⟩⟩
      (.new config.maxBlobBytes blobs bytes) body.chunks =
      Uploading.chunks config ns ⟨none, [], ⟨0, 0⟩⟩ (.new config.maxBlobBytes blobs bytes)
        body.chunks :=
    chunks_or (show Tracks none Assembled.start.opened from trivial) (Reached.new _ _ _) body.chunks
  rw [whole, same]

end
end MbxCache
