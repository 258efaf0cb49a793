import MbxCache.Digest
import MbxCache.Incremental

/-! The incremental reader of an uploaded blob pack (`pack.rs`). -/

namespace MbxCache.Pack

open Incremental

inductive PackEvent
  | started (digest : Digest)
  | payload (bytes : Bytes)
  | complete
  deriving DecidableEq, Repr

inductive PackError
  | magic
  | algorithm (tag : UInt8)
  | truncated
  | blobTooLarge (size limit : UInt64)
  | tooManyBlobs (limit : UInt64)
  | tooManyBytes (limit : UInt64)
  deriving DecidableEq, Repr

def PackError.text : PackError → String
  | .magic => "blob pack does not start with the expected magic prefix"
  | .algorithm tag => s!"blob pack declares an unknown digest algorithm {tag}"
  | .truncated => "blob pack ended inside a frame"
  | .blobTooLarge size limit =>
      s!"blob pack declares a blob of {size} bytes, over the {limit} byte limit"
  | .tooManyBlobs limit => s!"blob pack carries more than the declared {limit} blobs"
  | .tooManyBytes limit => s!"blob pack carries more than the declared {limit} payload bytes"

inductive State
  | magic
  | header
  | payload
  deriving DecidableEq, Repr

/-- The counters are natural numbers: neither can pass the number of bytes
pushed, so the 64-bit counters of the source never wrap on a body that exists. -/
structure PackReader where
  state : State
  buffer : Bytes
  maxBlobBytes : UInt64
  maxBlobs : UInt64
  maxPayloadBytes : UInt64
  blobs : Nat
  payloadBytes : Nat
  remaining : Nat
  deriving DecidableEq, Repr

namespace PackReader

def new (maxBlobBytes maxBlobs maxPayloadBytes : UInt64) : PackReader where
  state := .magic
  buffer := []
  maxBlobBytes := maxBlobBytes
  maxBlobs := maxBlobs
  maxPayloadBytes := maxPayloadBytes
  blobs := 0
  payloadBytes := 0
  remaining := 0

/-- Buffer until `wanted` bytes are held, reporting whether they are. -/
def fill (reader : PackReader) (rest : Bytes) (wanted : Nat) : Bool × PackReader × Bytes :=
  if reader.buffer.length < wanted then
    let take := min (wanted - reader.buffer.length) rest.length
    let buffer := reader.buffer ++ rest.take take
    (buffer.length == wanted, { reader with buffer := buffer }, rest.drop take)
  else (reader.buffer.length == wanted, reader, rest)

def parseHeader (reader : PackReader) : Except PackError Digest := do
  let algorithm ← match reader.buffer.headD 0 with
    | 1 => .ok Algorithm.blake3
    | 2 => .ok Algorithm.sha256
    | other => .error (.algorithm other)
  let hash := Hex.encode ((reader.buffer.drop 1).take 32)
  let size := UInt64.ofNat (BigEndian.decode (reader.buffer.drop 33))
  if reader.maxBlobBytes < size then
    .error (.blobTooLarge size reader.maxBlobBytes)
  else
    .ok ⟨algorithm.asStr, hash, size⟩

/-- One turn of the loop in `push`: return what was read, or go round again with
the unread bytes after emitting events. -/
inductive Turn
  | stop (reader : PackReader)
  | again (reader : PackReader) (rest : Bytes) (events : List PackEvent)

def checkMagic (held : PackReader) : Except PackError (PackReader × List PackEvent) :=
  if held.buffer ≠ blobPackMagic then .error .magic
  else .ok ({ held with buffer := [], state := .header }, [])

def beginFrame (held : PackReader) : Except PackError (PackReader × List PackEvent) := do
  let digest ← held.parseHeader
  let counted := { held with
    buffer := [], remaining := digest.size.toNat, blobs := held.blobs + 1 }
  if counted.maxBlobs.toNat < counted.blobs then
    .error (.tooManyBlobs counted.maxBlobs)
  else if counted.remaining = 0 then
    .ok ({ counted with state := .header }, [.started digest, .complete])
  else
    .ok ({ counted with state := .payload }, [.started digest])

/-- Payload bytes of the current frame, at most the `remaining` ones. -/
def takePayload (reader : PackReader) (payload : Bytes) :
    Except PackError (PackReader × List PackEvent) :=
  let moved := { reader with
    remaining := reader.remaining - payload.length
    payloadBytes := reader.payloadBytes + payload.length }
  if moved.maxPayloadBytes.toNat < moved.payloadBytes then
    .error (.tooManyBytes moved.maxPayloadBytes)
  else if moved.remaining = 0 then
    .ok ({ moved with state := .header }, [.payload payload, .complete])
  else
    .ok (moved, [.payload payload])

def proceed (step : Except PackError (PackReader × List PackEvent)) (rest : Bytes) :
    Except PackError Turn :=
  match step with
  | .error error => .error error
  | .ok (next, events) => .ok (.again next rest events)

def readMagic (reader : PackReader) (rest : Bytes) : Except PackError Turn :=
  match reader.fill rest blobPackMagic.length with
  | (false, held, _) => .ok (.stop held)
  | (true, held, rest) => proceed held.checkMagic rest

def readHeader (reader : PackReader) (rest : Bytes) : Except PackError Turn :=
  if rest = [] ∧ reader.buffer = [] then .ok (.stop reader)
  else
    match reader.fill rest blobPackHeaderBytes with
    | (false, held, _) => .ok (.stop held)
    | (true, held, rest) => proceed held.beginFrame rest

def readPayload (reader : PackReader) (rest : Bytes) : Except PackError Turn :=
  if rest = [] then .ok (.stop reader)
  else
    let take := min reader.remaining rest.length
    proceed (reader.takePayload (rest.take take)) (rest.drop take)

def turn (reader : PackReader) (rest : Bytes) : Except PackError Turn :=
  match reader.state with
  | .magic => reader.readMagic rest
  | .header => reader.readHeader rest
  | .payload => reader.readPayload rest

def rank (reader : PackReader) : Nat :=
  match reader.state with
  | .magic => 5
  | .header => if reader.buffer = [] then 1 else 3
  | .payload => if reader.remaining = 0 then 4 else 2

theorem fill_length {reader held : PackReader} {rest more : Bytes} {wanted : Nat} {full : Bool}
    (filled : reader.fill rest wanted = (full, held, more)) : more.length ≤ rest.length := by
  unfold fill at filled
  split at filled
  · cases filled
    simp only [List.length_drop]
    omega
  · cases filled
    exact Nat.le_refl _

theorem fill_consumes {reader held : PackReader} {rest more : Bytes} {wanted : Nat} {full : Bool}
    (filled : reader.fill rest wanted = (full, held, more))
    (room : reader.buffer.length < wanted) (given : rest ≠ []) : more.length < rest.length := by
  have positive := List.length_pos_iff.mpr given
  rw [fill, if_pos room] at filled
  cases filled
  simp only [List.length_drop]
  omega

theorem fill_header {reader held : PackReader} {rest more : Bytes}
    (filled : reader.fill rest blobPackHeaderBytes = (true, held, more))
    (given : ¬ (rest = [] ∧ reader.buffer = [])) :
    8 * more.length + 2 < 8 * rest.length + if reader.buffer = [] then 1 else 3 := by
  have shorter := fill_length filled
  split
  · rename_i empty
    have consumed := fill_consumes filled (by simp [empty, blobPackHeaderBytes])
      (fun none => given ⟨none, empty⟩)
    omega
  · omega

theorem proceed_again {step : Except PackError (PackReader × List PackEvent)} {rest more : Bytes}
    {next : PackReader} {events : List PackEvent}
    (turned : proceed step rest = .ok (.again next more events)) :
    step = .ok (next, events) ∧ more = rest := by
  unfold proceed at turned
  split at turned <;> cases turned
  exact ⟨rfl, rfl⟩

theorem checkMagic_ok {held next : PackReader} {events : List PackEvent}
    (checked : held.checkMagic = .ok (next, events)) :
    next = { held with buffer := [], state := .header } ∧ events = [] ∧
      held.buffer = blobPackMagic := by
  unfold checkMagic at checked
  split at checked <;> cases checked
  rename_i same
  exact ⟨rfl, rfl, not_not.mp same⟩

theorem beginFrame_ok {held next : PackReader} {events : List PackEvent}
    (begun : held.beginFrame = .ok (next, events)) :
    ∃ digest, held.parseHeader = .ok digest ∧ held.blobs < held.maxBlobs.toNat ∧
      next = { held with
        buffer := [], remaining := digest.size.toNat, blobs := held.blobs + 1
        state := if digest.size.toNat = 0 then .header else .payload } ∧
      events = .started digest :: if digest.size.toNat = 0 then [.complete] else [] := by
  unfold beginFrame at begun
  cases parsed : held.parseHeader with
  | error e => simp [parsed, bind, Except.bind] at begun
  | ok digest =>
      simp only [parsed, bind, Except.bind] at begun
      split at begun
      · cases begun
      · rename_i room
        refine ⟨digest, rfl, by omega, ?_⟩
        split at begun <;> rename_i zero <;> cases begun <;> simp [zero]

theorem takePayload_ok {reader next : PackReader} {payload : Bytes} {events : List PackEvent}
    (taken : reader.takePayload payload = .ok (next, events)) :
    reader.payloadBytes + payload.length ≤ reader.maxPayloadBytes.toNat ∧
      next = { reader with
        remaining := reader.remaining - payload.length
        payloadBytes := reader.payloadBytes + payload.length
        state := if reader.remaining - payload.length = 0 then .header else reader.state } ∧
      events = .payload payload ::
        if reader.remaining - payload.length = 0 then [.complete] else [] := by
  unfold takePayload at taken
  simp only at taken
  split at taken
  · cases taken
  · rename_i room
    refine ⟨by omega, ?_⟩
    split at taken <;> rename_i ended <;> cases taken <;> simp [ended]

/-- A turn consumes bytes or descends in rank, whatever it completes. -/
theorem turn_descends {reader next : PackReader} {rest more : Bytes} {events : List PackEvent}
    (turned : reader.turn rest = .ok (.again next more events)) :
    8 * more.length + next.rank < 8 * rest.length + reader.rank := by
  unfold turn at turned
  cases state : reader.state with
  | magic =>
      simp only [state, readMagic] at turned
      split at turned <;> rename_i filled
      · cases turned
      · obtain ⟨checked, rfl⟩ := proceed_again turned
        obtain ⟨rfl, _⟩ := checkMagic_ok checked
        have shorter := fill_length filled
        simp only [rank, state, if_true]
        omega
  | header =>
      simp only [state, readHeader] at turned
      split at turned
      · cases turned
      · rename_i given
        split at turned <;> rename_i filled
        · cases turned
        · obtain ⟨begun, rfl⟩ := proceed_again turned
          obtain ⟨digest, _, _, rfl, _⟩ := beginFrame_ok begun
          have shorter := fill_header filled given
          simp only [rank, state]
          by_cases zero : digest.size.toNat = 0
          · simp only [zero, if_true]
            omega
          · simp only [if_neg zero]
            omega
  | payload =>
      simp only [state, readPayload] at turned
      split at turned
      · cases turned
      · rename_i given
        have positive := List.length_pos_iff.mpr given
        obtain ⟨taken, rfl⟩ := proceed_again turned
        obtain ⟨_, rfl, _⟩ := takePayload_ok taken
        simp only [rank, state, List.length_drop, List.length_take]
        by_cases ended : reader.remaining - min (min reader.remaining rest.length) rest.length = 0
        · simp only [ended, if_true]
          split <;> split <;> omega
        · simp only [if_neg ended]
          split <;> omega

/-- The loop of `push`, appending to the events already emitted. -/
def pushLoop (reader : PackReader) (rest : Bytes) (events : List PackEvent) :
    Except PackError (PackReader × List PackEvent) :=
  match _turned : reader.turn rest with
  | .error error => .error error
  | .ok (.stop held) => .ok (held, events)
  | .ok (.again next more emitted) => pushLoop next more (events ++ emitted)
termination_by 8 * rest.length + reader.rank
decreasing_by exact turn_descends _turned

theorem pushLoop_turn (reader : PackReader) (rest : Bytes) (events : List PackEvent) :
    reader.pushLoop rest events =
      match reader.turn rest with
      | .error error => .error error
      | .ok (.stop held) => .ok (held, events)
      | .ok (.again next more emitted) => next.pushLoop more (events ++ emitted) := by
  rw [pushLoop]
  split <;> rename_i turned <;> simp only [turned]

theorem pushLoop_events (reader : PackReader) (rest : Bytes) (front events : List PackEvent) :
    reader.pushLoop rest (front ++ events) =
      andThen (.ok (reader, front)) fun start => start.pushLoop rest events := by
  fun_induction pushLoop reader rest events with
  | case1 reader rest events error turned => simp [andThen, pushLoop_turn, turned]
  | case2 reader rest events held turned => simp [andThen, pushLoop_turn reader rest, turned]
  | case3 reader rest events next more emitted turned ih =>
      simp only [andThen, pushLoop_turn reader rest, turned, List.append_assoc, ih]

def push (reader : PackReader) (chunk : Bytes) :
    Except PackError (PackReader × List PackEvent) :=
  reader.pushLoop chunk []

/-- A push is one turn followed by a push of what it left unread. -/
theorem push_turn (reader : PackReader) (rest : Bytes) :
    reader.push rest =
      match reader.turn rest with
      | .error error => .error error
      | .ok (.stop held) => .ok (held, [])
      | .ok (.again next more emitted) =>
          andThen (.ok (next, emitted)) fun start => start.push more := by
  rw [push, pushLoop_turn]
  split <;> rename_i turned
  · rfl
  · rfl
  · rename_i next more emitted
    rw [List.nil_append, ← List.append_nil emitted, pushLoop_events]
    simp only [List.append_nil]
    rfl

def finish (reader : PackReader) : Except PackError Unit :=
  if reader.state = .header ∧ reader.buffer = [] then .ok () else .error .truncated

end PackReader
end MbxCache.Pack
