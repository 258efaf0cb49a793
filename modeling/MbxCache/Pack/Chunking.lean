import MbxCache.Pack.Reader

namespace MbxCache.Pack

open Incremental

def join : PackEvent → List PackEvent → List PackEvent
  | .payload front, .payload back :: rest => .payload (front ++ back) :: rest
  | event, rest => event :: rest

/-- Concatenate adjacent payload events. Two payloads of different frames are
never adjacent: a `complete` and a `started` stand between them. -/
def coalesce (events : List PackEvent) : List PackEvent := events.foldr join []

theorem join_payloads (front back : Bytes) (rest : List PackEvent) :
    join (.payload front) (join (.payload back) rest) = join (.payload (front ++ back)) rest := by
  cases rest with
  | nil => rfl
  | cons event rest => cases event <;> simp [join]

theorem foldr_join (event : PackEvent) (events rest : List PackEvent) :
    (join event events).foldr join rest = join event (events.foldr join rest) := by
  cases event with
  | started digest => rfl
  | complete => rfl
  | payload front =>
      cases events with
      | nil => rfl
      | cons next others =>
          cases next with
          | started digest => rfl
          | complete => rfl
          | payload back => exact (join_payloads front back _).symm

theorem foldr_coalesce (events rest : List PackEvent) :
    (coalesce events).foldr join rest = events.foldr join rest := by
  induction events with
  | nil => rfl
  | cons event others ih =>
      change (join event (coalesce others)).foldr join rest = _
      rw [foldr_join, ih]
      rfl

theorem coalesce_append {a a' b b' : List PackEvent} (front : coalesce a = coalesce a')
    (back : coalesce b = coalesce b') : coalesce (a ++ b) = coalesce (a' ++ b') := by
  calc
    coalesce (a ++ b) = a.foldr join (coalesce b) := by simp [coalesce]
    _ = (coalesce a).foldr join (coalesce b) := (foldr_coalesce a _).symm
    _ = (coalesce a').foldr join (coalesce b') := by rw [front, back]
    _ = a'.foldr join (coalesce b') := foldr_coalesce a' _
    _ = coalesce (a' ++ b') := by simp [coalesce]

namespace PackReader

/-- What holds of a reader between pushes. -/
def Valid (reader : PackReader) : Prop :=
  match reader.state with
  | .magic => reader.buffer.length < blobPackMagic.length
  | .header => reader.buffer.length < blobPackHeaderBytes
  | .payload => reader.buffer = [] ∧ 0 < reader.remaining

theorem new_valid (maxBlobBytes maxBlobs maxPayloadBytes : UInt64) :
    (new maxBlobBytes maxBlobs maxPayloadBytes).Valid := by
  simp [Valid, new]

theorem boundary_valid {reader : PackReader} (state : reader.state = .header)
    (buffer : reader.buffer = []) : reader.Valid := by
  simp [Valid, state, buffer, blobPackHeaderBytes]

def Awaits (reader : PackReader) (wanted : Nat) : Prop :=
  (reader.state = .magic ∧ wanted = blobPackMagic.length) ∨
    (reader.state = .header ∧ wanted = blobPackHeaderBytes)

def complete (reader : PackReader) : Except PackError (PackReader × List PackEvent) :=
  match reader.state with
  | .magic => reader.checkMagic
  | _ => reader.beginFrame

def buffered (reader : PackReader) (bytes : Bytes) : PackReader :=
  { reader with buffer := reader.buffer ++ bytes }

theorem fill_eq (reader : PackReader) (rest : Bytes) {wanted : Nat}
    (room : reader.buffer.length < wanted) :
    reader.fill rest wanted =
      if reader.buffer.length + rest.length < wanted then (false, reader.buffered rest, [])
      else (true, reader.buffered (rest.take (wanted - reader.buffer.length)),
        rest.drop (wanted - reader.buffer.length)) := by
  rw [fill, if_pos room]
  split <;> rename_i total
  · have all : min (wanted - reader.buffer.length) rest.length = rest.length := by omega
    have short : ¬ (reader.buffer ++ rest).length = wanted := by
      rw [List.length_append]
      omega
    simp only [all, List.take_length, List.drop_length, beq_false_of_ne short, buffered]
  · have need : min (wanted - reader.buffer.length) rest.length =
        wanted - reader.buffer.length := by omega
    have full : (reader.buffer ++ rest.take (wanted - reader.buffer.length)).length = wanted := by
      rw [List.length_append, List.length_take]
      omega
    simp only [need, full, beq_self_eq_true, buffered]

theorem turn_buffering {reader : PackReader} {wanted : Nat} (rest : Bytes)
    (awaits : reader.Awaits wanted) (room : reader.buffer.length < wanted) :
    reader.turn rest =
      if reader.buffer.length + rest.length < wanted then .ok (.stop (reader.buffered rest))
      else proceed (reader.buffered (rest.take (wanted - reader.buffer.length))).complete
        (rest.drop (wanted - reader.buffer.length)) := by
  rcases awaits with ⟨state, rfl⟩ | ⟨state, rfl⟩
  · simp only [turn, state, readMagic, fill_eq reader rest room]
    split <;> rename_i filled <;> split at filled <;> cases filled <;> rename_i total
    · rw [if_pos total]
    · rw [if_neg total]
      simp only [complete, buffered, state]
  · simp only [turn, state, readHeader]
    split
    · rename_i empty
      have short : reader.buffer.length + rest.length < blobPackHeaderBytes := by
        simp [empty, blobPackHeaderBytes]
      have same : reader.buffered rest = reader := by
        cases reader
        simp_all [buffered]
      rw [if_pos short, same]
    · simp only [fill_eq reader rest room]
      split <;> rename_i filled <;> split at filled <;> cases filled <;> rename_i total
      · rw [if_pos total]
      · rw [if_neg total]
        simp only [complete, buffered, state]

theorem turn_payload {reader : PackReader} {rest : Bytes} (state : reader.state = .payload)
    (given : rest ≠ []) :
    reader.turn rest =
      proceed (reader.takePayload (rest.take reader.remaining)) (rest.drop reader.remaining) := by
  have bytes : rest.take (min reader.remaining rest.length) = rest.take reader.remaining := by
    rw [← List.take_eq_take_min]
  have unread : rest.drop (min reader.remaining rest.length) = rest.drop reader.remaining := by
    rw [← List.drop_eq_drop_min]
  simp only [turn, state, readPayload, if_neg given, bytes, unread]

theorem complete_valid {reader next : PackReader} {events : List PackEvent}
    (completed : reader.complete = .ok (next, events)) : next.Valid := by
  unfold complete at completed
  split at completed
  · obtain ⟨rfl, _⟩ := checkMagic_ok completed
    exact boundary_valid rfl rfl
  · obtain ⟨digest, _, _, rfl, _⟩ := beginFrame_ok completed
    by_cases zero : digest.size.toNat = 0
    · exact boundary_valid (by simp [zero]) rfl
    · simpa [Valid, zero] using Nat.pos_of_ne_zero zero

theorem takePayload_valid {reader next : PackReader} {payload : Bytes} {events : List PackEvent}
    (valid : reader.Valid) (state : reader.state = .payload)
    (taken : reader.takePayload payload = .ok (next, events)) : next.Valid := by
  obtain ⟨_, rfl, _⟩ := takePayload_ok taken
  simp only [Valid, state] at valid
  by_cases ended : reader.remaining - payload.length = 0
  · exact boundary_valid (by simp [ended]) valid.1
  · simpa [Valid, ended, state] using ⟨valid.1, by omega⟩

theorem valid_cases {reader : PackReader} (valid : reader.Valid) :
    (∃ wanted, reader.Awaits wanted ∧ reader.buffer.length < wanted) ∨
      (reader.state = .payload ∧ reader.buffer = [] ∧ 0 < reader.remaining) := by
  unfold Valid at valid
  split at valid <;> rename_i state
  · exact .inl ⟨_, .inl ⟨state, rfl⟩, valid⟩
  · exact .inl ⟨_, .inr ⟨state, rfl⟩, valid⟩
  · exact .inr ⟨state, valid⟩

theorem awaits_valid {reader : PackReader} {wanted : Nat} (awaits : reader.Awaits wanted)
    (room : reader.buffer.length < wanted) : reader.Valid := by
  rcases awaits with ⟨state, rfl⟩ | ⟨state, rfl⟩ <;> simpa [Valid, state] using room

theorem turn_valid {reader next : PackReader} {rest more : Bytes} {events : List PackEvent}
    (valid : reader.Valid) (turned : reader.turn rest = .ok (.again next more events)) :
    next.Valid := by
  rcases valid_cases valid with ⟨wanted, awaits, room⟩ | ⟨state, _⟩
  · rw [turn_buffering rest awaits room] at turned
    split at turned
    · cases turned
    · exact complete_valid (proceed_again turned).1
  · by_cases given : rest = []
    · simp [turn, state, readPayload, given] at turned
    · rw [turn_payload state given] at turned
      exact takePayload_valid valid state (proceed_again turned).1

theorem stop_valid {reader held : PackReader} {rest : Bytes} (valid : reader.Valid)
    (turned : reader.turn rest = .ok (.stop held)) : held.Valid := by
  rcases valid_cases valid with ⟨wanted, awaits, room⟩ | ⟨state, _⟩
  · rw [turn_buffering rest awaits room] at turned
    split at turned <;> rename_i total
    · cases turned
      have same : (reader.buffered rest).Awaits wanted := awaits
      exact awaits_valid same (by simpa [buffered] using total)
    · unfold proceed at turned
      split at turned <;> cases turned
  · by_cases given : rest = []
    · simp only [turn, state, readPayload, given, if_true, Except.ok.injEq, Turn.stop.injEq]
        at turned
      exact turned ▸ valid
    · rw [turn_payload state given] at turned
      unfold proceed at turned
      split at turned <;> cases turned

theorem pushLoop_valid {reader last : PackReader} {rest : Bytes} {before events : List PackEvent}
    (valid : reader.Valid) (pushed : reader.pushLoop rest before = .ok (last, events)) :
    last.Valid := by
  fun_induction pushLoop reader rest before with
  | case1 reader rest before error turned => cases pushed
  | case2 reader rest before held turned =>
      cases pushed
      exact stop_valid valid turned
  | case3 reader rest before next more emitted turned ih =>
      exact ih (turn_valid valid turned) pushed

theorem push_nil {reader : PackReader} (valid : reader.Valid) :
    reader.push [] = .ok (reader, []) := by
  have stopped : reader.turn [] = .ok (.stop reader) := by
    rcases valid_cases valid with ⟨wanted, awaits, room⟩ | ⟨state, _⟩
    · rw [turn_buffering [] awaits room, if_pos (by simpa using room)]
      simp [buffered]
    · simp [turn, state, readPayload]
  rw [push_turn, stopped]

/-- A byte that completes a step by itself completes it with what follows it. -/
theorem push_proceed {reader : PackReader} {byte : UInt8} {rest : Bytes}
    {step : Except PackError (PackReader × List PackEvent)}
    (single : reader.turn [byte] = proceed step [])
    (whole : reader.turn (byte :: rest) = proceed step rest)
    (valid : ∀ next events, step = .ok (next, events) → next.Valid) :
    reader.push (byte :: rest) = andThen (reader.push [byte]) fun next => next.push rest := by
  rw [push_turn, whole, push_turn, single]
  cases step with
  | error e => rfl
  | ok pair =>
      obtain ⟨next, events⟩ := pair
      simp [proceed, andThen, push_nil (valid next events rfl)]

theorem push_buffering {reader : PackReader} {wanted : Nat} (byte : UInt8) (rest : Bytes)
    (awaits : reader.Awaits wanted) (room : reader.buffer.length < wanted) :
    reader.push (byte :: rest) = andThen (reader.push [byte]) fun next => next.push rest := by
  have awaitsMore : (reader.buffered [byte]).Awaits wanted := awaits
  have length : (reader.buffered [byte]).buffer.length = reader.buffer.length + 1 := by
    simp [buffered]
  by_cases short : reader.buffer.length + 1 < wanted
  · have roomMore : (reader.buffered [byte]).buffer.length < wanted := by omega
    have first : reader.push [byte] = .ok (reader.buffered [byte], []) := by
      rw [push_turn, turn_buffering [byte] awaits room, if_pos (by simpa using short)]
    have later : reader.turn (byte :: rest) = (reader.buffered [byte]).turn rest := by
      have need : wanted - reader.buffer.length =
          wanted - (reader.buffer.length + 1) + 1 := by omega
      have total : reader.buffer.length + (byte :: rest).length < wanted ↔
          reader.buffer.length + 1 + rest.length < wanted := by
        rw [List.length_cons]
        omega
      simp only [turn_buffering _ awaits room, turn_buffering _ awaitsMore roomMore, length, need,
        total, List.take_succ_cons, List.drop_succ_cons]
      simp [buffered]
    rw [first, andThen_start, push_turn, later, ← push_turn]
  · have need : wanted - reader.buffer.length = 1 := by omega
    have single : reader.turn [byte] = proceed (reader.buffered [byte]).complete [] := by
      rw [turn_buffering _ awaits room, if_neg (by simpa using short), need]
      rfl
    have whole : reader.turn (byte :: rest) = proceed (reader.buffered [byte]).complete rest := by
      have total : ¬ reader.buffer.length + (byte :: rest).length < wanted := by
        rw [List.length_cons]
        omega
      rw [turn_buffering _ awaits room, if_neg total, need]
      rfl
    exact push_proceed single whole fun next events completed => complete_valid completed

theorem push_payload {reader : PackReader} {rest : Bytes} (state : reader.state = .payload)
    (given : rest ≠ []) :
    reader.push rest = andThen (reader.takePayload (rest.take reader.remaining)) fun next =>
      next.push (rest.drop reader.remaining) := by
  rw [push_turn, turn_payload state given]
  cases reader.takePayload (rest.take reader.remaining) with
  | error e => rfl
  | ok pair => rfl

theorem takePayload_split (reader : PackReader) (byte : UInt8) (rest : Bytes)
    (unended : 1 < reader.remaining) :
    Agree coalesce (reader.takePayload (byte :: rest))
      (andThen (reader.takePayload [byte]) fun next => next.takePayload rest) := by
  have bytes : reader.payloadBytes + (byte :: rest).length =
      reader.payloadBytes + 1 + rest.length := by
    rw [List.length_cons]
    omega
  have left : reader.remaining - (byte :: rest).length = reader.remaining - 1 - rest.length := by
    rw [List.length_cons]
    omega
  have open_ : ¬ reader.remaining - 1 = 0 := by omega
  simp only [takePayload, bytes, left, List.length_singleton, open_, if_false]
  by_cases first : reader.maxPayloadBytes.toNat < reader.payloadBytes + 1
  · have both : reader.maxPayloadBytes.toNat < reader.payloadBytes + 1 + rest.length := by omega
    simp only [first, both, if_true, andThen]
    exact .failed _
  · simp only [first, if_false, andThen]
    by_cases second : reader.maxPayloadBytes.toNat < reader.payloadBytes + 1 + rest.length
    · simp only [second, if_true]
      exact .failed _
    · simp only [second, if_false]
      by_cases ended : reader.remaining - 1 - rest.length = 0
      · simp only [ended, if_true]
        exact .emitted _ rfl
      · simp only [ended, if_false]
        exact .emitted _ rfl

theorem push_unended {reader : PackReader} {byte : UInt8} {rest : Bytes}
    (valid : reader.Valid) (state : reader.state = .payload) (unended : 1 < reader.remaining)
    (given : rest ≠ []) :
    Agree coalesce (reader.push (byte :: rest))
      (andThen (reader.push [byte]) fun next => next.push rest) := by
  have need : reader.remaining = reader.remaining - 1 + 1 := by omega
  have whole : reader.push (byte :: rest) =
      andThen (reader.takePayload (byte :: rest.take (reader.remaining - 1))) fun next =>
        next.push (rest.drop (reader.remaining - 1)) := by
    rw [push_payload state (List.cons_ne_nil _ _), need, List.take_succ_cons,
      List.drop_succ_cons, ← need]
  have single : reader.push [byte] = reader.takePayload [byte] := by
    have all : [byte].take reader.remaining = [byte] := List.take_of_length_le (by simp; omega)
    have none : [byte].drop reader.remaining = [] := List.drop_of_length_le (by simp; omega)
    rw [push_payload state (List.cons_ne_nil _ _), all, none]
    cases taken : reader.takePayload [byte] with
    | error e => rfl
    | ok pair =>
        obtain ⟨next, events⟩ := pair
        simp [andThen, push_nil (takePayload_valid valid state taken)]
  have split : (andThen (reader.push [byte]) fun next => next.push rest) =
      andThen (andThen (reader.takePayload [byte]) fun next =>
        next.takePayload (rest.take (reader.remaining - 1))) fun next =>
          next.push (rest.drop (reader.remaining - 1)) := by
    rw [single, andThen_assoc]
    cases taken : reader.takePayload [byte] with
    | error e => rfl
    | ok pair =>
        obtain ⟨next, events⟩ := pair
        obtain ⟨_, rfl, _⟩ := takePayload_ok taken
        have inside : ¬ reader.remaining - 1 = 0 := by omega
        simp only [andThen]
        rw [push_payload (by simp [inside, state]) given]
        rfl
  rw [whole, split]
  apply Agree.andThen coalesce_append (takePayload_split reader byte _ unended)
  intro _ _ _
  exact Agree.refl _

theorem push_keeps {reader next : PackReader} {chunk : Bytes} {events : List PackEvent}
    (valid : reader.Valid) (pushed : reader.push chunk = .ok (next, events)) : next.Valid :=
  pushLoop_valid valid pushed

theorem push_cons {reader : PackReader} (byte : UInt8) (rest : Bytes) (valid : reader.Valid) :
    Agree coalesce (reader.push (byte :: rest))
      (andThen (reader.push [byte]) fun next => next.push rest) := by
  rcases valid_cases valid with ⟨wanted, awaits, room⟩ | ⟨state, empty, positive⟩
  · rw [push_buffering byte rest awaits room]
    exact Agree.refl _
  · by_cases last : reader.remaining = 1
    · have same : reader.push (byte :: rest) =
          andThen (reader.push [byte]) fun next => next.push rest := by
        apply push_proceed
        · rw [turn_payload state (List.cons_ne_nil _ _), last]
          rfl
        · rw [turn_payload state (List.cons_ne_nil _ _), last]
          rfl
        · intro next events taken
          exact takePayload_valid valid state taken
      rw [same]
      exact Agree.refl _
    · cases rest with
      | nil =>
          cases pushed : reader.push [byte] with
          | error e => exact .failed e
          | ok pair =>
              obtain ⟨next, events⟩ := pair
              simp only [andThen, push_nil (push_keeps valid pushed), List.append_nil]
              exact Agree.refl _
      | cons after others =>
          exact push_unended valid state (by omega) (List.cons_ne_nil _ _)

/-- The reader is a reader of streams: chunk boundaries show only in how payload
bytes are divided over events. -/
theorem push_splits : Splits push coalesce Valid where
  append := coalesce_append
  keeps := push_keeps
  nil := push_nil
  cons := push_cons

end PackReader

def readChunks (maxBlobBytes maxBlobs maxPayloadBytes : UInt64) (chunks : List Bytes) :
    Except PackError (PackReader × List PackEvent) := do
  let (reader, events) ← feed PackReader.push
    (PackReader.new maxBlobBytes maxBlobs maxPayloadBytes) chunks
  reader.finish
  return (reader, events)

def readWhole (maxBlobBytes maxBlobs maxPayloadBytes : UInt64) (bytes : Bytes) :
    Except PackError (PackReader × List PackEvent) := do
  let (reader, events) ← (PackReader.new maxBlobBytes maxBlobs maxPayloadBytes).push bytes
  reader.finish
  return (reader, events)

/-- Two ways of reading a pack that a caller cannot tell apart. -/
inductive SameReading :
    Except PackError (PackReader × List PackEvent) →
      Except PackError (PackReader × List PackEvent) → Prop
  | refused (error : PackError) : SameReading (.error error) (.error error)
  | accepted {left right : PackReader} {before after : List PackEvent}
      (blobs : left.blobs = right.blobs) (payloadBytes : left.payloadBytes = right.payloadBytes)
      (events : coalesce before = coalesce after) :
      SameReading (.ok (left, before)) (.ok (right, after))

theorem chunking_does_not_matter (maxBlobBytes maxBlobs maxPayloadBytes : UInt64)
    (chunks : List Bytes) :
    SameReading (readChunks maxBlobBytes maxBlobs maxPayloadBytes chunks)
      (readWhole maxBlobBytes maxBlobs maxPayloadBytes chunks.flatten) := by
  have agree := PackReader.push_splits.feed_flatten
    (PackReader.new maxBlobBytes maxBlobs maxPayloadBytes) chunks
    (PackReader.new_valid maxBlobBytes maxBlobs maxPayloadBytes)
  unfold readChunks readWhole
  generalize feed PackReader.push _ chunks = inChunks at agree
  generalize PackReader.push _ chunks.flatten = inOne at agree
  cases agree with
  | failed error => exact .refused error
  | emitted reader same =>
      simp only [bind, Except.bind]
      cases finished : reader.finish with
      | error error => exact .refused error
      | ok _ => exact .accepted rfl rfl same

end MbxCache.Pack
