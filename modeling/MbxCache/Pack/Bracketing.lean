import MbxCache.Pack.Assembly

namespace MbxCache.Pack

open Incremental

structure Announced where
  digest : Digest
  pieces : List Bytes

namespace Announced

def entry (frame : Announced) : Entry := ⟨frame.digest, frame.pieces.flatten⟩

def events (frame : Announced) : List PackEvent :=
  .started frame.digest :: frame.pieces.map .payload

end Announced

/-- Frames that are whole, and perhaps one that is not. -/
structure Report where
  whole : List Announced
  part : Option Announced

namespace Report

def frames (report : Report) : List Announced := report.whole ++ report.part.toList

def events (report : Report) : List PackEvent :=
  report.whole.flatMap (fun frame => frame.events ++ [.complete]) ++
    report.part.toList.flatMap Announced.events

def sum (report : Report) : Assembled := ⟨report.whole.map (·.entry), report.part.map (·.entry)⟩

theorem mem_events (report : Report) {frame : Announced} {event : PackEvent}
    (member : frame ∈ report.frames) (listed : event ∈ frame.events) : event ∈ report.events := by
  rcases List.mem_append.mp member with whole | part
  · exact List.mem_append_left _
      (List.mem_flatMap.mpr ⟨frame, whole, List.mem_append_left _ listed⟩)
  · exact List.mem_append_right _ (List.mem_flatMap.mpr ⟨frame, part, listed⟩)

theorem sum_frames (report : Report) : report.sum.frames = report.frames.map (·.entry) := by
  cases part : report.part <;> simp [sum, frames, Assembled.frames, part]

end Report

def startedCount (events : List PackEvent) : Nat :=
  (events.map fun
    | .started _ => 1
    | _ => 0).sum

def payloadCount (events : List PackEvent) : Nat :=
  (events.map fun
    | .payload bytes => bytes.length
    | _ => 0).sum

theorem startedCount_append (front back : List PackEvent) :
    startedCount (front ++ back) = startedCount front + startedCount back := by
  simp [startedCount]

theorem payloadCount_append (front back : List PackEvent) :
    payloadCount (front ++ back) = payloadCount front + payloadCount back := by
  simp [payloadCount]

def emitted (reader : PackReader) : List Bytes → PackReader × List PackEvent
  | [] => (reader, [])
  | chunk :: rest =>
      match reader.push chunk with
      | .error _ => (reader, [])
      | .ok (next, events) => ((emitted next rest).1, events ++ (emitted next rest).2)

theorem emitted_feed (reader : PackReader) (chunks : List Bytes) :
    ∃ taken, taken <+: chunks ∧ feed PackReader.push reader taken = .ok (emitted reader chunks) := by
  induction chunks generalizing reader with
  | nil => exact ⟨[], List.prefix_rfl, rfl⟩
  | cons chunk rest ih =>
      simp only [emitted]
      cases pushed : reader.push chunk with
      | error error => exact ⟨[], List.nil_prefix, rfl⟩
      | ok pair =>
          obtain ⟨next, events⟩ := pair
          obtain ⟨taken, initial, fed⟩ := ih next
          refine ⟨chunk :: taken, List.cons_prefix_cons.mpr ⟨rfl, initial⟩, ?_⟩
          simp only [feed, pushed, fed, andThen]

inductive Turns (start : PackReader) : PackReader → Prop
  | start : Turns start start
  | again {reader next : PackReader} {rest more : Bytes} {events : List PackEvent}
      (before : Turns start reader) (turned : reader.turn rest = .ok (.again next more events)) :
      Turns start next
  | stop {reader held : PackReader} {rest : Bytes} (before : Turns start reader)
      (turned : reader.turn rest = .ok (.stop held)) : Turns start held

namespace Turns

variable {start reader next : PackReader} {chunk : Bytes} {chunks : List Bytes}
  {events : List PackEvent}

theorem valid (turns : Turns start reader) (valid : start.Valid) : reader.Valid := by
  induction turns with
  | start => exact valid
  | again _ turned ih => exact PackReader.turn_valid ih turned
  | stop _ turned ih => exact PackReader.stop_valid ih turned

theorem push (turns : Turns start reader) (pushed : reader.push chunk = .ok (next, events)) :
    Turns start next := by
  unfold PackReader.push at pushed
  generalize ([] : List PackEvent) = before at pushed
  fun_induction PackReader.pushLoop reader chunk before with
  | case1 reader rest before error turned => cases pushed
  | case2 reader rest before held turned =>
      cases pushed
      exact turns.stop turned
  | case3 reader rest before middle more emitted turned ih => exact ih (turns.again turned) pushed

theorem emitted (turns : Turns start reader) (chunks : List Bytes) :
    Turns start (emitted reader chunks).1 := by
  induction chunks generalizing reader with
  | nil => exact turns
  | cons chunk rest ih =>
      simp only [Pack.emitted]
      split
      next => exact turns
      next next events pushed => exact ih (turns.push pushed)

end Turns

theorem PackReader.fill_bounded (reader : PackReader) (rest : Bytes) (wanted : Nat)
    (room : reader.buffer.length < wanted) :
    (reader.fill rest wanted).2.1.buffer.length ≤ wanted := by
  simp only [fill, room, if_true, List.length_append, List.length_take]
  omega

theorem PackReader.Awaits.small {reader : PackReader} {wanted : Nat}
    (awaits : reader.Awaits wanted) : wanted ≤ blobPackHeaderBytes := by
  rcases awaits with ⟨_, rfl⟩ | ⟨_, rfl⟩ <;> decide

/-- Whether it rests or is in the middle of a turn, a reader holds at most one header. -/
theorem Turns.buffered {start reader : PackReader} (turns : Turns start reader)
    (valid : start.Valid) :
    reader.buffer.length ≤ blobPackHeaderBytes ∧
      ∀ wanted, reader.Awaits wanted → ∀ rest,
        (reader.fill rest wanted).2.1.buffer.length ≤ blobPackHeaderBytes := by
  have sound := turns.valid valid
  rcases PackReader.valid_cases sound with ⟨wanted, awaits, room⟩ | ⟨state, buffer, _⟩
  · have small := awaits.small
    refine ⟨by omega, fun other awaits' rest => ?_⟩
    have same : other = wanted := by
      rcases awaits with ⟨state, rfl⟩ | ⟨state, rfl⟩ <;>
        rcases awaits' with ⟨state', rfl⟩ | ⟨state', rfl⟩ <;> simp_all
    subst same
    exact (reader.fill_bounded rest other room).trans small
  · refine ⟨by simp [buffer], fun wanted awaits rest => ?_⟩
    rcases awaits with ⟨other, _⟩ | ⟨other, _⟩ <;> cases state.symm.trans other

structure SameLimits (left right : PackReader) : Prop where
  maxBlobBytes : left.maxBlobBytes = right.maxBlobBytes
  maxBlobs : left.maxBlobs = right.maxBlobs
  maxPayloadBytes : left.maxPayloadBytes = right.maxPayloadBytes

theorem SameLimits.trans {left middle right : PackReader} (front : SameLimits left middle)
    (back : SameLimits middle right) : SameLimits left right :=
  ⟨front.1.trans back.1, front.2.trans back.2, front.3.trans back.3⟩

def Filled (events : List PackEvent) : Prop := ∀ bytes, .payload bytes ∈ events → bytes ≠ []

namespace PackReader

variable {reader next held : PackReader} {rest more : Bytes} {events : List PackEvent}

theorem complete_emits (completed : reader.complete = .ok (next, events)) :
    SameLimits next reader ∧ Filled events := by
  unfold complete at completed
  split at completed
  · obtain ⟨rfl, rfl, _⟩ := checkMagic_ok completed
    exact ⟨⟨rfl, rfl, rfl⟩, fun bytes member => by cases member⟩
  · obtain ⟨digest, _, _, rfl, rfl⟩ := beginFrame_ok completed
    refine ⟨⟨rfl, rfl, rfl⟩, fun bytes member => ?_⟩
    split at member <;> simp at member

theorem takePayload_emits {payload : Bytes} (some : payload ≠ [])
    (taken : reader.takePayload payload = .ok (next, events)) :
    SameLimits next reader ∧ Filled events := by
  obtain ⟨_, rfl, rfl⟩ := takePayload_ok taken
  refine ⟨⟨rfl, rfl, rfl⟩, fun bytes member => ?_⟩
  rcases List.mem_cons.mp member with same | later
  · cases same
    exact some
  · split at later <;> simp at later

theorem turn_emits (valid : reader.Valid)
    (turned : reader.turn rest = .ok (.again next more events)) :
    SameLimits next reader ∧ Filled events := by
  rcases valid_cases valid with ⟨wanted, awaits, room⟩ | ⟨state, _, left⟩
  · rw [turn_buffering rest awaits room] at turned
    split at turned
    · cases turned
    · have emits := complete_emits (proceed_again turned).1
      exact ⟨emits.1.trans ⟨rfl, rfl, rfl⟩, emits.2⟩
  · by_cases given : rest = []
    · simp [turn, state, readPayload, given] at turned
    · rw [turn_payload state given] at turned
      have some : rest.take reader.remaining ≠ [] := by
        simp only [ne_eq, List.take_eq_nil_iff, given, or_false]
        omega
      exact takePayload_emits some (proceed_again turned).1

theorem stop_limits (valid : reader.Valid) (turned : reader.turn rest = .ok (.stop held)) :
    SameLimits held reader := by
  rcases valid_cases valid with ⟨wanted, awaits, room⟩ | ⟨state, _⟩
  · rw [turn_buffering rest awaits room] at turned
    split at turned
    · cases turned
      exact ⟨rfl, rfl, rfl⟩
    · unfold proceed at turned
      split at turned <;> cases turned
  · by_cases given : rest = []
    · simp only [turn, state, readPayload, given, if_true, Except.ok.injEq, Turn.stop.injEq]
        at turned
      exact turned ▸ ⟨rfl, rfl, rfl⟩
    · rw [turn_payload state given] at turned
      unfold proceed at turned
      split at turned <;> cases turned

theorem push_emits {chunk : Bytes} (valid : reader.Valid)
    (pushed : reader.push chunk = .ok (next, events)) :
    SameLimits next reader ∧ Filled events := by
  have loop : ∀ before, Filled before → reader.pushLoop chunk before = .ok (next, events) →
      SameLimits next reader ∧ Filled events := by
    clear pushed
    intro before filled pushed
    fun_induction pushLoop reader chunk before with
    | case1 reader rest before error turned => cases pushed
    | case2 reader rest before held turned =>
        cases pushed
        exact ⟨stop_limits valid turned, filled⟩
    | case3 reader rest before middle more emitted turned ih =>
        have emits := turn_emits valid turned
        have both : Filled (before ++ emitted) := fun bytes member =>
          (List.mem_append.mp member).elim (filled bytes) (emits.2 bytes)
        obtain ⟨limits, filled'⟩ := ih (turn_valid valid turned) both pushed
        exact ⟨limits.trans emits.1, filled'⟩
  exact loop [] (fun bytes member => by cases member) pushed

end PackReader

theorem emitted_emits {reader : PackReader} (valid : reader.Valid) (chunks : List Bytes) :
    SameLimits (emitted reader chunks).1 reader ∧ Filled (emitted reader chunks).2 := by
  induction chunks generalizing reader with
  | nil => exact ⟨⟨rfl, rfl, rfl⟩, fun bytes member => by cases member⟩
  | cons chunk rest ih =>
      simp only [emitted]
      split
      next => exact ⟨⟨rfl, rfl, rfl⟩, fun bytes member => by cases member⟩
      next next events pushed =>
        have first := PackReader.push_emits valid pushed
        have others := ih (PackReader.push_keeps valid pushed)
        exact ⟨others.1.trans first.1, fun bytes member =>
          (List.mem_append.mp member).elim (first.2 bytes) (others.2 bytes)⟩

theorem add_report {report : Report} {event : PackEvent} {sum : Assembled}
    (added : report.sum.add event = some sum) :
    ∃ next : Report, next.events = report.events ++ [event] ∧ next.sum = sum := by
  obtain ⟨whole, part⟩ := report
  cases part with
  | none =>
      cases event with
      | started digest =>
          cases added
          exact ⟨⟨whole, some ⟨digest, []⟩⟩, by simp [Report.events, Announced.events], rfl⟩
      | payload bytes => cases added
      | complete => cases added
  | some frame =>
      cases event with
      | started digest => cases added
      | payload bytes =>
          cases added
          refine ⟨⟨whole, some { frame with pieces := frame.pieces ++ [bytes] }⟩, ?_, ?_⟩
          · simp [Report.events, Announced.events]
          · simp [Report.sum, Announced.entry]
      | complete =>
          simp only [Report.sum, Option.map_some, Assembled.add] at added
          split at added
          next =>
            cases added
            exact ⟨⟨whole ++ [frame], none⟩, by simp [Report.events], by simp [Report.sum]⟩
          next => cases added

/-- Events that make sense one after another are a report of the frames they assemble. -/
theorem addAll_report {events : List PackEvent} {sum : Assembled}
    (added : Assembled.start.addAll events = some sum) :
    ∃ report : Report, report.events = events ∧ report.sum = sum := by
  induction events using List.reverseRecOn generalizing sum with
  | nil =>
      cases added
      exact ⟨⟨[], none⟩, rfl, rfl⟩
  | append_singleton front event ih =>
      rw [Assembled.addAll_append] at added
      obtain ⟨before, early, last⟩ := Option.bind_eq_some_iff.mp added
      obtain ⟨report, rfl, rfl⟩ := ih early
      obtain ⟨after, one, same⟩ := Option.bind_eq_some_iff.mp last
      cases same
      exact add_report one

section counts

theorem Announced.started_events (frame : Announced) : startedCount frame.events = 1 := by
  simp [startedCount, events, Function.comp_def]

theorem Announced.payload_events (frame : Announced) :
    payloadCount frame.events = frame.entry.payload.length := by
  simp [payloadCount, events, entry, Function.comp_def, List.length_flatten]

theorem Report.startedCount_events (report : Report) :
    startedCount report.events = report.frames.length := by
  obtain ⟨whole, part⟩ := report
  have complete : startedCount (whole.flatMap fun frame => frame.events ++ [.complete]) =
      whole.length := by
    induction whole with
    | nil => rfl
    | cons frame rest ih =>
        rw [List.flatMap_cons, startedCount_append, startedCount_append, frame.started_events, ih]
        simp [startedCount, Nat.add_comm]
  have open_ : startedCount (part.toList.flatMap Announced.events) = part.toList.length := by
    cases part with
    | none => rfl
    | some frame => simpa using frame.started_events
  rw [Report.events, startedCount_append, complete, open_, Report.frames, List.length_append]

theorem Report.payloadCount_events (report : Report) :
    payloadCount report.events = payloadTotal report.sum.frames := by
  obtain ⟨whole, part⟩ := report
  have complete : payloadCount (whole.flatMap fun frame => frame.events ++ [.complete]) =
      payloadTotal (whole.map (·.entry)) := by
    induction whole with
    | nil => rfl
    | cons frame rest ih =>
        rw [List.flatMap_cons, payloadCount_append, payloadCount_append, frame.payload_events, ih]
        simp [payloadCount]
  have open_ : payloadCount (part.toList.flatMap Announced.events) =
      payloadTotal (part.map (·.entry)).toList := by
    cases part with
    | none => rfl
    | some frame => simpa [payloadTotal] using frame.payload_events
  rw [Report.events, payloadCount_append, complete, open_, ← payloadTotal_append]
  rfl

end counts

/-- What a reader may report under its limits: pieces that hold something, whole frames of the
size they announced, and no more of anything than was allowed. -/
structure Report.Bounded (report : Report) (maxBlobBytes maxBlobs maxPayloadBytes : UInt64) :
    Prop where
  pieces : ∀ frame ∈ report.frames, ∀ piece ∈ frame.pieces, piece ≠ []
  complete : ∀ frame ∈ report.whole,
    (frame.pieces.map List.length).sum = frame.digest.size.toNat
  size : ∀ frame ∈ report.frames, frame.digest.size ≤ maxBlobBytes
  started : startedCount report.events ≤ maxBlobs.toNat
  payload : payloadCount report.events ≤ maxPayloadBytes.toNat

/-- However a body is cut into chunks, what comes of it is whole frames and at most the
beginning of one more, within the limits. -/
theorem emitted_report [Protocol] (maxBlobBytes maxBlobs maxPayloadBytes : UInt64)
    (chunks : List Bytes) :
    ∃ report : Report,
      report.events = (emitted (.new maxBlobBytes maxBlobs maxPayloadBytes) chunks).2 ∧
        report.Bounded maxBlobBytes maxBlobs maxPayloadBytes := by
  have valid := PackReader.new_valid maxBlobBytes maxBlobs maxPayloadBytes
  obtain ⟨limits, filled⟩ := emitted_emits valid chunks
  obtain ⟨taken, _, fed⟩ :=
    emitted_feed (PackReader.new maxBlobBytes maxBlobs maxPayloadBytes) chunks
  obtain ⟨sum, added, reached⟩ := (Reached.new maxBlobBytes maxBlobs maxPayloadBytes).feed fed
  obtain ⟨report, shape, rfl⟩ := addAll_report added
  rw [← shape] at filled
  have blobBytes : _ = maxBlobBytes := limits.maxBlobBytes
  have blobs : _ = maxBlobs := limits.maxBlobs
  have payloadBytes : _ = maxPayloadBytes := limits.maxPayloadBytes
  refine ⟨report, shape, ?_, ?_, ?_, ?_, ?_⟩
  · intro frame member piece listed
    exact filled piece (report.mem_events member (List.mem_cons_of_mem _
      (List.mem_map_of_mem listed)))
  · intro frame member
    have whole := reached.payloads frame.entry (List.mem_map_of_mem member)
    simpa [Announced.entry, List.length_flatten] using whole
  · intro frame member
    have among : frame.entry ∈ report.sum.frames := by
      rw [report.sum_frames]
      exact List.mem_map_of_mem member
    calc
      frame.digest.size ≤ _ := (reached.digests frame.entry among).2
      _ = maxBlobBytes := blobBytes
  · calc
      startedCount report.events = report.sum.frames.length := by
        rw [report.startedCount_events, report.sum_frames, List.length_map]
      _ ≤ _ := reached.blobs.2
      _ = maxBlobs.toNat := by rw [blobs]
  · calc
      payloadCount report.events = payloadTotal report.sum.frames := report.payloadCount_events
      _ ≤ _ := reached.payloadBytes.2
      _ = maxPayloadBytes.toNat := by rw [payloadBytes]

end MbxCache.Pack
