import MbxCache.Pack.Format

namespace MbxCache.Pack

open Incremental

/-- The frames completed so far, and the one still open. -/
structure Assembled where
  entries : List Entry
  opened : Option Entry

namespace Assembled

def start : Assembled := ⟨[], none⟩

def frames (sum : Assembled) : List Entry := sum.entries ++ sum.opened.toList

def add (sum : Assembled) : PackEvent → Option Assembled
  | .started digest =>
      match sum.opened with
      | none => some { sum with opened := some ⟨digest, []⟩ }
      | some _ => none
  | .payload bytes =>
      match sum.opened with
      | none => none
      | some entry => some { sum with
          opened := some { entry with payload := entry.payload ++ bytes } }
  | .complete =>
      match sum.opened with
      | none => none
      | some entry =>
          if entry.payload.length = entry.digest.size.toNat then
            some ⟨sum.entries ++ [entry], none⟩
          else none

def addAll (sum : Assembled) : List PackEvent → Option Assembled
  | [] => some sum
  | event :: rest => (sum.add event).bind fun next => next.addAll rest

theorem addAll_append (sum : Assembled) (front back : List PackEvent) :
    sum.addAll (front ++ back) = (sum.addAll front).bind fun next => next.addAll back := by
  induction front generalizing sum with
  | nil => rfl
  | cons event rest ih =>
      simp only [List.cons_append, addAll]
      cases sum.add event with
      | none => rfl
      | some next => exact ih next

theorem addAll_keeps {early late : Assembled} {events : List PackEvent}
    (added : early.addAll events = some late) :
    early.entries <+: late.entries ∧ ∀ entry, early.opened = some entry → ∃ more,
      (late.entries = early.entries ∧
          late.opened = some { entry with payload := entry.payload ++ more }) ∨
        early.entries ++ [{ entry with payload := entry.payload ++ more }] <+: late.entries := by
  induction events generalizing early with
  | nil =>
      cases added
      exact ⟨List.prefix_rfl, fun entry opened => ⟨[], .inl ⟨rfl, by simp [opened]⟩⟩⟩
  | cons event rest ih =>
      obtain ⟨next, one, others⟩ := Option.bind_eq_some_iff.mp added
      obtain ⟨kept, open_⟩ := ih others
      cases event with
      | started digest =>
          simp only [add] at one
          split at one
          · rename_i none
            cases one
            refine ⟨kept, fun entry opened => ?_⟩
            rw [none] at opened
            cases opened
          · cases one
      | payload bytes =>
          simp only [add] at one
          split at one
          · cases one
          · rename_i entry opened
            cases one
            refine ⟨kept, fun other same => ?_⟩
            rw [opened] at same
            cases same
            obtain ⟨more, continued⟩ := open_ _ rfl
            refine ⟨bytes ++ more, ?_⟩
            simpa only [List.append_assoc] using continued
      | complete =>
          simp only [add] at one
          split at one
          · cases one
          · rename_i entry opened
            split at one
            · cases one
              refine ⟨(List.prefix_append _ _).trans kept, fun other same => ?_⟩
              rw [opened] at same
              cases same
              exact ⟨[], .inr (by simpa using kept)⟩
            · cases one

end Assembled

theorem encodeFrames_snoc [Protocol] {entries : List Entry} {entry : Entry} {bytes header : Bytes}
    (encoded : encodeFrames entries = .ok bytes)
    (packed : packBlobHeader entry.digest = .ok header) :
    encodeFrames (entries ++ [entry]) = .ok (bytes ++ header ++ entry.payload) := by
  induction entries generalizing bytes with
  | nil =>
      cases encoded
      simp only [List.nil_append, encodeFrames, packed]
      simp [bind, Except.bind, pure, Except.pure]
  | cons first rest ih =>
      obtain ⟨front, others, packed', encoded', rfl⟩ := encodeFrames_cons encoded
      simp only [List.cons_append, encodeFrames, packed', ih encoded']
      simp [bind, Except.bind, pure, Except.pure]

theorem encode_snoc [Protocol] {entries : List Entry} (entry : Entry) {pack header : Bytes}
    (encoded : encode entries = .ok pack) (packed : packBlobHeader entry.digest = .ok header) :
    encode (entries ++ [entry]) = .ok (pack ++ header ++ entry.payload) := by
  simp only [encode, bind, Except.bind] at encoded ⊢
  split at encoded
  · cases encoded
  · rename_i frames framed
    cases encoded
    rw [encodeFrames_snoc framed packed]
    simp [pure, Except.pure]

theorem payloadTotal_append (front back : List Entry) :
    payloadTotal (front ++ back) = payloadTotal front + payloadTotal back := by
  simp [payloadTotal]

/-- Where a reader is in the bytes it has consumed, by what it has emitted. -/
structure Reached [Protocol] (reader : PackReader) (sum : Assembled) (consumed : Bytes) :
    Prop where
  valid : reader.Valid
  position : match reader.state with
    | .magic => sum = .start ∧ consumed = reader.buffer
    | .header => sum.opened = none ∧ ∃ pack, encode sum.entries = .ok pack ∧
        consumed = pack ++ reader.buffer
    | .payload => ∃ entry pack header, sum.opened = some entry ∧
        encode sum.entries = .ok pack ∧ packBlobHeader entry.digest = .ok header ∧
        consumed = pack ++ header ++ entry.payload ∧
        entry.payload.length + reader.remaining = entry.digest.size.toNat
  payloads : ∀ entry ∈ sum.entries, entry.payload.length = entry.digest.size.toNat
  digests : ∀ entry ∈ sum.frames, entry.digest.validate = true ∧
    entry.digest.size ≤ reader.maxBlobBytes
  blobs : reader.blobs = sum.frames.length ∧ sum.frames.length ≤ reader.maxBlobs.toNat
  payloadBytes : reader.payloadBytes = payloadTotal sum.frames ∧
    payloadTotal sum.frames ≤ reader.maxPayloadBytes.toNat

namespace Reached

variable [Protocol] {reader next held : PackReader} {sum : Assembled} {consumed rest more : Bytes}
  {events : List PackEvent}

theorem new (maxBlobBytes maxBlobs maxPayloadBytes : UInt64) :
    Reached (.new maxBlobBytes maxBlobs maxPayloadBytes) .start [] where
  valid := PackReader.new_valid _ _ _
  position := ⟨rfl, rfl⟩
  payloads entry member := by cases member
  digests entry member := by cases member
  blobs := ⟨rfl, Nat.zero_le _⟩
  payloadBytes := ⟨rfl, Nat.zero_le _⟩

theorem buffered {wanted : Nat} (reached : Reached reader sum consumed)
    (awaits : reader.Awaits wanted) (bytes : Bytes) (valid : (reader.buffered bytes).Valid) :
    Reached (reader.buffered bytes) sum (consumed ++ bytes) := by
  refine ⟨valid, ?_, reached.payloads, reached.digests, reached.blobs, reached.payloadBytes⟩
  have position := reached.position
  rcases awaits with ⟨state, _⟩ | ⟨state, _⟩
  · simp only [PackReader.buffered, state] at position ⊢
    exact ⟨position.1, by rw [position.2]⟩
  · simp only [PackReader.buffered, state] at position ⊢
    obtain ⟨opened, pack, encoded, rfl⟩ := position
    exact ⟨opened, pack, encoded, List.append_assoc _ _ _⟩

theorem magic (reached : Reached reader sum consumed) (bytes : Bytes)
    (state : reader.state = .magic)
    (checked : (reader.buffered bytes).checkMagic = .ok (next, events)) :
    ∃ after, sum.addAll events = some after ∧ Reached next after (consumed ++ bytes) := by
  obtain ⟨rfl, rfl, magic⟩ := PackReader.checkMagic_ok checked
  have position := reached.position
  simp only [state] at position
  obtain ⟨rfl, rfl⟩ := position
  refine ⟨.start, rfl, PackReader.boundary_valid rfl rfl, ⟨rfl, blobPackMagic, ?_, ?_⟩,
    reached.payloads, reached.digests, reached.blobs, reached.payloadBytes⟩
  · rfl
  · rw [List.append_nil]
    exact magic

theorem header (reached : Reached reader sum consumed) (bytes : Bytes)
    (state : reader.state = .header)
    (full : (reader.buffered bytes).buffer.length = blobPackHeaderBytes)
    (begun : (reader.buffered bytes).beginFrame = .ok (next, events)) :
    ∃ after, sum.addAll events = some after ∧ Reached next after (consumed ++ bytes) := by
  have valid : next.Valid := by
    have completed : (reader.buffered bytes).complete = .ok (next, events) := by
      simpa only [PackReader.complete, PackReader.buffered, state] using begun
    exact PackReader.complete_valid completed
  obtain ⟨digest, parsed, room, rfl, rfl⟩ := PackReader.beginFrame_ok begun
  obtain ⟨validated, limit, packed⟩ := (PackReader.parseHeader_iff _ _ full).mp parsed
  have position := reached.position
  simp only [state] at position
  obtain ⟨opened, pack, encoded, rfl⟩ := position
  obtain ⟨entries, _⟩ := sum
  subst opened
  have spelled : pack ++ reader.buffer ++ bytes = pack ++ (reader.buffered bytes).buffer :=
    List.append_assoc _ _ _
  have count : reader.blobs = entries.length := by
    simpa [Assembled.frames] using reached.blobs.1
  have total := reached.payloadBytes
  simp only [Assembled.frames, Option.toList_none, List.append_nil] at total
  have frames : ∀ entry ∈ entries ++ [⟨digest, []⟩], entry.digest.validate = true ∧
      entry.digest.size ≤ reader.maxBlobBytes := by
    intro entry member
    rcases List.mem_append.mp member with old | same
    · exact reached.digests entry (by simpa [Assembled.frames] using old)
    · rw [List.mem_singleton.mp same]
      exact ⟨validated, limit⟩
  have counted : (entries ++ [(⟨digest, []⟩ : Entry)]).length ≤ reader.maxBlobs.toNat := by
    have room' : reader.blobs < reader.maxBlobs.toNat := room
    rw [List.length_append, List.length_singleton]
    omega
  have payloads : payloadTotal (entries ++ [⟨digest, []⟩]) = payloadTotal entries := by
    simp [payloadTotal_append]
  by_cases zero : digest.size.toNat = 0
  · refine ⟨⟨entries ++ [⟨digest, []⟩], none⟩, ?_, valid, ?_, ?_, ?_, ?_, ?_⟩
    · simp [zero, Assembled.addAll, Assembled.add]
    · simp only [zero, if_true]
      refine ⟨trivial, _, encode_snoc ⟨digest, []⟩ encoded packed, ?_⟩
      rw [spelled]
      simp
    · intro entry member
      rcases List.mem_append.mp member with old | same
      · exact reached.payloads entry old
      · rw [List.mem_singleton.mp same]
        exact zero.symm
    · simpa [Assembled.frames, PackReader.buffered] using frames
    · simp only [Assembled.frames, Option.toList_none, List.append_nil]
      exact ⟨by simp [PackReader.buffered, count], counted⟩
    · simp only [Assembled.frames, Option.toList_none, List.append_nil]
      rw [payloads]
      exact total
  · refine ⟨⟨entries, some ⟨digest, []⟩⟩, ?_, valid, ?_, reached.payloads, ?_, ?_, ?_⟩
    · simp [zero, Assembled.addAll, Assembled.add]
    · simp only [if_neg zero]
      refine ⟨⟨digest, []⟩, pack, _, rfl, encoded, packed, ?_, by simp⟩
      rw [spelled]
      simp
    · simpa [Assembled.frames, PackReader.buffered] using frames
    · simp only [Assembled.frames, Option.toList_some]
      exact ⟨by simp [PackReader.buffered, count], counted⟩
    · simp only [Assembled.frames, Option.toList_some]
      rw [payloads]
      exact total

theorem payload (reached : Reached reader sum consumed) (state : reader.state = .payload)
    (bytes : Bytes) (short : bytes.length ≤ reader.remaining)
    (taken : reader.takePayload bytes = .ok (next, events)) :
    ∃ after, sum.addAll events = some after ∧ Reached next after (consumed ++ bytes) := by
  have valid := PackReader.takePayload_valid reached.valid state taken
  obtain ⟨room, rfl, rfl⟩ := PackReader.takePayload_ok taken
  have position := reached.position
  simp only [state] at position
  obtain ⟨entry, pack, header, opened, encoded, packed, rfl, length⟩ := position
  obtain ⟨entries, _⟩ := sum
  subst opened
  have buffer : reader.buffer = [] := by
    have held := reached.valid
    simp only [PackReader.Valid, state] at held
    exact held.1
  let grown : Entry := { entry with payload := entry.payload ++ bytes }
  have digests : ∀ other ∈ entries ++ [grown], other.digest.validate = true ∧
      other.digest.size ≤ reader.maxBlobBytes := by
    intro other member
    rcases List.mem_append.mp member with old | same
    · exact reached.digests other (List.mem_append_left _ old)
    · rw [List.mem_singleton.mp same]
      exact reached.digests entry (List.mem_append_right _ (by simp))
  have count := reached.blobs
  simp only [Assembled.frames, Option.toList_some, List.length_append, List.length_singleton]
    at count
  have before := reached.payloadBytes
  simp only [Assembled.frames, Option.toList_some, payloadTotal_append, payloadTotal_cons,
    payloadTotal_nil, Nat.add_zero] at before
  have total : payloadTotal (entries ++ [grown]) = reader.payloadBytes + bytes.length := by
    rw [payloadTotal_append, payloadTotal_cons, payloadTotal_nil, before.1]
    simp only [grown, List.length_append]
    omega
  by_cases ended : reader.remaining - bytes.length = 0
  · have whole : grown.payload.length = grown.digest.size.toNat := by
      simp only [grown, List.length_append]
      omega
    refine ⟨⟨entries ++ [grown], none⟩, ?_, valid, ?_, ?_, ?_, ?_, ?_⟩
    · have fits : (entry.payload ++ bytes).length = entry.digest.size.toNat := whole
      simp [ended, Assembled.addAll, Assembled.add, grown] at fits ⊢
      exact fits
    · simp only [ended, if_true]
      refine ⟨trivial, _, encode_snoc grown encoded packed, ?_⟩
      simp [buffer, grown]
    · intro other member
      rcases List.mem_append.mp member with old | same
      · exact reached.payloads other old
      · rw [List.mem_singleton.mp same]
        exact whole
    · simpa [Assembled.frames] using digests
    · simp only [Assembled.frames, Option.toList_none, List.append_nil, List.length_append,
        List.length_singleton]
      exact count
    · simp only [Assembled.frames, Option.toList_none, List.append_nil]
      rw [total]
      exact ⟨rfl, room⟩
  · refine ⟨⟨entries, some grown⟩, ?_, valid, ?_, reached.payloads, ?_, ?_, ?_⟩
    · simp [ended, Assembled.addAll, Assembled.add, grown]
    · simp only [if_neg ended, state]
      refine ⟨grown, pack, header, rfl, encoded, packed, by simp [grown], ?_⟩
      simp only [grown, List.length_append]
      omega
    · exact digests
    · simp only [Assembled.frames, Option.toList_some, List.length_append, List.length_singleton]
      exact count
    · simp only [Assembled.frames, Option.toList_some]
      rw [total]
      exact ⟨rfl, room⟩

/-- One turn of the loop in `push`. -/
theorem turn (reached : Reached reader sum consumed)
    (turned : reader.turn rest = .ok (.again next more events)) :
    ∃ front after, rest = front ++ more ∧ sum.addAll events = some after ∧
      Reached next after (consumed ++ front) := by
  rcases PackReader.valid_cases reached.valid with ⟨wanted, awaits, room⟩ | ⟨state, _, positive⟩
  · rw [PackReader.turn_buffering rest awaits room] at turned
    split at turned
    · cases turned
    · rename_i total
      obtain ⟨completed, rfl⟩ := PackReader.proceed_again turned
      let taken := rest.take (wanted - reader.buffer.length)
      have step : ∃ after, sum.addAll events = some after ∧
          Reached next after (consumed ++ taken) := by
        rcases awaits with ⟨state, rfl⟩ | ⟨state, rfl⟩
        · exact reached.magic taken state (by
            simpa only [PackReader.complete, PackReader.buffered, state] using completed)
        · have full : (reader.buffered taken).buffer.length = blobPackHeaderBytes := by
            simp only [PackReader.buffered, taken, List.length_append, List.length_take]
            omega
          exact reached.header taken state full (by
            simpa only [PackReader.complete, PackReader.buffered, state] using completed)
      obtain ⟨after, added, reached'⟩ := step
      exact ⟨taken, after, (List.take_append_drop _ _).symm, added, reached'⟩
  · by_cases given : rest = []
    · simp [PackReader.turn, state, PackReader.readPayload, given] at turned
    · rw [PackReader.turn_payload state given] at turned
      obtain ⟨taken, rfl⟩ := PackReader.proceed_again turned
      obtain ⟨after, added, reached'⟩ :=
        reached.payload state (rest.take reader.remaining) (List.length_take_le _ _) taken
      exact ⟨_, after, (List.take_append_drop _ _).symm, added, reached'⟩

/-- The last turn of a chunk reads all that is left of it. -/
theorem stop (reached : Reached reader sum consumed)
    (turned : reader.turn rest = .ok (.stop held)) : Reached held sum (consumed ++ rest) := by
  have valid := PackReader.stop_valid reached.valid turned
  rcases PackReader.valid_cases reached.valid with ⟨wanted, awaits, room⟩ | ⟨state, _, positive⟩
  · rw [PackReader.turn_buffering rest awaits room] at turned
    split at turned
    · cases turned
      exact reached.buffered awaits rest valid
    · unfold PackReader.proceed at turned
      split at turned <;> cases turned
  · by_cases given : rest = []
    · simp only [PackReader.turn, state, PackReader.readPayload, given, if_true,
        Except.ok.injEq, PackReader.Turn.stop.injEq] at turned
      subst turned given
      simpa using reached
    · rw [PackReader.turn_payload state given] at turned
      unfold PackReader.proceed at turned
      split at turned <;> cases turned

theorem push {chunk : Bytes} (reached : Reached reader sum consumed)
    (pushed : reader.push chunk = .ok (next, events)) :
    ∃ after, sum.addAll events = some after ∧ Reached next after (consumed ++ chunk) := by
  have loop : ∀ before : List PackEvent, reader.pushLoop chunk before = .ok (next, events) →
      ∃ new, events = before ++ new ∧
        ∃ after, sum.addAll new = some after ∧ Reached next after (consumed ++ chunk) := by
    clear pushed
    intro before pushed
    fun_induction PackReader.pushLoop reader chunk before generalizing sum consumed with
    | case1 reader rest before error turned => cases pushed
    | case2 reader rest before held turned =>
        cases pushed
        exact ⟨[], (List.append_nil _).symm, sum, rfl, reached.stop turned⟩
    | case3 reader rest before middle more emitted turned ih =>
        obtain ⟨front, between, rfl, added, reached'⟩ := reached.turn turned
        obtain ⟨new, rfl, after, added', reached''⟩ := ih reached' pushed
        refine ⟨emitted ++ new, List.append_assoc _ _ _, after, ?_, ?_⟩
        · rw [Assembled.addAll_append, added, Option.bind_some, added']
        · rwa [List.append_assoc] at reached''
  obtain ⟨new, rfl, found⟩ := loop [] pushed
  exact found

theorem feed {chunks : List Bytes} (reached : Reached reader sum consumed)
    (fed : Incremental.feed PackReader.push reader chunks = .ok (next, events)) :
    ∃ after, sum.addAll events = some after ∧ Reached next after (consumed ++ chunks.flatten) := by
  induction chunks generalizing reader sum consumed events with
  | nil =>
      cases fed
      exact ⟨sum, rfl, by simpa using reached⟩
  | cons chunk rest ih =>
      obtain ⟨middle, front, back, pushed, fed', rfl⟩ := Incremental.andThen_ok fed
      obtain ⟨between, added, reached'⟩ := reached.push pushed
      obtain ⟨after, added', reached''⟩ := ih reached' fed'
      refine ⟨after, ?_, ?_⟩
      · rw [Assembled.addAll_append, added, Option.bind_some, added']
      · simpa only [List.flatten_cons, List.append_assoc] using reached''

end Reached
end MbxCache.Pack
