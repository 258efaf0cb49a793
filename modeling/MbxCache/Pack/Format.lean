import MbxCache.Protocol
import MbxCache.Pack.Chunking

namespace MbxCache.Pack

open Incremental

def tag : Algorithm → UInt8
  | .blake3 => 1
  | .sha256 => 2

/-- `pack_blob_header` -/
def packBlobHeader [Protocol] (digest : Digest) : Except ApiError Bytes :=
  match Hex.decode digest.hash with
  | none => .error (.badRequest (Protocol.hexError digest.hash))
  | some hash =>
      if hash.length ≠ 32 then .error (.badRequest "invalid digest hash length")
      else
        match digest.algorithmKind with
        | none => .error (.badRequest (Protocol.algorithmError digest.algorithm))
        | some algorithm =>
            .ok (tag algorithm :: hash ++ BigEndian.encode 8 digest.size.toNat)

structure Entry where
  digest : Digest
  payload : Bytes
  deriving DecidableEq, Repr

structure Entry.Valid (entry : Entry) : Prop where
  digest : entry.digest.validate = true
  payload : entry.payload.length = entry.digest.size.toNat

def encodeFrames [Protocol] : List Entry → Except ApiError Bytes
  | [] => .ok []
  | entry :: rest => do
      let header ← packBlobHeader entry.digest
      let frames ← encodeFrames rest
      return header ++ entry.payload ++ frames

def encode [Protocol] (entries : List Entry) : Except ApiError Bytes := do
  let frames ← encodeFrames entries
  return blobPackMagic ++ frames

def extendLast (payload : Bytes) : List Entry → List Entry
  | [] => []
  | [entry] => [{ entry with payload := entry.payload ++ payload }]
  | entry :: rest => entry :: extendLast payload rest

/-- The entries a caller assembles from the events (`read_pack`). -/
def collect (events : List PackEvent) : List Entry :=
  events.foldl (fun entries event =>
    match event with
    | .started digest => entries ++ [⟨digest, []⟩]
    | .payload bytes => extendLast bytes entries
    | .complete => entries) []

def Entry.events (entry : Entry) : List PackEvent :=
  .started entry.digest ::
    (if entry.payload = [] then [.complete] else [.payload entry.payload, .complete])

def payloadTotal (entries : List Entry) : Nat := (entries.map (·.payload.length)).sum

@[simp] theorem payloadTotal_nil : payloadTotal [] = 0 := rfl

@[simp] theorem payloadTotal_cons (entry : Entry) (rest : List Entry) :
    payloadTotal (entry :: rest) = entry.payload.length + payloadTotal rest := by
  simp [payloadTotal]

theorem extendLast_append (payload : Bytes) (front : List Entry) (entry : Entry) :
    extendLast payload (front ++ [entry]) =
      front ++ [{ entry with payload := entry.payload ++ payload }] := by
  induction front with
  | nil => rfl
  | cons first rest ih =>
      cases rest with
      | nil => rfl
      | cons second others =>
          simp only [List.cons_append, extendLast] at ih ⊢
          rw [ih]

theorem collect_events (entries : List Entry) :
    collect (entries.flatMap Entry.events) = entries := by
  unfold collect
  suffices general : ∀ before, (entries.flatMap Entry.events).foldl _ before = before ++ entries by
    exact (general []).trans (List.nil_append _)
  induction entries with
  | nil => simp
  | cons entry rest ih =>
      intro before
      rw [List.flatMap_cons, List.foldl_append]
      have first : entry.events.foldl (fun entries event =>
          match event with
          | .started digest => entries ++ [⟨digest, []⟩]
          | .payload bytes => extendLast bytes entries
          | .complete => entries) before = before ++ [entry] := by
        by_cases empty : entry.payload = []
        · simp only [Entry.events, if_pos empty, List.foldl_cons, List.foldl_nil]
          rw [← empty]
        · simp only [Entry.events, if_neg empty, List.foldl_cons, List.foldl_nil,
            extendLast_append, List.nil_append]
      rw [first, ih]
      simp

namespace PackReader

theorem finish_iff (reader : PackReader) :
    reader.finish = .ok () ↔ reader.state = .header ∧ reader.buffer = [] := by
  unfold finish
  split <;> simp_all

end PackReader

def headerDigest (algorithm : Algorithm) (hash size : Bytes) : Digest :=
  ⟨algorithm.asStr, Hex.encode hash, UInt64.ofNat (BigEndian.decode size)⟩

theorem headerDigest_size {algorithm : Algorithm} {hash size : Bytes}
    (sizeLength : size.length = 8) :
    (headerDigest algorithm hash size).size.toNat = BigEndian.decode size := by
  have small := BigEndian.decode_lt size
  rw [sizeLength] at small
  exact UInt64.toNat_ofNat_of_lt' small

theorem headerDigest_validate {algorithm : Algorithm} {hash size : Bytes}
    (hashLength : hash.length = 32) : (headerDigest algorithm hash size).validate = true := by
  refine (validate_iff _).mpr ⟨⟨algorithm, (algorithmKind_asStr _ _).mpr rfl⟩, ?_, ?_⟩
  · simp [headerDigest, Hex.encode, Hex.chars_length, hashLength]
  · simpa [headerDigest, Hex.encode] using Hex.chars_lower hash

theorem validate_headerDigest {digest : Digest} (valid : digest.validate = true) :
    ∃ algorithm hash size, hash.length = 32 ∧ size.length = 8 ∧
      digest = headerDigest algorithm hash size := by
  obtain ⟨⟨algorithm, kind⟩, length, lower⟩ := (validate_iff digest).mp valid
  obtain ⟨hash, _, hashLength, same⟩ := @Hex.decode_lower digest.hash 32 lower length
  refine ⟨algorithm, hash, BigEndian.encode 8 digest.size.toNat, hashLength,
    BigEndian.encode_length _ _, ?_⟩
  have size : UInt64.ofNat (BigEndian.decode (BigEndian.encode 8 digest.size.toNat)) =
      digest.size := by
    rw [BigEndian.decode_encode 8 _ digest.size.toNat_lt, UInt64.ofNat_toNat]
  rw [headerDigest, same, size, ← (algorithmKind_asStr digest algorithm).mp kind]

theorem packBlobHeader_parts [Protocol] {algorithm : Algorithm} {hash size : Bytes}
    (hashLength : hash.length = 32) (sizeLength : size.length = 8) :
    packBlobHeader (headerDigest algorithm hash size) = .ok (tag algorithm :: hash ++ size) := by
  have kind : (headerDigest algorithm hash size).algorithmKind = some algorithm :=
    (algorithmKind_asStr _ _).mpr rfl
  have whole : BigEndian.encode 8 (BigEndian.decode size) = size := by
    rw [← sizeLength, BigEndian.encode_decode]
  have read : Hex.decode (headerDigest algorithm hash size).hash = some hash :=
    Hex.decode_encode hash
  simp only [packBlobHeader, read, kind, headerDigest_size sizeLength, whole, hashLength, ne_eq,
    not_true, if_false]

namespace PackReader

theorem parseHeader_parts (reader : PackReader) (algorithm : Algorithm) {hash size : Bytes}
    (hashLength : hash.length = 32) (held : reader.buffer = tag algorithm :: hash ++ size) :
    reader.parseHeader =
      if reader.maxBlobBytes < (headerDigest algorithm hash size).size then
        .error (.blobTooLarge (headerDigest algorithm hash size).size reader.maxBlobBytes)
      else .ok (headerDigest algorithm hash size) := by
  have front : (reader.buffer.drop 1).take 32 = hash := by
    simp [held, ← hashLength]
  have back : reader.buffer.drop 33 = size := by
    have total : 33 = (tag algorithm :: hash).length := by simp [hashLength]
    rw [held, total, List.drop_left]
  have first : reader.buffer.headD 0 = tag algorithm := by simp [held]
  cases algorithm <;> simp only [parseHeader, first, front, back, tag] <;> rfl

/-- A header is read exactly when it is one the encoder writes within the limit. -/
theorem parseHeader_iff [Protocol] (reader : PackReader) (digest : Digest)
    (full : reader.buffer.length = blobPackHeaderBytes) :
    reader.parseHeader = .ok digest ↔
      digest.validate = true ∧ digest.size ≤ reader.maxBlobBytes ∧
        packBlobHeader digest = .ok reader.buffer := by
  constructor
  · intro parsed
    obtain ⟨first, rest, held⟩ := List.exists_cons_of_length_eq_add_one full
    have parts : rest = rest.take 32 ++ rest.drop 32 := (List.take_append_drop 32 rest).symm
    rw [held, List.length_cons] at full
    have hashLength : (rest.take 32).length = 32 := by
      simp [List.length_take, blobPackHeaderBytes] at full ⊢
      omega
    have sizeLength : (rest.drop 32).length = 8 := by
      simp [List.length_drop, blobPackHeaderBytes] at full ⊢
      omega
    have tagged : ∃ algorithm, first = tag algorithm := by
      have start : reader.buffer.headD 0 = first := by simp [held]
      unfold parseHeader at parsed
      rw [start] at parsed
      split at parsed
      · exact ⟨.blake3, rfl⟩
      · exact ⟨.sha256, rfl⟩
      · cases parsed
    obtain ⟨algorithm, rfl⟩ := tagged
    rw [parts] at held
    rw [parseHeader_parts reader algorithm hashLength held] at parsed
    split at parsed <;> rename_i limit <;> cases parsed
    exact ⟨headerDigest_validate hashLength, UInt64.not_lt.mp limit,
      held ▸ packBlobHeader_parts hashLength sizeLength⟩
  · rintro ⟨valid, limit, packed⟩
    obtain ⟨algorithm, hash, size, hashLength, sizeLength, rfl⟩ := validate_headerDigest valid
    rw [packBlobHeader_parts hashLength sizeLength] at packed
    rw [parseHeader_parts reader algorithm hashLength (Except.ok.inj packed).symm,
      if_neg (UInt64.not_lt.mpr limit)]

def AtBoundary (reader : PackReader) : Prop := reader.state = .header ∧ reader.buffer = []

theorem push_boundary_nil {reader : PackReader} (boundary : reader.AtBoundary) :
    reader.push [] = .ok (reader, []) :=
  push_nil (boundary_valid boundary.1 boundary.2)

theorem push_header {reader : PackReader} {header : Bytes} (more : Bytes)
    (boundary : reader.AtBoundary) (full : header.length = blobPackHeaderBytes) :
    reader.push (header ++ more) =
      andThen { reader with buffer := header }.beginFrame fun next => next.push more := by
  obtain ⟨state, buffer⟩ := boundary
  have awaits : reader.Awaits blobPackHeaderBytes := .inr ⟨state, rfl⟩
  have empty : reader.buffer.length = 0 := by rw [buffer, List.length_nil]
  have held : reader.buffered header = { reader with buffer := header } := by
    rw [buffered, buffer, List.nil_append]
  have total : ¬ reader.buffer.length + (header ++ more).length < blobPackHeaderBytes := by
    rw [empty, List.length_append, full]
    omega
  have whole : reader.turn (header ++ more) =
      proceed { reader with buffer := header }.beginFrame more := by
    rw [turn_buffering _ awaits (by rw [empty]; decide), if_neg total, empty, Nat.sub_zero, ← full,
      List.take_left, List.drop_left, held]
    simp only [complete, state]
  rw [push_turn, whole]
  cases { reader with buffer := header }.beginFrame with
  | error e => rfl
  | ok pair => rfl

theorem push_short_header {reader last : PackReader} {bytes : Bytes} {events : List PackEvent}
    (boundary : reader.AtBoundary) (given : bytes ≠ [])
    (short : bytes.length < blobPackHeaderBytes)
    (pushed : reader.push bytes = .ok (last, events)) : ¬ last.AtBoundary := by
  obtain ⟨state, buffer⟩ := boundary
  have awaits : reader.Awaits blobPackHeaderBytes := .inr ⟨state, rfl⟩
  have empty : reader.buffer.length = 0 := by rw [buffer, List.length_nil]
  rw [push_turn, turn_buffering _ awaits (by rw [empty]; decide), if_pos (by omega)] at pushed
  cases pushed
  rintro ⟨_, none⟩
  rw [buffered, buffer, List.nil_append] at none
  exact given none

theorem push_short_payload {reader last : PackReader} {bytes : Bytes} {events : List PackEvent}
    (valid : reader.Valid) (state : reader.state = .payload)
    (short : bytes.length < reader.remaining)
    (pushed : reader.push bytes = .ok (last, events)) : ¬ last.AtBoundary := by
  have unfinished : last.state = .payload := by
    by_cases given : bytes = []
    · rw [given, push_nil valid] at pushed
      cases pushed
      exact state
    · have all : bytes.take reader.remaining = bytes :=
        List.take_of_length_le (Nat.le_of_lt short)
      have none : bytes.drop reader.remaining = [] :=
        List.drop_of_length_le (Nat.le_of_lt short)
      rw [push_payload state given, all, none] at pushed
      cases taken : reader.takePayload bytes with
      | error e => simp [taken, andThen] at pushed
      | ok pair =>
          obtain ⟨next, emitted⟩ := pair
          have nextValid := takePayload_valid valid state taken
          simp only [taken, andThen, push_nil nextValid] at pushed
          cases pushed
          obtain ⟨_, rfl, _⟩ := takePayload_ok taken
          have left : ¬ reader.remaining - bytes.length = 0 := by omega
          simp [left, state]
  rintro ⟨header, _⟩
  rw [unfinished] at header
  cases header

def after (reader : PackReader) (entry : Entry) : PackReader :=
  { reader with
    remaining := 0, blobs := reader.blobs + 1
    payloadBytes := reader.payloadBytes + entry.payload.length }

theorem after_boundary {reader : PackReader} (entry : Entry) (boundary : reader.AtBoundary) :
    (reader.after entry).AtBoundary := boundary

/-- What is still needed of an entry once the reader has read those before it. -/
structure Admits (reader : PackReader) (entry : Entry) : Prop where
  valid : entry.Valid
  size : entry.digest.size ≤ reader.maxBlobBytes
  blobs : reader.blobs < reader.maxBlobs.toNat
  payloadBytes : reader.payloadBytes + entry.payload.length ≤ reader.maxPayloadBytes.toNat

theorem push_entry [Protocol] {reader : PackReader} {entry : Entry} {header : Bytes} (more : Bytes)
    (boundary : reader.AtBoundary) (admits : reader.Admits entry)
    (packed : packBlobHeader entry.digest = .ok header)
    (full : header.length = blobPackHeaderBytes) :
    reader.push (header ++ entry.payload ++ more) =
      andThen (.ok (reader.after entry, entry.events)) fun next => next.push more := by
  have parsed : { reader with buffer := header }.parseHeader = .ok entry.digest :=
    (parseHeader_iff _ _ full).mpr ⟨admits.valid.digest, admits.size, packed⟩
  have room : ¬ reader.maxBlobs.toNat < reader.blobs + 1 := by
    have := admits.blobs
    omega
  have length := admits.valid.payload
  obtain ⟨state, buffer⟩ := boundary
  rw [List.append_assoc, push_header _ ⟨state, buffer⟩ full]
  by_cases empty : entry.payload = []
  · have zero : entry.digest.size.toNat = 0 := by rw [← length, empty, List.length_nil]
    have begun : { reader with buffer := header }.beginFrame =
        .ok (reader.after entry, entry.events) := by
      simp only [beginFrame, parsed, bind, Except.bind]
      simp [room, zero, after, Entry.events, empty, state, buffer]
    rw [begun, empty, List.nil_append]
  · have positive : entry.digest.size.toNat ≠ 0 := by
      rw [← length]
      exact fun none => empty (List.length_eq_zero_iff.mp none)
    have begun : { reader with buffer := header }.beginFrame =
        .ok ({ reader with
          buffer := [], remaining := entry.digest.size.toNat, blobs := reader.blobs + 1
          state := .payload }, [.started entry.digest]) := by
      simp only [beginFrame, parsed, bind, Except.bind]
      simp [room, positive]
    have fits : reader.payloadBytes + entry.digest.size.toNat ≤ reader.maxPayloadBytes.toNat := by
      rw [← length]
      exact admits.payloadBytes
    have taken : { reader with
          buffer := [], remaining := entry.digest.size.toNat, blobs := reader.blobs + 1
          state := .payload }.takePayload entry.payload =
        .ok (reader.after entry, [.payload entry.payload, .complete]) := by
      simp [takePayload, Nat.not_lt.mpr fits, length, after, buffer, state]
    simp only [begun, andThen]
    rw [push_payload rfl (by simp [empty])]
    simp only [← length, List.take_left, List.drop_left]
    rw [length, taken]
    simp only [andThen]
    cases (reader.after entry).push more with
    | error e => rfl
    | ok pair => simp [Entry.events, empty]

end PackReader

theorem packBlobHeader_length [Protocol] {digest : Digest} (valid : digest.validate = true) :
    ∃ header, packBlobHeader digest = .ok header ∧ header.length = blobPackHeaderBytes := by
  obtain ⟨algorithm, hash, size, hashLength, sizeLength, rfl⟩ := validate_headerDigest valid
  refine ⟨_, packBlobHeader_parts hashLength sizeLength, ?_⟩
  simp [hashLength, sizeLength, blobPackHeaderBytes]

theorem encodeFrames_cons [Protocol] {entry : Entry} {rest : List Entry} {bytes : Bytes}
    (encoded : encodeFrames (entry :: rest) = .ok bytes) :
    ∃ header frames, packBlobHeader entry.digest = .ok header ∧
      encodeFrames rest = .ok frames ∧ bytes = header ++ entry.payload ++ frames := by
  simp only [encodeFrames, bind, Except.bind] at encoded
  split at encoded
  · cases encoded
  · split at encoded <;> cases encoded
    exact ⟨_, _, ‹_›, ‹_›, rfl⟩

theorem encodeFrames_ok [Protocol] {entries : List Entry}
    (valid : ∀ entry ∈ entries, entry.digest.validate = true) :
    ∃ bytes, encodeFrames entries = .ok bytes := by
  induction entries with
  | nil => exact ⟨[], rfl⟩
  | cons entry rest ih =>
      obtain ⟨header, packed, _⟩ := packBlobHeader_length (valid entry (by simp))
      obtain ⟨frames, encoded⟩ := ih fun entry member => valid entry (by simp [member])
      refine ⟨header ++ entry.payload ++ frames, ?_⟩
      simp only [encodeFrames, packed, encoded]
      rfl

structure PackReader.Fits (reader : PackReader) (entries : List Entry) : Prop where
  valid : ∀ entry ∈ entries, entry.Valid
  size : ∀ entry ∈ entries, entry.digest.size ≤ reader.maxBlobBytes
  blobs : reader.blobs + entries.length ≤ reader.maxBlobs.toNat
  payloadBytes : reader.payloadBytes + payloadTotal entries ≤ reader.maxPayloadBytes.toNat

theorem PackReader.Fits.split {reader : PackReader} {entry : Entry} {rest : List Entry}
    (fits : reader.Fits (entry :: rest)) :
    reader.Admits entry ∧ (reader.after entry).Fits rest := by
  obtain ⟨valid, size, blobs, payloadBytes⟩ := fits
  rw [List.length_cons] at blobs
  rw [payloadTotal_cons] at payloadBytes
  refine ⟨⟨valid entry (by simp), size entry (by simp), by omega, by omega⟩, ?_⟩
  exact ⟨fun entry member => valid entry (by simp [member]),
    fun entry member => size entry (by simp [member]), by simp [after]; omega,
    by simp [after]; omega⟩

theorem PackReader.Fits.join {reader : PackReader} {entry : Entry} {rest : List Entry}
    (admits : reader.Admits entry) (fits : (reader.after entry).Fits rest) :
    reader.Fits (entry :: rest) := by
  obtain ⟨valid, size, blobs, payloadBytes⟩ := fits
  simp only [after] at blobs payloadBytes
  refine ⟨?_, ?_, by simp; omega, by simp; omega⟩
  · simpa using ⟨admits.valid, valid⟩
  · simpa using ⟨admits.size, size⟩

theorem push_encodeFrames [Protocol] {entries : List Entry} {reader : PackReader} {bytes : Bytes}
    (boundary : reader.AtBoundary) (fits : reader.Fits entries)
    (encoded : encodeFrames entries = .ok bytes) :
    ∃ last, reader.push bytes = .ok (last, entries.flatMap Entry.events) ∧ last.AtBoundary ∧
      last.blobs = reader.blobs + entries.length ∧
      last.payloadBytes = reader.payloadBytes + payloadTotal entries := by
  induction entries generalizing reader bytes with
  | nil =>
      cases encoded
      exact ⟨reader, PackReader.push_boundary_nil boundary, boundary, rfl, rfl⟩
  | cons entry rest ih =>
      obtain ⟨header, frames, packed, others, rfl⟩ := encodeFrames_cons encoded
      obtain ⟨admits, tail⟩ := fits.split
      obtain ⟨header', packed', full⟩ := packBlobHeader_length admits.valid.digest
      cases packed.symm.trans packed'
      obtain ⟨last, pushed, ended, blobs, payloadBytes⟩ :=
        ih (PackReader.after_boundary entry boundary) tail others
      refine ⟨last, ?_, ended, ?_, ?_⟩
      · rw [PackReader.push_entry frames boundary admits packed full]
        simp only [andThen, pushed, List.flatMap_cons]
      · rw [blobs, List.length_cons]
        simp only [PackReader.after]
        omega
      · rw [payloadBytes, payloadTotal_cons]
        simp only [PackReader.after]
        omega

theorem push_announced {reader last : PackReader} {digest : Digest} {bytes : Bytes}
    {events : List PackEvent} (within : reader.payloadBytes ≤ reader.maxPayloadBytes.toNat)
    (pushed : { reader with
      buffer := [], remaining := digest.size.toNat, blobs := reader.blobs + 1
      state := if digest.size.toNat = 0 then .header else .payload }.push bytes =
        .ok (last, events))
    (ended : last.AtBoundary) :
    ∃ payload more, bytes = payload ++ more ∧ payload.length = digest.size.toNat ∧
      reader.payloadBytes + payload.length ≤ reader.maxPayloadBytes.toNat := by
  by_cases zero : digest.size.toNat = 0
  · exact ⟨[], bytes, rfl, zero.symm, within⟩
  · rw [if_neg zero] at pushed
    by_cases short : bytes.length < digest.size.toNat
    · have valid : { reader with
          buffer := [], remaining := digest.size.toNat, blobs := reader.blobs + 1
          state := .payload }.Valid := ⟨rfl, Nat.pos_of_ne_zero zero⟩
      exact absurd ended (PackReader.push_short_payload valid rfl short pushed)
    · have given : bytes ≠ [] := by
        rintro rfl
        rw [List.length_nil] at short
        omega
      have length : (bytes.take digest.size.toNat).length = digest.size.toNat := by
        rw [List.length_take]
        omega
      refine ⟨_, _, (List.take_append_drop digest.size.toNat bytes).symm, length, ?_⟩
      rw [PackReader.push_payload rfl given] at pushed
      simp only [andThen] at pushed
      split at pushed
      · cases pushed
      · rename_i taken
        exact (PackReader.takePayload_ok taken).1

theorem push_first [Protocol] {reader last : PackReader} {bytes : Bytes}
    {events : List PackEvent} (boundary : reader.AtBoundary)
    (within : reader.payloadBytes ≤ reader.maxPayloadBytes.toNat) (given : bytes ≠ [])
    (pushed : reader.push bytes = .ok (last, events)) (ended : last.AtBoundary) :
    ∃ entry header more rest, packBlobHeader entry.digest = .ok header ∧
      header.length = blobPackHeaderBytes ∧ bytes = header ++ entry.payload ++ more ∧
      reader.Admits entry ∧ (reader.after entry).push more = .ok (last, rest) := by
  by_cases short : bytes.length < blobPackHeaderBytes
  · exact absurd ended (PackReader.push_short_header boundary given short pushed)
  have full : (bytes.take blobPackHeaderBytes).length = blobPackHeaderBytes := by
    rw [List.length_take]
    omega
  have parts := List.take_append_drop blobPackHeaderBytes bytes
  generalize bytes.take blobPackHeaderBytes = header at full parts
  generalize bytes.drop blobPackHeaderBytes = after at parts
  subst parts
  have read := pushed
  rw [PackReader.push_header after boundary full] at read
  cases begun : { reader with buffer := header }.beginFrame with
  | error e => simp [begun, andThen] at read
  | ok pair =>
      obtain ⟨next, emitted⟩ := pair
      obtain ⟨digest, parsed, room, rfl, _⟩ := PackReader.beginFrame_ok begun
      obtain ⟨valid, size, packed⟩ := (PackReader.parseHeader_iff _ _ full).mp parsed
      simp only [begun, andThen] at read
      split at read
      · cases read
      rename_i announced
      cases read
      obtain ⟨payload, more, rfl, length, total⟩ := push_announced within announced ended
      have admits : reader.Admits ⟨digest, payload⟩ := ⟨⟨valid, length⟩, size, room, total⟩
      rw [← List.append_assoc, PackReader.push_entry more boundary admits packed full] at pushed
      cases later : (reader.after ⟨digest, payload⟩).push more with
      | error e => simp [andThen, later] at pushed
      | ok tail =>
          obtain ⟨stop, rest⟩ := tail
          simp only [andThen, later, Except.ok.injEq, Prod.mk.injEq] at pushed
          obtain ⟨rfl, _⟩ := pushed
          exact ⟨⟨digest, payload⟩, header, more, rest, packed, full, by simp, admits, later⟩

/-- Bytes read to a frame boundary are encoded frames that fit. -/
theorem push_exact [Protocol] {reader last : PackReader} {bytes : Bytes}
    {events : List PackEvent} (boundary : reader.AtBoundary)
    (counted : reader.blobs ≤ reader.maxBlobs.toNat)
    (within : reader.payloadBytes ≤ reader.maxPayloadBytes.toNat)
    (pushed : reader.push bytes = .ok (last, events)) (ended : last.AtBoundary) :
    ∃ entries, encodeFrames entries = .ok bytes ∧ reader.Fits entries := by
  induction length : bytes.length using Nat.strong_induction_on generalizing reader bytes events with
  | _ total ih =>
      by_cases given : bytes = []
      · subst given
        exact ⟨[], rfl, by simp, by simp, by simpa using counted, by simpa using within⟩
      · obtain ⟨entry, header, more, rest, packed, full, rfl, admits, later⟩ :=
          push_first boundary within given pushed ended
        have shorter : more.length < total := by
          rw [← length, List.length_append, List.length_append, full, blobPackHeaderBytes]
          omega
        obtain ⟨entries, encoded, fits⟩ := ih more.length shorter
          (PackReader.after_boundary entry boundary) admits.blobs admits.payloadBytes later rfl
        refine ⟨entry :: entries, ?_, fits.join admits⟩
        simp only [encodeFrames, packed, encoded]
        rfl

theorem turn_new (maxBlobBytes maxBlobs maxPayloadBytes : UInt64) (bytes : Bytes) :
    (PackReader.new maxBlobBytes maxBlobs maxPayloadBytes).turn bytes =
      if bytes.length < 8 then
        .ok (.stop { PackReader.new maxBlobBytes maxBlobs maxPayloadBytes with buffer := bytes })
      else
        PackReader.proceed
          { PackReader.new maxBlobBytes maxBlobs maxPayloadBytes with
            buffer := bytes.take 8 }.checkMagic (bytes.drop 8) := by
  have awaits : (PackReader.new maxBlobBytes maxBlobs maxPayloadBytes).Awaits 8 := .inl ⟨rfl, rfl⟩
  have room : (PackReader.new maxBlobBytes maxBlobs maxPayloadBytes).buffer.length < 8 := by
    simp [PackReader.new]
  have total : (PackReader.new maxBlobBytes maxBlobs maxPayloadBytes).buffer.length +
      bytes.length = bytes.length := Nat.zero_add _
  rw [PackReader.turn_buffering bytes awaits room, total]
  rfl

theorem push_magic (maxBlobBytes maxBlobs maxPayloadBytes : UInt64) (frames : Bytes) :
    (PackReader.new maxBlobBytes maxBlobs maxPayloadBytes).push (blobPackMagic ++ frames) =
      { PackReader.new maxBlobBytes maxBlobs maxPayloadBytes with state := .header }.push
        frames := by
  have long : ¬ (blobPackMagic ++ frames).length < 8 := by
    rw [List.length_append, blobPackMagic_length]
    omega
  have front : (blobPackMagic ++ frames).take 8 = blobPackMagic := by
    rw [← blobPackMagic_length, List.take_left]
  have back : (blobPackMagic ++ frames).drop 8 = frames := by
    rw [← blobPackMagic_length, List.drop_left]
  rw [PackReader.push_turn, turn_new, if_neg long, front, back]
  exact andThen_start _ _

theorem push_magic_exact {maxBlobBytes maxBlobs maxPayloadBytes : UInt64} {bytes : Bytes}
    {last : PackReader} {events : List PackEvent}
    (pushed : (PackReader.new maxBlobBytes maxBlobs maxPayloadBytes).push bytes =
      .ok (last, events)) (ended : last.AtBoundary) :
    ∃ frames, bytes = blobPackMagic ++ frames := by
  rw [PackReader.push_turn, turn_new] at pushed
  by_cases short : bytes.length < 8
  · rw [if_pos short] at pushed
    cases pushed
    cases ended.1
  · rw [if_neg short] at pushed
    refine ⟨bytes.drop 8, ?_⟩
    cases checked : { PackReader.new maxBlobBytes maxBlobs maxPayloadBytes with
        buffer := bytes.take 8 }.checkMagic with
    | error e => simp [checked, PackReader.proceed] at pushed
    | ok pair =>
        obtain ⟨_, _, magic⟩ := PackReader.checkMagic_ok checked
        have front : bytes.take 8 = blobPackMagic := magic
        rw [← front, List.take_append_drop]

structure Reading where
  entries : List Entry
  blobs : Nat
  payloadBytes : Nat
  deriving DecidableEq, Repr

/-- Parse a whole pack in one call (`read_pack`). -/
def readPack (bytes : Bytes) (maxBlobBytes maxBlobs maxPayloadBytes : UInt64) :
    Except PackError Reading := do
  let (reader, events) ← readWhole maxBlobBytes maxBlobs maxPayloadBytes bytes
  return ⟨collect events, reader.blobs, reader.payloadBytes⟩

structure WithinLimits (entries : List Entry) (maxBlobBytes maxBlobs maxPayloadBytes : UInt64) :
    Prop where
  size : ∀ entry ∈ entries, entry.digest.size ≤ maxBlobBytes
  blobs : entries.length ≤ maxBlobs.toNat
  payloadBytes : payloadTotal entries ≤ maxPayloadBytes.toNat

theorem readPack_encode [Protocol] {entries : List Entry}
    {maxBlobBytes maxBlobs maxPayloadBytes : UInt64} (valid : ∀ entry ∈ entries, entry.Valid)
    (limits : WithinLimits entries maxBlobBytes maxBlobs maxPayloadBytes) :
    ∃ bytes, encode entries = .ok bytes ∧
      readPack bytes maxBlobBytes maxBlobs maxPayloadBytes =
        .ok ⟨entries, entries.length, payloadTotal entries⟩ := by
  obtain ⟨frames, encoded⟩ := encodeFrames_ok fun entry member => (valid entry member).digest
  refine ⟨blobPackMagic ++ frames, by simp only [encode, encoded]; rfl, ?_⟩
  have fits : { PackReader.new maxBlobBytes maxBlobs maxPayloadBytes with
      state := .header }.Fits entries :=
    ⟨valid, limits.size, by simpa [PackReader.new] using limits.blobs,
      by simpa [PackReader.new] using limits.payloadBytes⟩
  obtain ⟨last, pushed, ended, blobs, payloadBytes⟩ :=
    push_encodeFrames ⟨rfl, rfl⟩ fits encoded
  have finished := (PackReader.finish_iff last).mpr ended
  simp only [PackReader.new, Nat.zero_add] at blobs payloadBytes
  simp only [readPack, readWhole, push_magic, pushed, finished, bind, Except.bind, pure,
    Except.pure, collect_events, blobs, payloadBytes]

theorem encode_readPack [Protocol] {bytes : Bytes} {reading : Reading}
    {maxBlobBytes maxBlobs maxPayloadBytes : UInt64}
    (read : readPack bytes maxBlobBytes maxBlobs maxPayloadBytes = .ok reading) :
    encode reading.entries = .ok bytes ∧ (∀ entry ∈ reading.entries, entry.Valid) ∧
      WithinLimits reading.entries maxBlobBytes maxBlobs maxPayloadBytes := by
  simp only [readPack, readWhole, bind, Except.bind] at read
  cases pushed : (PackReader.new maxBlobBytes maxBlobs maxPayloadBytes).push bytes with
  | error e => simp [pushed] at read
  | ok pair =>
      obtain ⟨last, events⟩ := pair
      cases finished : last.finish with
      | error e => simp [pushed, finished] at read
      | ok _ =>
          have ended := (PackReader.finish_iff last).mp finished
          obtain ⟨frames, rfl⟩ := push_magic_exact pushed ended
          have framed := pushed
          rw [push_magic] at framed
          obtain ⟨entries, encoded, fits⟩ :=
            push_exact ⟨rfl, rfl⟩ (Nat.zero_le _) (Nat.zero_le _) framed ended
          obtain ⟨last', pushed', _⟩ := push_encodeFrames ⟨rfl, rfl⟩ fits encoded
          cases framed.symm.trans pushed'
          simp only [pushed, finished, pure, Except.pure, Except.ok.injEq] at read
          subst read
          rw [collect_events]
          refine ⟨by simp only [encode, encoded]; rfl, fits.valid, fits.size, ?_, ?_⟩
          · simpa [PackReader.new] using fits.blobs
          · simpa [PackReader.new] using fits.payloadBytes

/-- The reader accepts exactly the packs the encoder writes within the limits, and
reads back what was written. -/
theorem reader_inverts_encoder [Protocol] (maxBlobBytes maxBlobs maxPayloadBytes : UInt64) :
    (∀ entries : List Entry, (∀ entry ∈ entries, entry.Valid) →
      WithinLimits entries maxBlobBytes maxBlobs maxPayloadBytes →
      ∃ bytes, encode entries = .ok bytes ∧
        readPack bytes maxBlobBytes maxBlobs maxPayloadBytes =
          .ok ⟨entries, entries.length, payloadTotal entries⟩) ∧
    (∀ bytes reading, readPack bytes maxBlobBytes maxBlobs maxPayloadBytes = .ok reading →
      encode reading.entries = .ok bytes ∧ (∀ entry ∈ reading.entries, entry.Valid) ∧
        WithinLimits reading.entries maxBlobBytes maxBlobs maxPayloadBytes) ∧
    (∀ bytes bytes' reading reading',
      readPack bytes maxBlobBytes maxBlobs maxPayloadBytes = .ok reading →
      readPack bytes' maxBlobBytes maxBlobs maxPayloadBytes = .ok reading' →
      reading.entries = reading'.entries → bytes = bytes') := by
  refine ⟨fun entries valid limits => readPack_encode valid limits,
    fun bytes reading read => encode_readPack read, ?_⟩
  intro bytes bytes' reading reading' read read' same
  have one := (encode_readPack read).1
  have other := (encode_readPack read').1
  rw [same] at one
  exact Except.ok.inj (one.symm.trans other)

end MbxCache.Pack
