import MbxCache.Pack.Assembly

namespace MbxCache.Pack

open Incremental

variable {reader last : PackReader} {chunks : List Bytes} {sum : Assembled}
  {entries : List Entry} {maxBlobBytes maxBlobs maxPayloadBytes : UInt64}

/-- The frames a reader has reported in some of the first chunks of a body. -/
def Received (reader : PackReader) (chunks : List Bytes) (sum : Assembled) : Prop :=
  ∃ taken next events, taken <+: chunks ∧
    feed PackReader.push reader taken = .ok (next, events) ∧
    Assembled.start.addAll events = some sum

def Unpacks (reader : PackReader) (chunks : List Bytes) (entries : List Entry)
    (last : PackReader) : Prop :=
  ∃ events, feed PackReader.push reader chunks = .ok (last, events) ∧
    Assembled.start.addAll events = some ⟨entries, none⟩ ∧ last.finish = .ok ()

theorem Assembled.addAll_opened {early late : Assembled} {events : List PackEvent} {entry : Entry}
    (added : early.addAll events = some late) (opened : early.opened = some entry) :
    ∃ frame ∈ late.frames, frame.digest = entry.digest := by
  obtain ⟨payload, grown⟩ := (addAll_keeps added).2 entry opened
  refine ⟨{ entry with payload := entry.payload ++ payload }, ?_, rfl⟩
  rcases grown with ⟨_, still⟩ | completed
  · exact List.mem_append_right _ (by rw [still]; exact List.mem_singleton_self _)
  · exact List.mem_append_left _
      (completed.subset (List.mem_append_right _ (List.mem_singleton_self _)))

theorem Unpacks.same {other : List Entry} {last' : PackReader}
    (whole : Unpacks reader chunks entries last) (whole' : Unpacks reader chunks other last') :
    last' = last ∧ other = entries := by
  obtain ⟨events, fed, added, _⟩ := whole
  obtain ⟨events', fed', added', _⟩ := whole'
  cases fed.symm.trans fed'
  cases added.symm.trans added'
  exact ⟨rfl, rfl⟩

namespace Received

theorem start (reader : PackReader) (chunks : List Bytes) : Received reader chunks .start :=
  ⟨[], reader, [], List.nil_prefix, rfl, rfl⟩

theorem reached [Protocol]
    (received : Received (.new maxBlobBytes maxBlobs maxPayloadBytes) chunks sum) :
    ∃ next taken, taken <+: chunks.flatten ∧ Reached next sum taken := by
  obtain ⟨taken, next, events, ⟨rest, rfl⟩, fed, added⟩ := received
  obtain ⟨after, added', reached⟩ := (Reached.new maxBlobBytes maxBlobs maxPayloadBytes).feed fed
  cases added.symm.trans added'
  exact ⟨next, _, ⟨rest.flatten, by simp⟩, reached⟩

theorem initial (received : Received reader chunks sum)
    (whole : Unpacks reader chunks entries last) : sum.entries <+: entries ∧
      ∀ frame ∈ sum.frames, ∃ entry ∈ entries, entry.digest = frame.digest := by
  obtain ⟨taken, next, events, ⟨rest, rfl⟩, fed, added⟩ := received
  obtain ⟨all, fed', added', _⟩ := whole
  rw [feed_append, fed] at fed'
  obtain ⟨_, _, more, same, _, rfl⟩ := andThen_ok fed'
  cases same
  rw [Assembled.addAll_append, added, Option.bind_some] at added'
  have kept := (Assembled.addAll_keeps added').1
  refine ⟨kept, ?_⟩
  intro frame member
  rcases List.mem_append.mp member with complete | current
  · exact ⟨frame, kept.subset complete, rfl⟩
  · obtain ⟨entry, listed, named⟩ :=
      Assembled.addAll_opened added' (Option.mem_toList.mp current)
    exact ⟨entry, by simpa [Assembled.frames] using listed, named⟩

theorem within [Protocol] {early : Assembled} {more : List PackEvent} {entry : Entry}
    (received : Received (.new maxBlobBytes maxBlobs maxPayloadBytes) chunks sum)
    (reaches : early.addAll more = some sum) (opened : early.opened = some entry) :
    entry.payload.length ≤ entry.digest.size.toNat := by
  obtain ⟨next, taken, _, reached⟩ := received.reached
  obtain ⟨rest, ⟨_, still⟩ | completed⟩ := (Assembled.addAll_keeps reaches).2 entry opened
  · have position := reached.position
    cases state : next.state with
    | magic =>
        simp only [state] at position
        rw [position.1] at still
        cases still
    | header =>
        simp only [state] at position
        rw [position.1] at still
        cases still
    | payload =>
        simp only [state] at position
        obtain ⟨current, _, _, opened', _, _, _, length⟩ := position
        cases opened'.symm.trans still
        simp only [List.length_append] at length
        omega
  · have whole := reached.payloads _
      (completed.subset (List.mem_append_right _ (List.mem_singleton_self _)))
    simp only [List.length_append] at whole
    omega

theorem opens {early : Assembled} {more : List PackEvent} {entry : Entry}
    (received : Received reader chunks sum) (reaches : early.addAll more = some sum)
    (opened : early.opened = some entry) (whole : Unpacks reader chunks entries last) :
    ∃ payload, early.entries ++ [{ entry with payload := entry.payload ++ payload }] <+:
      entries := by
  obtain ⟨taken, next, events, ⟨rest, rfl⟩, fed, added⟩ := received
  obtain ⟨all, fed', added', _⟩ := whole
  rw [feed_append, fed] at fed'
  obtain ⟨_, _, others, same, _, rfl⟩ := andThen_ok fed'
  cases same
  rw [Assembled.addAll_append, added, Option.bind_some] at added'
  have all : early.addAll (more ++ others) = some ⟨entries, none⟩ := by
    rw [Assembled.addAll_append, reaches, Option.bind_some]
    exact added'
  obtain ⟨payload, ⟨_, still⟩ | completed⟩ := (Assembled.addAll_keeps all).2 entry opened
  · cases still
  · exact ⟨payload, completed⟩

end Received

/-- Two packs of the same bytes have the same frames. -/
theorem encode_inj [Protocol] {other : List Entry} {bytes : Bytes}
    (encoded : encode entries = .ok bytes) (encoded' : encode other = .ok bytes)
    (valid : ∀ entry ∈ entries, entry.Valid) (valid' : ∀ entry ∈ other, entry.Valid)
    (limits : WithinLimits entries maxBlobBytes maxBlobs maxPayloadBytes)
    {maxBlobBytes' maxBlobs' maxPayloadBytes' : UInt64}
    (limits' : WithinLimits other maxBlobBytes' maxBlobs' maxPayloadBytes') : entries = other := by
  have most : ∀ {entries : List Entry} {a b c : UInt64}, WithinLimits entries a b c →
      WithinLimits entries (-1) (-1) (-1) := by
    intro entries a b c limits
    have top : (-1 : UInt64).toNat = 2 ^ 64 - 1 := rfl
    refine ⟨fun entry _ => ?_, ?_, ?_⟩
    · have small := entry.digest.size.toNat_lt
      rw [UInt64.le_iff_toNat_le, top]
      omega
    · have small := b.toNat_lt
      have blobs := limits.blobs
      omega
    · have small := c.toNat_lt
      have bytes := limits.payloadBytes
      omega
  obtain ⟨bytes', same, read⟩ := readPack_encode valid (most limits)
  obtain ⟨bytes'', same', read'⟩ := readPack_encode valid' (most limits')
  cases encoded.symm.trans same
  cases encoded'.symm.trans same'
  exact congrArg Reading.entries (Except.ok.inj (read.symm.trans read'))

namespace Reached

variable [Protocol] {consumed : Bytes}

theorem valid_entries (reached : Reached reader sum consumed) :
    ∀ entry ∈ sum.entries, entry.Valid := fun entry member =>
  ⟨(reached.digests entry (List.mem_append_left _ member)).1, reached.payloads entry member⟩

theorem boundary (reached : Reached reader sum consumed) (ended : reader.finish = .ok ()) :
    sum = ⟨sum.entries, none⟩ ∧ encode sum.entries = .ok consumed ∧
      WithinLimits sum.entries reader.maxBlobBytes reader.maxBlobs reader.maxPayloadBytes ∧
      reader.blobs = sum.entries.length ∧ reader.payloadBytes = payloadTotal sum.entries := by
  obtain ⟨state, buffer⟩ := (PackReader.finish_iff reader).mp ended
  have position := reached.position
  simp only [state] at position
  obtain ⟨opened, pack, encoded, rfl⟩ := position
  obtain ⟨entries, current⟩ := sum
  cases opened
  have digests := reached.digests
  have blobs := reached.blobs
  have payloadBytes := reached.payloadBytes
  simp only [Assembled.frames, Option.toList_none, List.append_nil] at digests blobs payloadBytes
  refine ⟨rfl, ?_, ⟨fun entry member => (digests entry member).2, blobs.2, payloadBytes.2⟩,
    blobs.1, payloadBytes.1⟩
  rw [buffer, List.append_nil]
  exact encoded

end Reached

/-- A body is read to its end exactly if it is a pack within the limits. -/
theorem whole_iff [Protocol] :
    (∃ last, Unpacks (.new maxBlobBytes maxBlobs maxPayloadBytes) chunks entries last) ↔
      encode entries = .ok chunks.flatten ∧ (∀ entry ∈ entries, entry.Valid) ∧
        WithinLimits entries maxBlobBytes maxBlobs maxPayloadBytes := by
  have agree := PackReader.push_splits.feed_flatten
    (PackReader.new maxBlobBytes maxBlobs maxPayloadBytes) chunks (PackReader.new_valid _ _ _)
  constructor
  · rintro ⟨last, events, fed, added, ended⟩
    obtain ⟨sum, added', reached⟩ := (Reached.new maxBlobBytes maxBlobs maxPayloadBytes).feed fed
    cases added.symm.trans added'
    obtain ⟨_, encoded, limits, _⟩ := reached.boundary ended
    rw [fed] at agree
    generalize pushed : PackReader.push _ chunks.flatten = whole at agree
    cases agree with
    | @emitted _ _ all same =>
        have read : readPack chunks.flatten maxBlobBytes maxBlobs maxPayloadBytes =
            .ok ⟨collect all, last.blobs, last.payloadBytes⟩ := by
          simp only [readPack, readWhole, pushed, ended, bind, Except.bind, pure, Except.pure]
        obtain ⟨encoded', valid', limits'⟩ := encode_readPack read
        have equal : entries = collect all :=
          encode_inj encoded encoded' reached.valid_entries valid' limits limits'
        rw [equal]
        exact ⟨encoded', valid', limits'⟩
  · rintro ⟨encoded, valid, limits⟩
    obtain ⟨bytes, encoded', read⟩ := readPack_encode valid limits
    cases encoded.symm.trans encoded'
    simp only [readPack, readWhole, bind, Except.bind] at read
    generalize pushed : PackReader.push _ chunks.flatten = whole at agree read
    generalize fed : feed PackReader.push _ chunks = inChunks at agree
    cases agree with
    | failed error => cases read
    | @emitted last events all same =>
        simp only at read
        cases ended : last.finish with
        | error error =>
            rw [ended] at read
            cases read
        | ok _ =>
            obtain ⟨sum, added, reached⟩ :=
              (Reached.new maxBlobBytes maxBlobs maxPayloadBytes).feed fed
            obtain ⟨shape, encoded', limits', _⟩ := reached.boundary ended
            have equal : sum.entries = entries :=
              encode_inj encoded' encoded reached.valid_entries valid limits' limits
            rw [shape, equal] at added
            exact ⟨last, events, fed, added, ended⟩

theorem Unpacks.counters [Protocol]
    (whole : Unpacks (.new maxBlobBytes maxBlobs maxPayloadBytes) chunks entries last) :
    last.blobs = entries.length ∧ last.payloadBytes = payloadTotal entries := by
  obtain ⟨events, fed, added, ended⟩ := whole
  obtain ⟨sum, added', reached⟩ := (Reached.new maxBlobBytes maxBlobs maxPayloadBytes).feed fed
  cases added.symm.trans added'
  exact (reached.boundary ended).2.2.2

end MbxCache.Pack
