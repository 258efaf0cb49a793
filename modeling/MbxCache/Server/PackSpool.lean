import MbxCache.Server.SpoolAccounts

namespace MbxCache

open Concurrent Pack

structure Intake where
  config : ServerConfig
  ns : String
  blobs : UInt64
  bytes : UInt64
  body : Body

namespace Intake

def reader (intake : Intake) : PackReader :=
  .new intake.config.maxBlobBytes intake.blobs intake.bytes

def Receives (intake : Intake) : Assembled → Prop := Received intake.reader intake.body.chunks

def limit (intake : Intake) : Nat := max 1 intake.config.packStoreConcurrency

def Opens (intake : Intake) (sum : Assembled) (digest : Digest) : Prop :=
  sum.opened = none ∧ ∃ more last,
    Assembled.addAll ⟨sum.entries, some ⟨digest, []⟩⟩ more = some last ∧ intake.Receives last

section
variable [Protocol] {M : Type} [MetadataStore M]

def Spools (hand : List Lease) : Option PackFrame → Option Entry → Prop
  | none, none => hand = []
  | some frame, some entry => frame.digest = entry.digest ∧ frame.file = entry.payload ∧
      ∃ permits ≤ permitsFor entry.digest.size,
        hand = [⟨entry.digest.size, permits, some entry.payload⟩]
  | _, _ => False

/-- Where the loop is: every completed frame went to a store, and those not waited for yet are
the ones in its list. -/
structure Tally (intake : Intake) (sum : Assembled) (up : Uploading)
    (trail : Trail (spoolEstate M)) : Prop where
  frame : Spools trail.hand up.frame sum.opened
  started : trail.started = sum.entries.map fun entry =>
    .store intake.ns entry.digest entry.payload
  pending : (trail.joined ++ up.stores).Perm (List.range trail.started.length)
  few : up.stores.length ≤ intake.limit

/-- The store of the last completed frame has not been waited for. -/
def Fresh (sum : Assembled) (up : Uploading) : Prop :=
  ∀ count, sum.entries.length = count + 1 → count ∈ up.stores

def Left (up : Uploading) (trail : Trail (spoolEstate M)) : Prop :=
  match up.frame with
  | none => trail.hand = []
  | some _ => trail.hand.length = 1

def AimOrLeft {A : Type} (aim : A → Uploading → Trail (spoolEstate M) → Prop)
    (result : Uploading × Except ApiError A) (trail : Trail (spoolEstate M)) : Prop :=
  match result with
  | (up, .ok value) => aim value up trail
  | (up, .error _) => Left up trail

def Yields {A : Type} (up : Uploading) (aim : A → Trail (spoolEstate M) → Prop)
    (result : Except ApiError A) (trail : Trail (spoolEstate M)) : Prop :=
  match result with
  | .ok value => aim value trail
  | .error _ => Left up trail

variable {intake : Intake} {sum next last : Assembled} {up : Uploading}
  {trail : Trail (spoolEstate M)} {bounded : Bool}
  {Room : UInt64 → Trail (spoolEstate M) → Prop} {A B : Type}

theorem Tally.left (tally : intake.Tally sum up trail) : Left up trail := by
  have frame := tally.frame
  unfold Left
  cases held : up.frame with
  | none =>
      cases opened : sum.opened with
      | none =>
          rw [held, opened] at frame
          exact frame
      | some entry =>
          rw [held, opened] at frame
          exact frame.elim
  | some spool =>
      cases opened : sum.opened with
      | none =>
          rw [held, opened] at frame
          exact frame.elim
      | some entry =>
          rw [held, opened] at frame
          obtain ⟨_, _, permits, _, alone⟩ := frame
          rw [alone]
          rfl

theorem proceed_safe {first : Spool.Reads A} {next : Uploading → A → Spool.Reads B}
    {middle : A → Uploading → Trail (spoolEstate M) → Prop}
    {aim : B → Uploading → Trail (spoolEstate M) → Prop}
    (safe : (spoolLedger bounded Room).Safe first (AimOrLeft middle) trail)
    (rest : ∀ value up after, middle value up after →
      (spoolLedger bounded Room).Safe (next up value) (AimOrLeft aim) after) :
    (spoolLedger bounded Room).Safe (Spool.proceed first next) (AimOrLeft aim) trail := by
  apply Logic.Safe.seq safe
  rintro ⟨up, error | value⟩ after came
  · exact Ledger.done came
  · exact rest value up after came

theorem handle_safe {handler : Spooler A} {next : A → Spool.Reads B}
    {middle : A → Trail (spoolEstate M) → Prop}
    {aim : B → Uploading → Trail (spoolEstate M) → Prop}
    (safe : (spoolLedger bounded Room).Safe handler (Yields up middle) trail)
    (rest : ∀ value after, middle value after →
      (spoolLedger bounded Room).Safe (next value) (AimOrLeft aim) after) :
    (spoolLedger bounded Room).Safe (Spool.handle up handler next) (AimOrLeft aim) trail := by
  apply Logic.Safe.seq safe
  rintro (error | value) after came
  · exact Ledger.done came
  · exact rest value after came

theorem next_safe (pending : (trail.joined ++ up.stores).Perm (List.range trail.started.length)) :
    (spoolLedger bounded Room).Safe (Spool.next up) (fun (taken, result) after =>
      taken.frame = up.frame ∧ after.hand = trail.hand ∧ after.started = trail.started ∧
        (after.joined ++ taken.stores).Perm (List.range after.started.length) ∧
        (result = .ok () → taken.stores.length + 1 = up.stores.length)) trail := by
  apply Ledger.join
  intro id out among _
  have moved : (trail.joined ++ [id] ++ up.stores.erase id).Perm
      (List.range trail.started.length) := by
    rw [List.append_assoc]
    exact ((List.perm_cons_erase among).symm.append_left _).trans pending
  simp only
  cases up.receipt.count out with
  | error error => exact Ledger.done ⟨rfl, rfl, rfl, moved, nofun⟩
  | ok receipt =>
      refine Ledger.done ⟨rfl, rfl, rfl, moved, fun _ => ?_⟩
      rw [List.length_erase_of_mem among]
      exact Nat.succ_pred_eq_of_pos (List.length_pos_of_mem among)

theorem makeRoom_safe (few : up.stores.length ≤ intake.limit)
    (pending : (trail.joined ++ up.stores).Perm (List.range trail.started.length)) :
    (spoolLedger bounded Room).Safe (Spool.makeRoom intake.config up) (fun (taken, result) after =>
      taken.frame = up.frame ∧ after.hand = trail.hand ∧ after.started = trail.started ∧
        (after.joined ++ taken.stores).Perm (List.range after.started.length) ∧
        (result = .ok () → taken.stores.length < intake.limit)) trail := by
  unfold Spool.makeRoom
  split
  · apply (next_safe pending).mono
    rintro ⟨taken, result⟩ after ⟨frame, held, started, left, fewer⟩
    refine ⟨frame, held, started, left, fun well => ?_⟩
    have fewer := fewer well
    omega
  · rename_i room
    refine Ledger.done ⟨rfl, rfl, rfl, pending, fun _ => ?_⟩
    unfold limit
    rw [Bool.and_eq_true, not_and_or] at room
    rcases room with free | none
    · have free : up.stores.length < intake.config.packStoreConcurrency := by simpa using free
      omega
    · have none : up.stores = [] := by simpa using none
      rw [none, List.length_nil]
      omega

/-- A store holds its frame to its end, and nothing else. -/
theorem store_minor (ns : String) (digest : Digest) (bytes : Bytes) (lease : Lease) :
    (spoolLedger (M := M) bounded Room).Minor (Spool.storeFrame ns digest bytes) [lease] := by
  have drops : ∀ result : Except ApiError PutOutcome,
      (spoolLedger (M := M) bounded Room).Minor (Spool.dropping 0 (.done (.stored result)))
        [lease] := by
    intro result
    apply Ledger.call trivial
    intro choice state _
    apply Ledger.call
    · intro other found
      cases found
      rfl
    · exact fun _ _ _ => Ledger.done rfl
  apply Ledger.call trivial
  rintro choice state _
  simp only [Spool.exec]
  cases (exec choice.choice (.put digest bytes) state.server).2 with
  | error failure => exact drops _
  | ok outcome =>
      apply Ledger.call trivial
      rintro choice state _
      simp only [Spool.exec]
      cases (exec choice.choice (.registerBlob ns digest outcome) state.server).2 with
      | error failure => exact drops _
      | ok _ => exact drops _

theorem spawn_safe {entry : Entry} {frame : PackFrame}
    (started : trail.started = sum.entries.map fun entry =>
      .store intake.ns entry.digest entry.payload)
    (pending : (trail.joined ++ up.stores).Perm (List.range trail.started.length))
    (room : up.stores.length < intake.limit) (vacant : up.frame = none)
    (spooled : Spools trail.hand (some frame) (some entry)) :
    (spoolLedger bounded Room).Safe (.spawn (.store intake.ns frame.digest frame.file) fun id =>
        .done ({ up with stores := up.stores ++ [id] }, .ok ()) : Spool.Reads Unit)
      (AimOrLeft fun _ up after => intake.Tally ⟨sum.entries ++ [entry], none⟩ up after ∧
        Fresh ⟨sum.entries ++ [entry], none⟩ up) trail := by
  obtain ⟨digest, file, permits, most, alone⟩ := spooled
  rw [digest, file]
  have count : trail.started.length = sum.entries.length := by rw [started, List.length_map]
  apply Ledger.spawn
  · rw [alone]
    exact ⟨store_minor _ _ _ _, most⟩
  · apply Ledger.done
    refine ⟨⟨?_, ?_, ?_, ?_⟩, ?_⟩
    · simp only [vacant, alone]
      rfl
    · simp [started]
    · rw [← List.append_assoc, List.length_append, List.length_singleton, List.range_succ]
      exact pending.append_right _
    · rw [List.length_append, List.length_singleton]
      exact Nat.succ_le_of_lt room
    · intro before length
      rw [List.length_append, List.length_singleton, Nat.add_right_cancel_iff] at length
      rw [← length, ← count]
      exact List.mem_append_right _ (List.mem_singleton_self _)

theorem new_safe {digest : Digest} {permits : Nat} {bytes : Option Bytes}
    (held : trail.hand = [⟨digest.size, permits, bytes⟩]) :
    (spoolLedger bounded Room).Safe (Spool.PackFrame.new digest) (fun result after => ∃ file,
      after = { trail with hand := [⟨digest.size, permits, file⟩] } ∧
        ∀ frame, result = .ok frame → file = some [] ∧ frame = ⟨digest, [], 0, Hashing.new⟩)
      trail := by
  apply Logic.Safe.seq (Spool.create_safe held)
  rintro (error | _) after ⟨file, rfl, created⟩
  · exact Ledger.done ⟨file, rfl, nofun⟩
  · refine Ledger.done ⟨file, rfl, ?_⟩
    rintro frame same
    cases same
    exact ⟨created rfl, rfl⟩

theorem started_safe {digest : Digest} (tally : intake.Tally sum up trail) (fresh : Fresh sum up)
    (opens : intake.Opens sum digest) (room : Room digest.size trail) :
    (spoolLedger bounded Room).Safe (Spool.event intake.config intake.ns up (.started digest))
      (AimOrLeft fun _ up after => intake.Tally ⟨sum.entries, some ⟨digest, []⟩⟩ up after ∧
        Fresh ⟨sum.entries, some ⟨digest, []⟩⟩ up) trail := by
  have frame := tally.frame
  rw [opens.1] at frame
  cases held : up.frame with
  | some spool =>
      rw [held] at frame
      exact frame.elim
  | none =>
      rw [held] at frame
      have empty : trail.hand = [] := frame
      have taken : (spoolLedger bounded Room).Safe (Spool.reserve digest.size)
          (Yields up fun _ after => ∃ permits ≤ permitsFor digest.size,
            after = { trail with hand := [⟨digest.size, permits, none⟩] }) trail := by
        apply (Spool.reserve_safe room).mono
        rintro (error | _) after taken
        · rw [show after = trail from taken]
          exact tally.left
        · simpa only [Yields, empty] using taken
      apply handle_safe taken
      rintro _ after ⟨permits, most, rfl⟩
      apply Logic.Safe.seq (new_safe rfl)
      rintro (error | begun) after ⟨file, rfl, fresh'⟩
      · apply Spool.dropping_safe rfl
        apply Ledger.done
        simp only [AimOrLeft, Left, held]
      · obtain ⟨rfl, rfl⟩ := fresh' begun rfl
        simp only [Spool.replacing, held]
        exact Ledger.done ⟨⟨⟨rfl, rfl, permits, most, rfl⟩, tally.started, tally.pending,
          tally.few⟩, fresh⟩

theorem payload_safe {entry : Entry} {payload : Bytes} (tally : intake.Tally sum up trail)
    (fresh : Fresh sum up) (opened : sum.opened = some entry)
    (fits : entry.payload.length + payload.length ≤ entry.digest.size.toNat) :
    (spoolLedger bounded Room).Safe (Spool.event intake.config intake.ns up (.payload payload))
      (AimOrLeft fun _ up after =>
        intake.Tally { sum with
          opened := some { entry with payload := entry.payload ++ payload } } up after ∧
        Fresh sum up) trail := by
  have frame := tally.frame
  have left := tally.left
  rw [opened] at frame
  unfold Left at left
  simp only [Spool.event]
  cases held : up.frame with
  | none =>
      rw [held] at frame
      exact frame.elim
  | some spool =>
      rw [held] at frame left
      obtain ⟨digest, file, permits, most, alone⟩ := frame
      have written : (spoolLedger bounded Room).Safe (Spool.PackFrame.write spool payload)
          (Yields up fun written after =>
            (written.digest = entry.digest ∧ written.file = entry.payload ++ payload) ∧
              after = { trail with
                hand := [⟨entry.digest.size, permits, some (entry.payload ++ payload)⟩] })
          trail := by
        unfold Spool.PackFrame.write
        cases algorithmOf spool.digest with
        | error error => exact Ledger.done (by simpa only [Yields, Left, held] using left)
        | ok algorithm =>
            apply Logic.Safe.seq (Spool.writeAll_safe alone fits)
            rintro (error | _) after ⟨bytes, rfl, whole⟩
            · exact Ledger.done (by simp only [Yields, Left, held]; rfl)
            · rw [whole rfl]
              exact Ledger.done ⟨⟨digest, congrArg (· ++ payload) file⟩, rfl⟩
      apply handle_safe written
      rintro spool after ⟨⟨digest', file'⟩, rfl⟩
      exact Ledger.done ⟨⟨⟨digest', file', permits, most, rfl⟩, tally.started, tally.pending,
        tally.few⟩, fresh⟩

theorem complete_safe {entry : Entry} (tally : intake.Tally sum up trail)
    (opened : sum.opened = some entry) :
    (spoolLedger bounded Room).Safe (Spool.event intake.config intake.ns up .complete)
      (AimOrLeft fun _ up after => intake.Tally ⟨sum.entries ++ [entry], none⟩ up after ∧
        Fresh ⟨sum.entries ++ [entry], none⟩ up) trail := by
  have frame := tally.frame
  rw [opened] at frame
  simp only [Spool.event]
  cases held : up.frame with
  | none =>
      rw [held] at frame
      exact frame.elim
  | some finished =>
      rw [held] at frame
      have single : trail.hand.length = 1 := by
        obtain ⟨_, _, permits, _, alone⟩ := frame
        rw [alone]
        rfl
      have verified : (spoolLedger bounded Room).Safe (Spool.PackFrame.verify finished)
          (fun _ after => after = trail) trail :=
        Spool.both_safe Spool.flush_safe fun _ _ same => Ledger.done same
      apply Logic.Safe.seq verified
      rintro (error | _) after rfl
      · exact Spool.dropping_safe single (Ledger.done rfl)
      · have few : ({ up with frame := none } : Uploading).stores.length ≤ intake.limit := tally.few
        apply Logic.Safe.seq (makeRoom_safe few tally.pending)
        rintro ⟨taken, error | _⟩ after ⟨vacant, same, started, pending, room⟩
        · apply Spool.dropping_safe (by rw [same]; exact single)
          apply Ledger.done
          simp only [AimOrLeft, Left, vacant]
        · apply spawn_safe (started.trans tally.started) pending (room rfl) vacant
          rw [same]
          exact frame

/-- Before each event the upload is where its frames say, and there is room for a frame that
opens. -/
theorem event_safe {event : PackEvent} {more : List PackEvent}
    (room : ∀ {sum up trail digest}, intake.Tally sum up trail → Fresh sum up →
      intake.Opens sum digest → Room digest.size trail)
    (tally : intake.Tally sum up trail) (fresh : Fresh sum up)
    (added : sum.add event = some next) (reaches : next.addAll more = some last)
    (received : intake.Receives last) :
    (spoolLedger bounded Room).Safe (Spool.event intake.config intake.ns up event)
      (AimOrLeft fun _ up after => intake.Tally next up after ∧ Fresh next up) trail := by
  cases event with
  | started digest =>
      simp only [Assembled.add] at added
      split at added
      · rename_i closed
        cases added
        have opens : intake.Opens sum digest := ⟨closed, more, last, reaches, received⟩
        exact started_safe tally fresh opens (room tally fresh opens)
      · cases added
  | payload bytes =>
      simp only [Assembled.add] at added
      split at added
      · cases added
      · rename_i entry opened
        cases added
        have fits := Received.within received reaches rfl
        rw [List.length_append] at fits
        exact payload_safe tally fresh opened fits
  | complete =>
      simp only [Assembled.add] at added
      split at added
      · cases added
      · rename_i entry opened
        split at added
        · cases added
          exact complete_safe tally opened
        · cases added

theorem events_safe (events : List PackEvent)
    (room : ∀ {sum up trail digest}, intake.Tally sum up trail → Fresh sum up →
      intake.Opens sum digest → Room digest.size trail)
    (tally : intake.Tally sum up trail) (fresh : Fresh sum up)
    (added : sum.addAll events = some last) (received : intake.Receives last) :
    (spoolLedger bounded Room).Safe (Spool.events intake.config intake.ns up events)
      (AimOrLeft fun _ up after => intake.Tally last up after ∧ Fresh last up) trail := by
  induction events generalizing sum up trail with
  | nil =>
      cases added
      exact Ledger.done ⟨tally, fresh⟩
  | cons event rest ih =>
      obtain ⟨next, one, others⟩ := Option.bind_eq_some_iff.mp added
      apply proceed_safe (event_safe room tally fresh one others received)
      rintro _ up after ⟨tally, fresh⟩
      exact ih tally fresh others

theorem chunks_safe {reader : PackReader} {taken rest : List Bytes} {events : List PackEvent}
    (room : ∀ {sum up trail digest}, intake.Tally sum up trail → Fresh sum up →
      intake.Opens sum digest → Room digest.size trail)
    (tally : intake.Tally sum up trail) (fresh : Fresh sum up)
    (fed : Incremental.feed PackReader.push intake.reader taken = .ok (reader, events))
    (added : Assembled.start.addAll events = some sum)
    (split : taken ++ rest = intake.body.chunks) :
    (spoolLedger bounded Room).Safe (Spool.chunks intake.config intake.ns up reader rest)
      (AimOrLeft fun _ up after => Left up after) trail := by
  induction rest generalizing sum up trail reader taken events with
  | nil => exact Ledger.done tally.left
  | cons chunk rest ih =>
      unfold Spool.chunks
      cases pushed : reader.push chunk with
      | error error => exact Ledger.done tally.left
      | ok pair =>
          obtain ⟨next, emitted⟩ := pair
          obtain ⟨held, known, reached⟩ := (Reached.new _ _ _).feed fed
          cases added.symm.trans known
          obtain ⟨last, added', _⟩ := reached.push pushed
          have fed' : Incremental.feed PackReader.push intake.reader (taken ++ [chunk]) =
              .ok (next, events ++ emitted) := by
            rw [Incremental.feed_append, fed]
            simp [Incremental.andThen, Incremental.feed, pushed]
          have all : Assembled.start.addAll (events ++ emitted) = some last := by
            rw [Assembled.addAll_append, added]
            exact added'
          have split' : taken ++ [chunk] ++ rest = intake.body.chunks := by
            rw [List.append_assoc]
            exact split
          have received : intake.Receives last :=
            ⟨taken ++ [chunk], next, _, ⟨rest, split'⟩, fed', all⟩
          apply proceed_safe (events_safe emitted room tally fresh added' received)
          rintro _ up after ⟨tally, fresh⟩
          exact ih tally fresh fed' all split'

theorem collect_safe (count : Nat) (left : Left up trail) :
    (spoolLedger bounded Room).Safe (Spool.collect up count)
      (AimOrLeft fun _ up after => Left up after) trail := by
  induction count generalizing up trail with
  | zero => exact Ledger.done left
  | succ count ih =>
      have counted : (spoolLedger bounded Room).Safe (Spool.next up)
          (AimOrLeft fun _ up after => Left up after) trail := by
        apply Ledger.join
        intro id out _ _
        simp only
        cases up.receipt.count out <;> exact Ledger.done left
      apply proceed_safe counted
      rintro _ up after left
      exact ih left

theorem drain_safe (stores : List Nat) (count : Nat) :
    (spoolLedger bounded Room).Safe (Spool.drain stores count)
      (fun _ after => after.hand = trail.hand) trail := by
  induction count generalizing stores trail with
  | zero => exact Ledger.done rfl
  | succ count ih =>
      apply Ledger.join
      intro id _ _ _
      exact (ih (stores.erase id)).mono fun _ _ same => same

theorem leaving_safe {result : Except ApiError Response} (left : Left up trail) :
    (spoolLedger bounded Room).Safe (Spool.leaving up (.done result))
      (fun _ after => after.hand = []) trail := by
  unfold Left at left
  unfold Spool.leaving
  split
  · rename_i frame open_
    rw [open_] at left
    exact Spool.dropping_safe left (Ledger.done rfl)
  · rename_i closed
    rw [closed] at left
    exact Ledger.done left

/-- The body of a pack is read with one reservation for each frame, and the request leaves none
behind. -/
theorem uploadPack_safe (intake : Intake)
    (room : ∀ {sum up trail digest}, intake.Tally sum up trail → Fresh sum up →
      intake.Opens sum digest → Room digest.size trail) :
    (spoolLedger bounded Room).Safe
      (Spool.uploadPack intake.config intake.ns intake.blobs intake.bytes intake.body)
      (fun _ after => after.hand = []) ⟨[], [], []⟩ := by
  have tally : intake.Tally .start ⟨none, [], ⟨0, 0⟩⟩ (⟨[], [], []⟩ : Trail (spoolEstate M)) :=
    ⟨rfl, rfl, .refl _, Nat.zero_le _⟩
  have read : (spoolLedger bounded Room).Safe (Spool.read intake.config intake.ns
      ⟨none, [], ⟨0, 0⟩⟩ intake.reader intake.body) (AimOrLeft fun _ up after => Left up after)
      (⟨[], [], []⟩ : Trail (spoolEstate M)) := by
    have fed : Incremental.feed PackReader.push intake.reader [] = .ok (intake.reader, []) := rfl
    apply proceed_safe (chunks_safe room tally nofun fed rfl (List.nil_append _))
    rintro reader up after left
    cases transport intake.body with
    | error error => exact Ledger.done left
    | ok _ =>
        apply proceed_safe (collect_safe up.stores.length left)
        rintro _ up after left
        exact Ledger.done left
  apply Logic.Safe.seq read
  rintro ⟨up, error | reader⟩ after left
  · apply Logic.Safe.seq (drain_safe up.stores up.stores.length)
    rintro _ last same
    apply leaving_safe
    have left : Left up after := left
    unfold Left at left ⊢
    rwa [same]
  · simp only
    cases checkPack reader intake.blobs intake.bytes <;> exact leaving_safe left

theorem putBlobPack_safe (config : ServerConfig) (headers : Headers) (body : Body)
    (room : ∀ ns blobs bytes, declared config headers = .ok (blobs, bytes) →
      ∀ {sum up trail digest}, Tally ⟨config, ns, blobs, bytes, body⟩ sum up trail →
        Fresh sum up → Opens ⟨config, ns, blobs, bytes, body⟩ sum digest →
          Room digest.size trail) :
    (spoolLedger bounded Room).Safe (Spool.putBlobPack config headers body)
      (fun _ after => after.hand = []) ⟨[], [], []⟩ := by
  unfold Spool.putBlobPack
  cases headers.authorize .write with
  | error error => exact Ledger.done rfl
  | ok ns =>
      cases counts : declared config headers with
      | error error => exact Ledger.done rfl
      | ok pair => exact uploadPack_safe ⟨config, ns, pair.1, pair.2, body⟩ (room ns _ _ counts)

end
end Intake
end MbxCache
