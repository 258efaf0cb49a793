import MbxCache.Server.Acknowledged
import MbxCache.Server.PackRoundTrip

namespace MbxCache

open Concurrent Pack

variable [Protocol] {M : Type} [MetadataStore M] {ns : String}

def Underway (ns : String) (sight : Sight M) (digest : Digest) (reading : Reading) : Prop :=
  packBlobHeader digest = .ok reading.header ∧ sight.2[reading.id]? = some (.read ns digest)

structure Lined (ns : String) (digests : List Digest) (window : List Reading)
    (waiting : List ServedEntry) (sight : Sight M) : Prop where
  lined : ∃ front rest, digests = front ++ rest ∧ List.Forall₂ (Underway ns sight) front window ∧
    Headed rest waiting
  seen : ∀ digest ∈ digests, sight.1.1.Sees ns digest

namespace Lined

variable {digests : List Digest} {window : List Reading} {waiting : List ServedEntry}
  {sight : Sight M}

theorem later {after : Sight M} (lined : Lined ns digests window waiting sight)
    (reaches : Pledge.Reaches sight after) : Lined ns digests window waiting after := by
  obtain ⟨front, rest, split, underway, headed⟩ := lined.lined
  exact ⟨⟨front, rest, split,
    underway.imp fun _ _ begun => ⟨begun.1, reaches.job begun.2⟩, headed⟩,
    fun digest member => reaches.1.rows ns digest (lined.seen digest member)⟩

theorem start {entries : List ServedEntry} (headed : Headed digests entries)
    (seen : ∀ digest ∈ digests, sight.1.1.Sees ns digest) : Lined ns digests [] entries sight :=
  ⟨⟨[], digests, rfl, .nil, headed⟩, seen⟩

theorem more {entry : ServedEntry} {rest : List ServedEntry} {id : Nat}
    (lined : Lined ns digests window (entry :: rest) sight)
    (begun : sight.2[id]? = some (.read ns entry.digest)) :
    Lined ns digests (window ++ [⟨entry.header, id⟩]) rest sight := by
  obtain ⟨front, _, rfl, underway, headed⟩ := lined.lined
  cases headed with
  | @cons digest _ others _ one headed =>
      obtain ⟨rfl, header⟩ := one
      refine ⟨⟨front ++ [entry.digest], others, by simp, ?_, headed⟩, lined.seen⟩
      exact List.rel_append underway (.cons ⟨header, begun⟩ .nil)

theorem next_seen {entry : ServedEntry} {rest : List ServedEntry}
    (lined : Lined ns digests window (entry :: rest) sight) : sight.1.1.Sees ns entry.digest := by
  obtain ⟨front, _, rfl, _, headed⟩ := lined.lined
  cases headed with
  | @cons digest _ others _ one _ =>
      rw [one.1]
      exact lined.seen digest (by simp)

theorem first {reading : Reading} {others : List Reading}
    (lined : Lined ns digests (reading :: others) waiting sight) :
    ∃ digest rest, digests = digest :: rest ∧ Underway ns sight digest reading ∧
      Lined ns rest others waiting sight := by
  obtain ⟨_, rest, rfl, underway, headed⟩ := lined.lined
  cases underway with
  | @cons digest _ front _ one underway =>
      refine ⟨digest, front ++ rest, rfl, one, ⟨front, rest, rfl, underway, headed⟩, ?_⟩
      exact fun other member => lined.seen other (List.mem_cons_of_mem _ member)

end Lined

theorem startReads_lines {digests : List Digest} {sight : Sight M} (room : Nat)
    (waiting : List ServedEntry) (window : List Reading)
    (lined : Lined ns digests window waiting sight) :
    (pledge M).Safe ns (startReads ns room waiting window) (fun result after =>
      Lined ns digests result.2 result.1 after ∧
        (result.2 = [] → window = [] ∧ (room = 0 ∨ waiting = []))) sight := by
  induction room generalizing waiting window sight with
  | zero =>
      apply Pledge.Safe.done
      intro after later
      exact ⟨lined.later ⟨later.1, later.2 ▸ List.prefix_rfl⟩, fun empty => ⟨empty, .inl rfl⟩⟩
  | succ room ih =>
      cases waiting with
      | nil =>
          apply Pledge.Safe.done
          intro after later
          exact ⟨lined.later ⟨later.1, later.2 ▸ List.prefix_rfl⟩, fun empty => ⟨empty, .inr rfl⟩⟩
      | cons entry rest =>
          apply Pledge.Safe.spawn
          · exact fun after reaches => ⟨rfl, (lined.later reaches).next_seen⟩
          · intro after reaches begun
            apply Pledge.Safe.mono (ih rest _ ((lined.later reaches).more begun))
            rintro result last ⟨still, empty⟩
            refine ⟨still, fun none => ?_⟩
            have wrong := (empty none).1
            simp at wrong

structure Framed (digests : List Digest) (frames : List Entry) (state : ServerState M) : Prop where
  listed : frames.map (·.digest) = digests
  stored : ∀ frame ∈ frames, state.blobs frame.digest = some frame.payload

def Streams (digests : List Digest) (sent : List Bytes) (stream : ByteStream)
    (state : ServerState M) : Prop :=
  stream.broken = false → ∃ frames chunks, stream.chunks = sent ++ chunks ∧
    encodeFrames frames = .ok chunks.flatten ∧ Framed digests frames state

omit [MetadataStore M] in
theorem streams_broken {digests : List Digest} {sent chunks : List Bytes}
    {state : ServerState M} : Streams digests sent ⟨chunks, true⟩ state := by
  intro whole
  cases whole

theorem Streams.later {digests : List Digest} {sent : List Bytes} {stream : ByteStream}
    {before after : ServerState M} (streams : Streams digests sent stream before)
    (grows : ServerState.Grows before after) : Streams digests sent stream after := by
  intro whole
  obtain ⟨frames, chunks, split, encoded, framed⟩ := streams whole
  exact ⟨frames, chunks, split, encoded, framed.listed,
    fun frame member => grows.blobs _ _ (framed.stored frame member)⟩

/-- By the number of frames that are left: each is the stored object of its digest. -/
theorem streamPack_streams {digests : List Digest} {sight : Sight M} (left : Nat)
    (waiting : List ServedEntry) (window : List Reading) (sent : List Bytes)
    (lined : Lined ns digests window waiting sight) (count : digests.length = left) :
    (pledge M).Safe ns (streamPack ns left waiting window sent)
      (fun stream after => Streams digests sent stream after.1.1) sight := by
  induction left generalizing digests waiting window sent sight with
  | zero =>
      apply Pledge.Safe.done
      intro after _ _
      rw [List.length_eq_zero_iff.mp count]
      exact ⟨[], [], (List.append_nil _).symm, rfl, rfl, by simp⟩
  | succ left ih =>
      unfold streamPack
      apply Pledge.Safe.bind (startReads_lines _ waiting window lined)
      rintro ⟨waiting', window'⟩ started reaches ⟨lined', empty⟩
      cases window' with
      | nil =>
          obtain ⟨rfl, full | halted⟩ := empty rfl
          · cases full
          · obtain ⟨front, rest, rfl, underway, headed⟩ := lined.lined
            rw [halted] at headed
            cases underway
            cases headed
            cases count
      | cons reading others =>
          obtain ⟨digest, rest, rfl, ⟨header, begun⟩, lined''⟩ := lined'.first
          apply Pledge.Safe.join
          intro id out ended member more pledged
          cases List.mem_singleton.mp member
          have broken : ∀ chunks, (pledge M).Safe ns (.done ⟨chunks, true⟩)
              (fun stream after => Streams (digest :: rest) sent stream after.1.1) ended :=
            fun chunks => Pledge.Safe.done fun _ _ => streams_broken
          simp only
          split
          · rename_i blob
            obtain ⟨job, same, opened⟩ := pledged _ rfl
            rw [more.job begun] at same
            cases same
            obtain ⟨bytes, cuts, failing, stored, rfl⟩ := opened
            simp only
            cases served : servePayload (UInt64.ofNat bytes.length).toNat
              (ByteStream.opened bytes cuts failing).broken
              (ByteStream.opened bytes cuts failing).chunks 0 with
            | mk payload complete =>
                obtain ⟨whole, all_sent⟩ := servePayload_complete
                  (UInt64.ofNat bytes.length).toNat (ByteStream.opened bytes cuts failing).broken
                  (ByteStream.opened bytes cuts failing).chunks 0
                rw [served] at whole all_sent
                cases complete with
                | false => exact broken _
                | true =>
                    obtain ⟨unbroken, _⟩ := whole.mp rfl
                    obtain rfl : payload = (ByteStream.opened bytes cuts failing).chunks :=
                      all_sent rfl
                    obtain rfl : failing = false := unbroken
                    apply Pledge.Safe.mono (Pledge.Safe.remember
                      (ih waiting' others _ (lined''.later more) (Nat.succ.inj count)))
                    rintro stream last ⟨further, streams⟩ ends
                    obtain ⟨frames, chunks, rfl_chunks, encoded, framed⟩ := streams ends
                    refine ⟨⟨digest, bytes⟩ :: frames, reading.header ::
                      (ByteStream.opened bytes cuts false).chunks ++ chunks, ?_, ?_, ?_, ?_⟩
                    · rw [rfl_chunks, List.append_assoc]
                    · simp only [encodeFrames, header, encoded, bind, Except.bind, pure,
                        Except.pure]
                      simp [ByteStream.opened, ByteStream.split_flatten]
                    · rw [List.map_cons, framed.listed]
                    · intro frame listed
                      rcases List.mem_cons.mp listed with rfl | listed
                      · exact further.1.blobs digest bytes stored
                      · exact framed.stored frame listed
          · exact broken _

/-- What a served pack carries: frames for the digests its headers count, those among the ones
asked for that could be seen, each with the stored object, unless the stream breaks off. -/
structure Carries (before : ServerState M) (ns : String) (digests : List Digest)
    (response : Response) (after : ServerState M) : Prop where
  carries : ∃ shown stream, Promises shown response ∧ response.content = .stream stream ∧
    shown.Sublist digests.eraseDups ∧
    (∀ digest ∈ digests, before.Sees ns digest → digest ∈ shown) ∧
    (∀ digest ∈ shown, after.Sees ns digest) ∧
    (stream.broken = false → ∃ frames, Packs frames stream.chunks.flatten ∧
      Framed shown frames after)

omit [Protocol] in
theorem digestTotal_sublist {digests others : List Digest} (sublist : digests.Sublist others) :
    digestTotal digests ≤ digestTotal others :=
  (sublist.map _).sum_le_sum fun _ _ => Nat.zero_le _

theorem Framed.packs {config : ServerConfig} {digests : List Digest} {frames : List Entry}
    {state : ServerState M} {bytes : Bytes} (sound : state.Sound)
    (framed : Framed digests frames state) (encoded : encodeFrames frames = .ok bytes)
    (valid : ∀ digest ∈ digests, digest.validate = true) (few : digests.length ≤ maxBatchItems)
    (small : digestTotal digests ≤ config.maxBlobBytes.toNat) :
    Packs frames (blobPackMagic ++ bytes) := by
  have whole : ∀ frame ∈ frames, frame.Valid := by
    intro frame member
    refine ⟨valid frame.digest ?_, (sound.named _ _ (framed.stored frame member)).1⟩
    rw [← framed.listed]
    exact List.mem_map_of_mem member
  have total : payloadTotal frames = digestTotal digests := by
    rw [← framed.listed, payloadTotal, digestTotal, List.map_map]
    exact congrArg List.sum (List.map_congr_left fun frame member => (whole frame member).payload)
  refine ⟨?_, whole, config.maxBlobBytes, -1, config.maxBlobBytes, ?_, ?_, total ▸ small⟩
  · simp only [encode, encoded, bind, Except.bind, pure, Except.pure]
  · intro frame member
    rw [UInt64.le_iff_toNat_le, ← (whole frame member).payload]
    refine le_trans ?_ (total ▸ small)
    exact List.single_le_sum (fun _ _ => Nat.zero_le _) _ (List.mem_map_of_mem member)
  · have length := congrArg List.length framed.listed
    rw [List.length_map] at length
    rw [length]
    exact few.trans (by decide)

theorem bind_pledged {A B : Type} {handler : Handler A} {next : A → Handler B}
    {mid : A → ServerState M → Prop} {post : Except ApiError B → Sight M → Prop} {sight : Sight M}
    (first : handler.Delivers ns mid sight.1)
    (failed : ∀ error after, error.Internal → post (.error error) after)
    (rest : ∀ value after, Pledge.Reaches sight after → mid value after.1.1 →
      (pledge M).Safe ns (next value) post after) :
    (pledge M).Safe ns (handler.bind next) post sight := by
  apply Pledge.Safe.bind (first.lift sight.2)
  intro result after reaches known
  cases result with
  | error error => exact Pledge.Safe.done fun last _ => failed error last known
  | ok value => exact rest value after reaches known

/-- A pack that is served among other requests is exact, and a request within the limits is
served. -/
theorem packBlobs_carries {sight : Sight M} (config : ServerConfig) (headers : Headers)
    {digests : List Digest} (authorized : headers.authorize .read = .ok ns) :
    (pledge M).Safe ns (packBlobs config headers digests) (fun result after =>
      (∀ response, result = .ok response → Carries sight.1.1 ns digests response after.1.1) ∧
        (Accepts config (fun _ => true) digests →
          Handler.OkOrInternal (fun _ _ => True) result after.1.1)) sight := by
  have refuses : ∀ (error : ApiError) {now : Sight M}, ¬ Accepts config (fun _ => true) digests →
      (pledge M).Safe ns (Handler.refuse error : Handler Response) (fun result after =>
        (∀ response, result = .ok response → Carries sight.1.1 ns digests response after.1.1) ∧
          (Accepts config (fun _ => true) digests →
            Handler.OkOrInternal (fun _ _ => True) result after.1.1)) now := by
    intro error now never
    refine Pledge.Safe.done fun after _ => ⟨fun response same => ?_, fun accepts => ?_⟩
    · cases same
    · exact absurd accepts never
  rw [packBlobs, authorized, Handler.pureStep_ok]
  split
  · rename_i halted
    exact refuses _ fun accepts => absurd accepts.count (Nat.not_le_of_lt halted)
  · rename_i count
    have requested := packRequest_iff config digests [] 0 (Nat.zero_le _)
    simp only [List.contains_nil, Bool.not_false, List.filter_true, Nat.zero_add,
      List.nil_append] at requested
    cases checked : packRequest config digests [] 0 with
    | error error =>
        refine refuses error fun accepts => ?_
        have passed := (requested digests.eraseDups).mpr ⟨accepts.valid, accepts.limit, rfl⟩
        rw [checked] at passed
        cases passed
    | ok list =>
        obtain ⟨valid, limit, rfl⟩ := (requested list).mp checked
        rw [Handler.pureStep_ok]
        apply bind_pledged (visibleBlobs_delivers digests.eraseDups)
        · rintro error after ⟨failure, rfl⟩
          refine ⟨fun response same => ?_, fun _ => ⟨failure, rfl⟩⟩
          cases same
        rintro shown asked reaches ⟨sublist, seen, all⟩
        have within : digestTotal shown ≤ config.maxBlobBytes.toNat :=
          (digestTotal_sublist sublist).trans limit
        have few : shown.length ≤ maxBatchItems :=
          sublist.length_le.trans ((eraseDups_length digests).trans (Nat.le_of_not_lt count))
        have correct : ∀ digest ∈ shown, digest.validate = true := fun digest member =>
          valid digest (List.mem_eraseDups.mp (sublist.subset member))
        have packed := packEntries_iff correct ⟨[], 0, blobPackMagic.length⟩ (Nat.zero_le _)
        split at packed
        · rename_i fits
          obtain ⟨entries, headed, packed⟩ := packed
          rw [packed, Handler.pureStep_ok]
          have streams := streamPack_streams entries.length entries [] [blobPackMagic]
            (Lined.start headed seen) headed.length_eq
          have wrapped : (pledge M).Safe ns ((streamPack ns entries.length entries []
              [blobPackMagic]).bind fun stream => .done (.ok stream) : Handler ByteStream)
              (fun result last => ∃ stream, result = .ok stream ∧
                Streams shown [blobPackMagic] stream last.1.1) asked :=
            Pledge.Safe.bind streams fun stream after _ known =>
              Pledge.Safe.done fun last more => ⟨stream, rfl, known.later more.1⟩
          apply Pledge.Safe.bind wrapped
          rintro result streamed further ⟨stream, rfl, carried⟩
          apply Pledge.Safe.done
          intro after last
          refine ⟨fun response same => ?_, fun _ => trivial⟩
          cases same
          have grows := further.1.trans last.1
          refine ⟨shown, stream, ⟨rfl, rfl, ?_, ?_⟩, rfl, sublist, ?_, ?_, ?_⟩
          · simp [List.lookup_cons, headed.length_eq]
          · simp [List.lookup_cons]
          · intro digest member known
            exact all digest (List.mem_eraseDups.mpr member) known
          · exact fun digest member => grows.rows ns digest (seen digest member)
          · intro whole
            obtain ⟨frames, chunks, split, encoded, framed⟩ := carried.later last.1 whole
            refine ⟨frames, ?_, framed⟩
            rw [split, List.flatten_append, List.flatten_singleton]
            exact framed.packs after.1.2 encoded correct few within
        · rename_i halted
          obtain ⟨error, packed⟩ := packed (by decide)
          rw [packed]
          refine refuses error fun accepts => halted ?_
          have total := digestTotal_sublist sublist
          have length := sublist.length_le
          have fits := accepts.fits
          rw [List.filter_true, packSize] at fits
          have frames := Nat.mul_le_mul_left blobPackHeaderBytes length
          change blobPackMagic.length + blobPackHeaderBytes * shown.length + digestTotal shown < 2 ^ 64
          omega

end MbxCache
