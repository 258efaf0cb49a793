import Mathlib.Data.List.Forall2
import MbxCache.Concurrent.Ending
import MbxCache.Server.PackStream

namespace MbxCache

open Concurrent Pack

def digestTotal (digests : List Digest) : Nat := (digests.map (·.size.toNat)).sum

@[simp] theorem digestTotal_nil : digestTotal [] = 0 := rfl

@[simp] theorem digestTotal_cons (digest : Digest) (rest : List Digest) :
    digestTotal (digest :: rest) = digest.size.toNat + digestTotal rest := List.sum_cons

def packSize (digests : List Digest) : Nat :=
  blobPackMagic.length + blobPackHeaderBytes * digests.length + digestTotal digests

/-- What a pack request must meet to be answered. -/
structure Accepts (config : ServerConfig) (visible : Digest → Bool) (digests : List Digest) :
    Prop where
  count : digests.length ≤ maxBatchItems
  valid : ∀ digest ∈ digests, digest.validate = true
  limit : digestTotal digests.eraseDups ≤ config.maxBlobBytes.toNat
  fits : packSize (digests.eraseDups.filter visible) < 2 ^ 64

theorem packRequest_iff (config : ServerConfig) (digests requested : List Digest) (total : Nat)
    (small : total ≤ config.maxBlobBytes.toNat) (result : List Digest) :
    packRequest config digests requested total = .ok result ↔
      (∀ digest ∈ digests, digest.validate = true) ∧
      total + digestTotal (digests.filter fun digest => !requested.contains digest).eraseDups ≤
        config.maxBlobBytes.toNat ∧
      result = requested ++
        (digests.filter fun digest => !requested.contains digest).eraseDups := by
  induction digests generalizing requested total with
  | nil =>
      simp only [packRequest, Except.ok.injEq, List.not_mem_nil, false_implies, implies_true,
        List.filter_nil, List.eraseDups_nil, digestTotal_nil, Nat.add_zero, small,
        List.append_nil, true_and]
      exact eq_comm
  | cons digest rest ih =>
      unfold packRequest validateDigest
      cases valid : digest.validate with
      | false => simp [bind, Except.bind, valid]
      | true =>
          simp only [if_true, bind, Except.bind, List.forall_mem_cons, valid, true_and]
          cases known : requested.contains digest with
          | true =>
              have skipped : (!requested.contains digest) ≠ true := by rw [known]; decide
              rw [if_pos rfl, ih requested total small, List.filter_cons,
                if_neg skipped]
          | false =>
              have taken : (!requested.contains digest) = true := by rw [known]; rfl
              have both : (rest.filter fun other => (!(other == digest)) && !requested.contains other)
                  = rest.filter fun other => !(requested ++ [digest]).contains other := by
                apply List.filter_congr
                intro other _
                simp [Bool.and_comm, beq_eq_decide]
              have bound := config.maxBlobBytes.toNat_lt
              rw [if_neg Bool.false_ne_true, List.filter_cons, if_pos taken,
                List.eraseDups_cons, List.filter_filter, digestTotal_cons, both]
              split
              · rename_i large
                simp only [reduceCtorEq, false_iff, not_and]
                intro _ within
                omega
              · split
                · rename_i _ halted
                  simp only [reduceCtorEq, false_iff, not_and]
                  intro _ within
                  omega
                · rename_i _ within
                  rw [ih _ _ (Nat.le_of_not_lt within), List.append_assoc, List.singleton_append,
                    Nat.add_assoc]

def Headed [Protocol] (digests : List Digest) (entries : List ServedEntry) : Prop :=
  List.Forall₂ (fun digest entry => entry.digest = digest ∧
    packBlobHeader digest = .ok entry.header) digests entries

theorem packEntries_iff [Protocol] {digests : List Digest}
    (valid : ∀ digest ∈ digests, digest.validate = true) (pack : ServedPack)
    (payload : pack.payloadBytes ≤ pack.packBytes) :
    if pack.packBytes + blobPackHeaderBytes * digests.length + digestTotal digests < 2 ^ 64 then
      ∃ entries, Headed digests entries ∧ packEntries digests pack =
        .ok ⟨pack.entries ++ entries, pack.payloadBytes + digestTotal digests,
          pack.packBytes + blobPackHeaderBytes * digests.length + digestTotal digests⟩
    else pack.packBytes < 2 ^ 64 → ∃ error, packEntries digests pack = .error error := by
  induction digests generalizing pack with
  | nil =>
      split
      · exact ⟨[], .nil, by simp [packEntries]⟩
      · rename_i halted
        intro small
        simp only [List.length_nil, Nat.mul_zero, digestTotal_nil, Nat.add_zero] at halted
        exact absurd small halted
  | cons digest rest ih =>
      obtain ⟨header, headed, length⟩ := packBlobHeader_length (valid digest List.mem_cons_self)
      rw [packEntries]
      simp only [headed, bind, Except.bind, digestTotal_cons, List.length_cons]
      have next := ih (fun other member => valid other (List.mem_cons_of_mem _ member))
        ⟨pack.entries ++ [⟨header, digest⟩], pack.payloadBytes + digest.size.toNat,
          pack.packBytes + blobPackHeaderBytes + digest.size.toNat⟩ (by simp only; omega)
      have sum : pack.packBytes + blobPackHeaderBytes * (rest.length + 1) +
          (digest.size.toNat + digestTotal rest) =
          pack.packBytes + blobPackHeaderBytes + digest.size.toNat +
            blobPackHeaderBytes * rest.length + digestTotal rest := by
        rw [Nat.mul_add]
        omega
      rw [sum]
      simp only at next
      split
      · rename_i fits
        rw [if_pos fits] at next
        obtain ⟨entries, listed, packed⟩ := next
        refine ⟨⟨header, digest⟩ :: entries, .cons ⟨rfl, headed⟩ listed, ?_⟩
        rw [if_neg (by omega), if_neg (by omega), packed]
        simp [Nat.add_assoc]
      · rename_i halted
        rw [if_neg halted] at next
        intro _
        split
        · exact ⟨_, rfl⟩
        · split
          · exact ⟨_, rfl⟩
          · exact next (by omega)

def servedEntries [Protocol] (digests : List Digest) : List ServedEntry :=
  digests.filterMap fun digest => (packBlobHeader digest).toOption.map fun header =>
    ⟨header, digest⟩

theorem Headed.entries [Protocol] {digests : List Digest} {entries : List ServedEntry}
    (headed : Headed digests entries) : entries = servedEntries digests := by
  induction headed with
  | nil => rfl
  | cons one rest ih =>
      obtain ⟨rfl, header⟩ := one
      simp only [servedEntries, List.filterMap_cons, header, Except.toOption, Option.map_some]
      exact congrArg (List.cons _) ih

/-- What the headers of a served pack promise. -/
structure Promises (served : List Digest) (response : Response) : Prop where
  status : response.status = .ok
  length : response.headers.lookup "content-length" = some (toString (packSize served))
  blobs : response.headers.lookup "mbx-cache-pack-blobs" = some (toString served.length)
  bytes : response.headers.lookup "mbx-cache-pack-bytes" = some (toString (digestTotal served))

namespace ReadSide

variable [Protocol] {M : Machine Api} (side : ReadSide M)

/-- How the body of a served pack comes out: a pack of whole payloads, one for each
digest, or broken, because some payload could not be had whole. -/
inductive Delivered (served : List Digest) : ByteStream → Prop
  | complete (entries : List Pack.Entry) (chunks : List Bytes)
      (listed : entries.map (·.digest) = served) (encoded : encode entries = .ok chunks.flatten)
      (whole : ∀ entry ∈ entries, ∃ found payload, side.Finds entry.digest found ∧
        Whole entry.digest found payload ∧ entry.payload = payload.flatten) :
      Delivered served ⟨chunks, false⟩
  | broken (chunks : List Bytes) (digest : Digest) (member : digest ∈ served)
      (found : Except Failure (Option Blob)) (finds : side.Finds digest found)
      (partly : ¬ ∃ payload, Whole digest found payload) : Delivered served ⟨chunks, true⟩

variable {side}

theorem Sends.encoded {digests : List Digest} {entries : List ServedEntry} {chunks : List Bytes}
    (sends : side.Sends entries chunks) (headed : Headed digests entries) :
    ∃ frames : List Pack.Entry, frames.map (·.digest) = digests ∧
      encodeFrames frames = .ok chunks.flatten ∧
      ∀ frame ∈ frames, ∃ found payload, side.Finds frame.digest found ∧
        Whole frame.digest found payload ∧ frame.payload = payload.flatten := by
  induction sends generalizing digests with
  | nil =>
      cases headed
      exact ⟨[], rfl, rfl, by simp⟩
  | @cons entry rest payload chunks found finds whole more ih =>
      cases headed with
      | @cons digest _ digests _ one others =>
          obtain ⟨rfl, header⟩ := one
          obtain ⟨frames, listed, encoded, each⟩ := ih others
          refine ⟨⟨entry.digest, payload.flatten⟩ :: frames, by simp [listed], ?_, ?_⟩
          · simp only [encodeFrames, header, encoded, bind, Except.bind, pure, Except.pure]
            simp
          · intro frame member
            rcases List.mem_cons.mp member with rfl | later
            · exact ⟨found, payload, finds, whole, rfl⟩
            · exact each frame later

theorem Streamed.delivered {digests : List Digest} {entries : List ServedEntry}
    {stream : ByteStream} (streamed : side.Streamed entries [blobPackMagic] stream)
    (headed : Headed digests entries) : side.Delivered digests stream := by
  cases streamed with
  | complete chunks sends =>
      obtain ⟨frames, listed, encoded, each⟩ := sends.encoded headed
      refine .complete frames _ listed ?_ each
      simp only [encode, encoded, bind, Except.bind, pure, Except.pure]
      simp
  | broken chunks entry member found finds partly =>
      have named : ∀ {digests entries}, Headed digests entries → ∀ entry ∈ entries,
          entry.digest ∈ digests := by
        intro digests entries headed
        induction headed with
        | nil => exact fun entry member => by cases member
        | cons one _ ih =>
            intro entry member
            rcases List.mem_cons.mp member with rfl | later
            · rw [one.1]
              exact List.mem_cons_self
            · exact List.mem_cons_of_mem _ (ih entry later)
      exact .broken chunks entry.digest (named headed entry member) found finds partly

def served (side : ReadSide M) (ns : String) (digests : List Digest) : List Digest :=
  digests.eraseDups.filter (side.visible ns)

/-- What comes of a pack request: a pack as promised, or a refusal for a reason. -/
def Outcome (side : ReadSide M) (config : ServerConfig) (ns : String) (digests : List Digest) :
    Except ApiError Response → Prop
  | .ok response => Accepts config (side.visible ns) digests ∧
      Promises (side.served ns digests) response ∧
      ∃ stream, response.content = .stream stream ∧
        side.Delivered (side.served ns digests) stream
  | .error _ => ¬ Accepts config (side.visible ns) digests ∨ side.fails

theorem packBlobs_safe (config : ServerConfig) (headers : Headers) (digests : List Digest)
    {ns : String} (authorized : headers.authorize .read = .ok ns)
    {world : {world : World M // (side.solo ns (servedEntries (side.served ns digests))).Inv world}}
    (idle : world.1.tasks = []) :
    (side.solo ns (servedEntries (side.served ns digests))).Safe
      (packBlobs config headers digests) (fun result _ => side.Outcome config ns digests result)
      world := by
  rw [packBlobs, authorized, Handler.pureStep_ok]
  have refuses : ∀ (error : ApiError) {world}, (¬ Accepts config (side.visible ns) digests ∨
      side.fails) → (side.solo ns (servedEntries (side.served ns digests))).Safe
        (Handler.refuse error : Handler Response)
        (fun result _ => side.Outcome config ns digests result) world :=
    fun error _ reason => Solo.Safe.done fun _ _ => reason
  split
  · rename_i halted
    exact refuses _ (.inl fun accepts => absurd accepts.count (Nat.not_le_of_lt halted))
  · rename_i count
    have requested := packRequest_iff config digests [] 0 (Nat.zero_le _)
    simp only [List.contains_nil, Bool.not_false, List.filter_true, Nat.zero_add,
      List.nil_append] at requested
    cases checked : packRequest config digests [] 0 with
    | error error =>
        refine refuses error (.inl fun accepts => ?_)
        have passed := (requested digests.eraseDups).mpr ⟨accepts.valid, accepts.limit, rfl⟩
        rw [checked] at passed
        cases passed
    | ok list =>
        obtain ⟨valid, limit, rfl⟩ := (requested list).mp checked
        rw [Handler.pureStep_ok]
        apply Solo.Safe.call
        · intro before later
          refine ⟨List.eq_nil_of_length_eq_zero ?_, _, rfl⟩
          rw [Solo.Meanwhile.length later, idle]
          rfl
        · intro before after choice later admitted called
          have empty : before.1.tasks = [] := by
            apply List.eq_nil_of_length_eq_zero
            rw [Solo.Meanwhile.length later, idle]
            rfl
          rw [before.2.fresh empty]
          have asked : ∀ digest ∈ digests.eraseDups, digest.validate = true :=
            fun digest member => valid digest (List.mem_eraseDups.mp member)
          rcases side.sees admitted (headers.named authorized) asked with found | ⟨fails, failure, lost⟩
          · rw [found]
            have shown : ∀ digest ∈ side.served ns digests, digest.validate = true := by
              exact fun digest member => asked digest (List.mem_of_mem_filter member)
            change (side.solo ns (servedEntries (side.served ns digests))).Safe
              (Handler.bind (Handler.pureStep (packEntries (side.served ns digests)
                ⟨[], 0, blobPackMagic.length⟩)) _) _ after
            have packed := packEntries_iff shown ⟨[], 0, blobPackMagic.length⟩ (Nat.zero_le _)
            split at packed
            · rename_i fits
              obtain ⟨entries, headed, packed⟩ := packed
              rw [packed]
              cases headed.entries
              have started : after.1.tasks.length = 0 := by
                rw [called]
                exact List.length_eq_zero_iff.mpr empty
              have ahead : Ahead (servedEntries (side.served ns digests)) 0 []
                  (servedEntries (side.served ns digests)) after.1.tasks.length := by
                rw [started]
                exact Ahead.start _
              have streams := streamPack_safe (servedEntries (side.served ns digests)).length
                (servedEntries (side.served ns digests)) [] [blobPackMagic] ahead
                (Nat.zero_add _)
              have wrapped : (side.solo ns (servedEntries (side.served ns digests))).Safe
                  ((streamPack ns (servedEntries (side.served ns digests)).length
                    (servedEntries (side.served ns digests)) [] [blobPackMagic]).bind
                      fun stream => .done (.ok stream) : Handler ByteStream)
                  (fun result _ => ∃ stream, result = .ok stream ∧ side.Streamed
                    (servedEntries (side.served ns digests)) [blobPackMagic] stream) after :=
                Solo.Safe.bind streams fun stream _ streamed =>
                  Solo.Safe.done fun _ _ => ⟨stream, rfl, streamed⟩
              apply Solo.Safe.bind wrapped
              rintro result last ⟨stream, rfl, streamed⟩
              apply Solo.Safe.done
              intro _ _
              refine ⟨⟨Nat.le_of_not_lt count, valid, limit, fits⟩, ⟨rfl, ?_, ?_, ?_⟩, stream, rfl,
                streamed.delivered headed⟩
              · rfl
              · simp [List.lookup_cons, headed.length_eq]
              · simp [List.lookup_cons]
            · rename_i halted
              obtain ⟨error, packed⟩ := packed (by decide)
              rw [packed]
              exact refuses error (.inl fun accepts => halted accepts.fits)
          · rw [lost]
            exact refuses _ (.inr fails)

def regime (side : ReadSide M) : Regime M := ⟨side.admits, side.admits, False⟩

/-- Whatever happens in whatever order, a pack request that is answered comes out as it must. -/
theorem packBlobs_outcome (config : ServerConfig) (headers : Headers) (digests : List Digest)
    {ns : String} (authorized : headers.authorize .read = .ok ns) {moves : List (Move M.Choice)}
    (admitted : ∀ move ∈ moves, side.regime.Admits move) {result : Except ApiError Response}
    (answered : (M.run side.start (.start (packBlobs config headers digests)) moves).2.answer =
      some result) : side.Outcome config ns digests result := by
  have serves : side.Serves ns (servedEntries (side.served ns digests))
      (World.of side.start (Process.start (packBlobs config headers digests))) :=
    ⟨fun _ => rfl, side.inv_start, fun i task found => by cases found⟩
  have holds : (side.solo ns (servedEntries (side.served ns digests))).Holds
      (fun result _ => side.Outcome config ns digests result)
      (side.start, Process.start (packBlobs config headers digests)) :=
    ⟨serves, packBlobs_safe config headers digests authorized rfl⟩
  exact ((holds.run admitted).answer answered).2

end ReadSide

theorem startReads_waits (ns : String) (room : Nat) (entries : List ServedEntry)
    (window : List Reading) (count : Nat) (started : ∀ reading ∈ window, reading.id < count) :
    (startReads ns room entries window).Waits (fun result later =>
      ∀ reading ∈ result.2, reading.id < later) count := by
  induction room generalizing entries window count with
  | zero => exact started
  | succ room ih =>
      cases entries with
      | nil => exact started
      | cons entry rest =>
          apply ih
          intro reading member
          rcases List.mem_append.mp member with old | new
          · exact Nat.lt_succ_of_lt (started reading old)
          · rw [List.mem_singleton.mp new]
            exact Nat.lt_succ_self count

theorem streamPack_waits (ns : String) (left : Nat) (entries : List ServedEntry)
    (window : List Reading) (sent : List Bytes) (count : Nat)
    (started : ∀ reading ∈ window, reading.id < count) :
    (streamPack ns left entries window sent).Waits (fun _ _ => True) count := by
  induction left generalizing entries window sent count with
  | zero => trivial
  | succ left ih =>
      unfold streamPack
      apply Program.Waits.bind (startReads_waits ns _ entries window count started)
      rintro ⟨waiting, window⟩ later started
      cases window with
      | nil => trivial
      | cons reading others =>
          refine ⟨⟨reading.id, List.mem_singleton_self _, started reading List.mem_cons_self⟩, ?_⟩
          intro id member out
          simp only
          split
          · split
            · exact ih _ _ _ _ fun other member => started other (List.mem_cons_of_mem _ member)
            · trivial
          · trivial

theorem packBlobs_waits [Protocol] (config : ServerConfig) (headers : Headers)
    (digests : List Digest) :
    Program.Waits (fun _ _ => True) (packBlobs config headers digests) 0 := by
  have pure_waits : ∀ {A : Type} (result : Except ApiError A),
      Program.Waits (fun _ later => later = 0) (Handler.pureStep result) 0 := fun _ => rfl
  apply Program.Waits.bindOk (pure_waits (headers.authorize .read))
  rintro ns _ rfl
  split
  · trivial
  · apply Program.Waits.bindOk (pure_waits (packRequest config digests [] 0))
    rintro requested _ rfl
    apply Program.Waits.bindOk (Program.Plain.waits (p := visibleBlobs ns requested) ?_ 0)
    · rintro visible _ rfl
      apply Program.Waits.bindOk (pure_waits (packEntries visible ⟨[], 0, blobPackMagic.length⟩))
      rintro pack _ rfl
      have streams : Program.Waits (fun _ _ => True) ((streamPack ns pack.entries.length
          pack.entries [] [blobPackMagic]).bind fun stream => .done (.ok stream) :
            Handler ByteStream) 0 :=
        .bind (streamPack_waits ns _ _ [] _ 0 fun _ member => by cases member) fun _ _ _ => trivial
      exact .bindOk streams fun _ _ _ => trivial
    · exact fun _ => trivial

end MbxCache
