import MbxCache.Server.PackBody
import MbxCache.Server.Sessions

namespace MbxCache

open Concurrent

def ByteStream.after (stream : ByteStream) (front : List Bytes) : ByteStream :=
  ⟨front ++ stream.chunks, stream.broken⟩

def sendObject (size : Nat) (broken : Bool) (chunks : List Bytes) (streamed : Nat)
    (rest : ByteStream) : ByteStream :=
  let (payload, complete) := servePayload size broken chunks streamed
  if complete then rest.after payload else ⟨payload, true⟩

def packStream : List PackRead → ByteStream
  | [] => ⟨[], false⟩
  | read :: reads =>
      match read.opened with
      | none => ⟨[], true⟩
      | some blob =>
          (sendObject blob.size.toNat blob.stream.broken blob.stream.chunks 0
            (packStream reads)).after [read.header]

namespace Suspended

def rest : Suspended → ByteStream
  | .unpolled reads => (packStream reads).after [blobPackMagic]
  | .reading reads => packStream reads
  | .sending size streamed chunks broken reads =>
      sendObject size broken chunks streamed (packStream reads)
  | .returned => ⟨[], false⟩

/-- The size of an object is a `u64`. -/
def Small : Suspended → Prop
  | .sending size _ _ _ _ => size < 2 ^ 64
  | .unpolled _ | .reading _ | .returned => True

end Suspended

theorem sendObject_nil (size : Nat) (broken : Bool) (streamed : Nat) (rest : ByteStream) :
    sendObject size broken [] streamed rest =
      if broken then ⟨[], true⟩ else if streamed ≠ size then ⟨[], true⟩ else rest := by
  cases broken
  · by_cases whole : streamed = size <;> simp [sendObject, servePayload, ByteStream.after, whole]
  · rfl

theorem sendObject_cons (size : Nat) (broken : Bool) (chunk : Bytes) (chunks : List Bytes)
    (streamed : Nat) (rest : ByteStream) :
    sendObject size broken (chunk :: chunks) streamed rest =
      if size < streamed + chunk.length then ⟨[], true⟩
      else (sendObject size broken chunks (streamed + chunk.length) rest).after [chunk] := by
  simp only [sendObject, servePayload]
  split
  · rfl
  · obtain ⟨payload, complete⟩ := servePayload size broken chunks (streamed + chunk.length)
    cases complete <;> rfl

/-- What a poll takes off a stream. -/
inductive Polled.Takes : Polled → ByteStream → ByteStream → Prop
  | pending (stream : ByteStream) : Takes .pending stream stream
  | chunk (bytes : Bytes) (stream : ByteStream) : Takes (.chunk bytes) (stream.after [bytes]) stream
  | failed : Takes .failed ⟨[], true⟩ ⟨[], false⟩
  | ended : Takes .ended ⟨[], false⟩ ⟨[], false⟩

/-- A poll takes what it gives off what the body has yet to send. -/
theorem resume_takes (ready : Nat) (guarded : Guarded) (body : Suspended) (small : body.Small) :
    (resume ready guarded body).2.1.Small ∧
      (resume ready guarded body).2.2.Takes body.rest (resume ready guarded body).2.1.rest := by
  have fails {body : Suspended} (ends : body.rest = ⟨[], true⟩) :
      Polled.Takes .failed body.rest Suspended.returned.rest := by
    rw [ends]
    exact .failed
  fun_induction resume ready guarded body with
  | case1 _ _ reads => exact ⟨trivial, .chunk _ _⟩
  | case2 => exact ⟨trivial, .ended⟩
  | case3 => exact ⟨trivial, .ended⟩
  | case4 _ suspended => exact ⟨small, .pending _⟩
  | case5 _ _ read reads missing =>
      refine ⟨trivial, fails ?_⟩
      simp only [Suspended.rest, packStream, missing]
  | case6 _ _ read reads blob opened =>
      refine ⟨blob.size.toNat_lt, ?_⟩
      simp only [Suspended.rest, packStream, opened]
      exact .chunk _ _
  | case7 _ _ size streamed reads =>
      exact ⟨trivial, fails (sendObject_nil size true streamed (packStream reads))⟩
  | case8 _ _ size streamed broken reads whole short =>
      refine ⟨trivial, fails ?_⟩
      rw [Suspended.rest, sendObject_nil, if_neg whole, if_pos short]
  | case9 _ _ size streamed broken reads whole full ih =>
      have next : (Suspended.sending size streamed [] broken reads).rest =
          (Suspended.reading reads).rest := by
        change sendObject size broken [] streamed (packStream reads) = packStream reads
        rw [sendObject_nil, if_neg whole, if_neg full]
      rw [next]
      exact ih trivial
  | case10 _ _ size streamed chunk chunks broken reads sum beyond =>
      -- The sum does not fit its type, and so it exceeds the size as well.
      refine ⟨trivial, fails ?_⟩
      rw [Suspended.rest, sendObject_cons, if_pos (Nat.lt_of_lt_of_le small beyond)]
  | case11 _ _ size streamed chunk chunks broken reads sum _ beyond =>
      refine ⟨trivial, fails ?_⟩
      rw [Suspended.rest, sendObject_cons, if_pos beyond]
  | case12 _ _ size streamed chunk chunks broken reads sum _ within =>
      refine ⟨small, ?_⟩
      rw [Suspended.rest, sendObject_cons, if_neg within]
      exact .chunk _ _

def polls : List Nat → Guarded → Suspended → List Polled
  | [], _, _ => []
  | ready :: readies, guarded, body =>
      match resume ready guarded body with
      | (guarded, body, polled) => polled :: polls readies guarded body

namespace Polled

def bytes? : Polled → Option Bytes
  | .chunk bytes => some bytes
  | .pending | .failed | .ended => none

/-- Polls that give the chunks of a stream, and its end at most after all of them. -/
structure Give (given : List Polled) (stream : ByteStream) : Prop where
  chunks : given.filterMap bytes? <+: stream.chunks
  whole : .ended ∈ given ∨ .failed ∈ given → given.filterMap bytes? = stream.chunks
  fails : .failed ∈ given → stream.broken = true
  ends : .ended ∈ given → .failed ∉ given → stream.broken = false

theorem Give.cons {polled : Polled} {given : List Polled} {stream left : ByteStream}
    (gives : Give given left) (takes : polled.Takes stream left) :
    Give (polled :: given) stream := by
  cases takes with
  | pending =>
      refine ⟨gives.chunks, fun last => ?_, by simpa using gives.fails, by simpa using gives.ends⟩
      exact gives.whole (by simpa using last)
  | chunk bytes =>
      refine ⟨(List.prefix_cons_inj bytes).mpr gives.chunks, fun last => ?_, fun failed => ?_,
        fun ended fine => ?_⟩
      · exact congrArg (bytes :: ·) (gives.whole (by simpa using last))
      · exact gives.fails (by simpa using failed)
      · exact gives.ends (by simpa using ended) (by simpa using fine)
  | failed =>
      have none : given.filterMap bytes? = [] := List.prefix_nil.mp gives.chunks
      refine ⟨gives.chunks, fun _ => none, fun _ => rfl, fun _ fine => ?_⟩
      exact absurd List.mem_cons_self fine
  | ended =>
      have none : given.filterMap bytes? = [] := List.prefix_nil.mp gives.chunks
      exact ⟨gives.chunks, fun _ => none, by simpa using gives.fails, fun _ _ => rfl⟩

end Polled

theorem polls_give (readies : List Nat) (guarded : Guarded) (body : Suspended)
    (small : body.Small) : Polled.Give (polls readies guarded body) body.rest := by
  induction readies generalizing guarded body with
  | nil => exact ⟨List.nil_prefix, by simp [polls], by simp [polls], by simp [polls]⟩
  | cons ready readies ih =>
      obtain ⟨small', takes⟩ := resume_takes ready guarded body small
      exact (ih _ _ small').cons takes

def readPolls (reads : List PackRead) : Nat :=
  (reads.map fun read => read.opened.elim 0 (·.stream.chunks.length) + 2).sum

def Suspended.left : Suspended → Nat
  | .unpolled reads => readPolls reads + 1
  | .reading reads => readPolls reads
  | .sending _ _ chunks _ reads => chunks.length + 1 + readPolls reads
  | .returned => 0

theorem resume_left (ready : Nat) (guarded : Guarded) (body : Suspended) :
    (resume ready guarded body).2.1.left ≤ body.left ∧
      (ready ≠ 0 → (resume ready guarded body).2.2 = .ended ∨
        (resume ready guarded body).2.2 = .failed ∨
          (resume ready guarded body).2.1.left < body.left) := by
  fun_induction resume ready guarded body with
  | case1 _ _ reads =>
      exact ⟨Nat.le_succ _, fun _ => .inr (.inr (Nat.lt_succ_self _))⟩
  | case2 => exact ⟨Nat.zero_le _, fun _ => .inl rfl⟩
  | case3 => exact ⟨Nat.le_refl _, fun _ => .inl rfl⟩
  | case4 => exact ⟨Nat.le_refl _, fun passes => absurd rfl passes⟩
  | case6 _ _ read reads blob opened =>
      have closer : (Suspended.sending blob.size.toNat 0 blob.stream.chunks blob.stream.broken
          reads).left < (Suspended.reading (read :: reads)).left := by
        simp only [Suspended.left, readPolls, List.map_cons, List.sum_cons, opened, Option.elim]
        omega
      exact ⟨closer.le, fun _ => .inr (.inr closer)⟩
  | case9 _ _ size streamed broken reads _ _ ih =>
      have closer : (Suspended.reading reads).left <
          (Suspended.sending size streamed [] broken reads).left := by
        simp only [Suspended.left, List.length_nil]
        omega
      have passed := Nat.lt_of_le_of_lt ih.1 closer
      exact ⟨passed.le, fun _ => .inr (.inr passed)⟩
  | case12 _ _ size streamed chunk chunks broken reads =>
      have closer : (Suspended.sending size (streamed + chunk.length) chunks broken reads).left <
          (Suspended.sending size streamed (chunk :: chunks) broken reads).left := by
        simp only [Suspended.left, List.length_cons]
        omega
      exact ⟨closer.le, fun _ => .inr (.inr closer)⟩
  | _ => exact ⟨Nat.zero_le _, fun _ => .inr (.inl rfl)⟩

/-- A body that is polled often enough comes to its end. -/
theorem polls_end {readies : List Nat} (pass : ∀ ready ∈ readies, ready ≠ 0) (guarded : Guarded)
    (body : Suspended) (enough : body.left < readies.length) :
    .ended ∈ polls readies guarded body ∨ .failed ∈ polls readies guarded body := by
  induction readies generalizing guarded body with
  | nil => exact absurd enough (Nat.not_lt_zero _)
  | cons ready readies ih =>
      rcases (resume_left ready guarded body).2 (pass ready List.mem_cons_self) with
        ended | failed | closer
      · exact .inl (ended ▸ List.mem_cons_self)
      · exact .inr (failed ▸ List.mem_cons_self)
      · rw [List.length_cons] at enough
        have later := ih (fun other member => pass other (List.mem_cons_of_mem _ member))
          (resume ready guarded body).1 (resume ready guarded body).2.1 (by omega)
        exact later.imp (List.mem_cons_of_mem _) (List.mem_cons_of_mem _)

section Served
variable {ns : String}

theorem startReads_headers (room : Nat) (waiting : List ServedEntry) (window : List Reading) :
    (startReads ns room waiting window).Always fun result =>
      result.2.map Reading.header ++ result.1.map ServedEntry.header =
          window.map Reading.header ++ waiting.map ServedEntry.header ∧
        (result.2 = [] → window = [] ∧ (room = 0 ∨ waiting = [])) := by
  induction room generalizing waiting window with
  | zero => exact ⟨rfl, fun none => ⟨none, .inl rfl⟩⟩
  | succ room ih =>
      cases waiting with
      | nil => exact ⟨rfl, fun none => ⟨none, .inr rfl⟩⟩
      | cons entry rest =>
          refine fun id => (ih rest _).mono fun result known => ?_
          obtain ⟨headers, none⟩ := known
          refine ⟨?_, fun empty => ?_⟩
          · rw [headers]
            simp
          · exact absurd (none empty).1
              (List.append_ne_nil_of_right_ne_nil _ (List.cons_ne_nil _ _))

theorem stopped_reads (entry : ServedEntry) (rest : List ServedEntry) (opened : Option Blob) :
    ∃ reads : List PackRead, reads.map PackRead.toServedEntry = entry :: rest ∧
      packStream reads = packStream (⟨entry, opened⟩ :: rest.map (⟨·, none⟩)) :=
  ⟨⟨entry, opened⟩ :: rest.map (⟨·, none⟩), by simp [Function.comp_def], rfl⟩

theorem streamPack_reads (entries waiting : List ServedEntry) (window : List Reading)
    (sent : List Bytes) (ahead : window.map Reading.header ++ waiting.map ServedEntry.header =
      entries.map ServedEntry.header) :
    (streamPack ns entries.length waiting window sent).Always fun stream =>
      ∃ reads : List PackRead, reads.map PackRead.toServedEntry = entries ∧
        stream = (packStream reads).after sent := by
  induction entries generalizing waiting window sent with
  | nil => exact ⟨[], rfl, by simp [packStream, ByteStream.after]⟩
  | cons entry rest ih =>
      rw [List.length_cons, streamPack]
      refine Program.Always.bind ((startReads_headers _ waiting window).mono ?_)
      rintro ⟨waiting', window'⟩ ⟨headers, none⟩
      rw [ahead] at headers
      cases window' with
      | nil =>
          obtain ⟨rfl, full | rfl⟩ := none rfl
          · cases full
          · cases ahead
      | cons reading others =>
          obtain ⟨first, ahead'⟩ := List.cons.inj headers
          intro id out
          simp only [first]
          split
          next blob =>
            cases sends : servePayload blob.size.toNat blob.stream.broken blob.stream.chunks 0 with
            | mk payload complete =>
                cases complete with
                | true =>
                    refine (ih waiting' others _ ahead').mono fun stream found => ?_
                    obtain ⟨reads, same, rfl⟩ := found
                    refine ⟨⟨entry, some blob⟩ :: reads, congrArg (entry :: ·) same, ?_⟩
                    simp [packStream, sendObject, ByteStream.after, sends]
                | false =>
                    obtain ⟨reads, same, stream⟩ := stopped_reads entry rest (some blob)
                    refine ⟨reads, same, ?_⟩
                    rw [stream]
                    simp [packStream, sendObject, ByteStream.after, sends]
          next =>
            obtain ⟨reads, same, stream⟩ := stopped_reads entry rest .none
            exact ⟨reads, same, by rw [stream]; simp [packStream, ByteStream.after]⟩

theorem packBlobs_gives [Protocol] (config : ServerConfig) (headers : Headers)
    (digests : List Digest) :
    (packBlobs config headers digests).Gives fun response => ∃ reads : List PackRead,
      response.content = .stream (Suspended.unpolled reads).rest := by
  refine .bind ((Handler.Gives.any _).mono fun ns _ => ?_)
  split
  · exact .refuse _
  · refine .bind ((Handler.Gives.any _).mono fun requested _ => ?_)
    refine .bind ((Handler.Gives.any _).mono fun visible _ => ?_)
    refine .bind ((Handler.Gives.any _).mono fun pack _ => ?_)
    refine .bind (Program.Always.bind ?_)
    refine (streamPack_reads pack.entries pack.entries [] [blobPackMagic] rfl).mono ?_
    rintro _ ⟨reads, -, rfl⟩ stream same
    cases same
    exact .pure ⟨reads, rfl⟩

end Served

/-- What a handler gives however it is answered, a request is answered with. -/
theorem Answered.gives [Protocol] {M : Type} [MetadataStore M] {config : ServerConfig}
    {actions : List (Action Request Choice)} {pid : Nat} {request : Request} {response : Response}
    {post : Response → Prop} (answered : Answered M config actions pid request (.ok response))
    (gives : (request.handler config).Gives post) : post response := by
  obtain ⟨process, found, ended⟩ := answered.answered
  exact Config.answer_agrees answered.arrived (.of_always gives []) found ended response rfl

/-- A pack is served with the stream that its body gives, however it is polled. -/
theorem served_pack_polled [Protocol] {M : Type} [MetadataStore M] {config : ServerConfig}
    {actions : List (Action Request Choice)} {pid : Nat} {headers : Headers}
    {digests : List Digest} {response : Response}
    (answered : Answered M config actions pid (.packBlobs headers digests) (.ok response)) :
    ∃ (stream : ByteStream) (reads : List PackRead), response.content = .stream stream ∧
      ∀ guarded readies,
        Polled.Give (polls readies guarded (.unpolled reads)) stream ∧
        ((∀ ready ∈ readies, ready ≠ 0) → (Suspended.unpolled reads).left < readies.length →
          .ended ∈ polls readies guarded (.unpolled reads) ∨
            .failed ∈ polls readies guarded (.unpolled reads)) := by
  obtain ⟨reads, content⟩ := answered.gives (packBlobs_gives config headers digests)
  refine ⟨_, reads, content, fun guarded readies => ⟨?_, fun pass enough => ?_⟩⟩
  · exact polls_give readies guarded (.unpolled reads) trivial
  · exact polls_end pass guarded (.unpolled reads) enough

end MbxCache
