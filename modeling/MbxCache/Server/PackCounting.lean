import MbxCache.Concurrent.Holding
import MbxCache.Server.PackBody

namespace MbxCache

/-- The header of an entry is a frame header, and its object either delivers what the digest
declares and ends, or fails before its last byte. -/
structure PackRead.Steady (read : PackRead) : Prop where
  framed : read.header.length = blobPackHeaderBytes
  sized : ∀ blob, read.opened = some blob → blob.size = read.digest.size ∧
    if blob.stream.broken then blob.stream.chunks.flatten.length < read.digest.size.toNat
    else blob.stream.chunks.flatten.length = read.digest.size.toNat

abbrev SteadyRead := { read : PackRead // read.Steady }

/-- The `Content-Length` of the pack of some entries. -/
def packLength (reads : List PackRead) : Nat :=
  blobPackMagic.length +
    (reads.map fun read => blobPackHeaderBytes + read.digest.size.toNat).sum

theorem packLength_append (front : List PackRead) (read : PackRead) :
    packLength (front ++ [read]) =
      packLength front + blobPackHeaderBytes + read.digest.size.toNat := by
  simp only [packLength, List.map_append, List.map_cons, List.map_nil, List.sum_append,
    List.sum_cons, List.sum_nil]
  omega

theorem packLength_split (front : List PackRead) (read : PackRead) (rest : List PackRead) :
    packLength front + blobPackHeaderBytes + read.digest.size.toNat ≤
      packLength (front ++ read :: rest) := by
  simp only [packLength, List.map_append, List.map_cons, List.sum_append, List.sum_cons]
  omega

/-- What a poll or a drop adds to the counters: an outcome, if the pack came to one, and some
served blobs. -/
structure Counts (before after : Metrics) (outcome : Option PackOutcome) (blobs : Nat) :
    Prop where
  requests : ∀ other, after.packRequests other =
    before.packRequests other + if outcome = some other then 1 else 0
  inFlight : after.packInFlight = before.packInFlight - if outcome.isSome then 1 else 0
  served : after.servedBlobs = before.servedBlobs + blobs
  hits : after.blobHits = before.blobHits + blobs

theorem Counts.refl (metrics : Metrics) : Counts metrics metrics none 0 :=
  ⟨fun _ => rfl, (sub_zero _).symm, rfl, rfl⟩

theorem Counts.after_blob {guarded : Guarded} {after : Metrics} {outcome : Option PackOutcome}
    {blobs : Nat} (counts : Counts guarded.blobServed.incBlobHit.metrics after outcome blobs) :
    Counts guarded.metrics after outcome (blobs + 1) := by
  obtain ⟨requests, inFlight, served, hits⟩ := counts
  refine ⟨requests, inFlight, ?_, ?_⟩
  · rw [served]
    simp only [Guarded.incBlobHit, Guarded.blobServed, Metrics.incBlobHit]
    omega
  · rw [hits]
    simp only [Guarded.incBlobHit, Guarded.blobServed, Metrics.incBlobHit]
    omega

theorem Guarded.finish_counts {guarded : Guarded} (uncounted : guarded.guard.finished = none)
    (outcome : PackOutcome) : (guarded.finish outcome).guard.finished = some outcome ∧
      Counts guarded.metrics (guarded.finish outcome).metrics (some outcome) 0 := by
  unfold Guarded.finish
  rw [uncounted]
  refine ⟨rfl, ?_, rfl, rfl, rfl⟩
  intro other
  by_cases same : other = outcome
  · subst same
    simp
  · have differs : ¬ some outcome = some other := fun equal => same (Option.some.inj equal).symm
    simp [same, differs]

/-- Where a body is suspended, how many bytes were taken of it, and how many of its blobs were
served to their ends. -/
inductive Position (all : List PackRead) : Suspended → Nat → Nat → Prop
  | unpolled : Position all (.unpolled all) 0 0
  | reading (done rest : List PackRead) (split : all = done ++ rest) :
      Position all (.reading rest) (packLength done) done.length
  | sending (done : List PackRead) (current : PackRead) (rest : List PackRead)
      (split : all = done ++ current :: rest) (streamed : Nat) (chunks : List Bytes)
      (broken : Bool)
      (fits : if broken then streamed + chunks.flatten.length < current.digest.size.toNat
        else streamed + chunks.flatten.length = current.digest.size.toNat) :
      Position all (.sending current.digest.size.toNat streamed chunks broken rest)
        (packLength done + blobPackHeaderBytes + streamed) done.length

theorem Position.within {all : List PackRead} {suspended : Suspended} {taken blobs : Nat}
    (position : Position all suspended taken blobs) : taken ≤ packLength all := by
  cases position with
  | unpolled => exact Nat.zero_le _
  | reading done rest split =>
      rw [split]
      simp only [packLength, List.map_append, List.sum_append]
      omega
  | sending done current rest split streamed chunks broken fits =>
      rw [split]
      have within := packLength_split done current rest
      split at fits <;> omega

def PollOutcome (all : List PackRead) (taken blobs : Nat) (guard : PackGuard)
    (suspended : Suspended) : Polled → Prop
  | .pending => guard.finished = none ∧ Position all suspended taken blobs
  | .chunk bytes => guard.finished = none ∧ Position all suspended (taken + bytes.length) blobs
  | .failed => guard.finished = some .error ∧ taken < packLength all
  | .ended => guard.finished = some .completed ∧ taken = packLength all ∧ blobs = all.length

def CountedPoll (all : List PackRead) (taken blobs : Nat) (before : Metrics)
    (resumed : Guarded × Suspended × Polled) : Prop :=
  ∃ more, Counts before resumed.1.metrics resumed.1.guard.finished more ∧
    PollOutcome all taken (blobs + more) resumed.1.guard resumed.2.1 resumed.2.2

section Poll
variable {all : List PackRead} {guarded : Guarded} {taken blobs : Nat}

theorem CountedPoll.failed (uncounted : guarded.guard.finished = none)
    (short : taken < packLength all) : CountedPoll all taken blobs guarded.metrics (guarded.error, .returned, .failed) := by
  obtain ⟨outcome, counts⟩ := Guarded.finish_counts uncounted .error
  refine ⟨0, ?_, outcome, short⟩
  change Counts _ (guarded.finish .error).metrics (guarded.finish .error).guard.finished 0
  rw [outcome]
  exact counts

theorem resume_reading (steady : ∀ read ∈ all, read.Steady) (done rest : List PackRead)
    (split : all = done ++ rest) (ready : Nat) (uncounted : guarded.guard.finished = none) :
    CountedPoll all (packLength done) done.length guarded.metrics
      (resume ready guarded (.reading rest)) := by
  cases rest with
  | nil =>
      obtain ⟨outcome, counts⟩ := Guarded.finish_counts uncounted .completed
      have came : resume ready guarded (.reading []) = (guarded.complete, .returned, .ended) := by
        cases ready <;> rfl
      rw [List.append_nil] at split
      rw [came, split]
      refine ⟨0, ?_, outcome, rfl, rfl⟩
      change Counts _ (guarded.finish .completed).metrics
        (guarded.finish .completed).guard.finished 0
      rw [outcome]
      exact counts
  | cons read rest =>
      cases ready with
      | zero =>
          refine ⟨0, ?_, uncounted, .reading done (read :: rest) split⟩
          change Counts _ guarded.metrics guarded.guard.finished 0
          rw [uncounted]
          exact .refl _
      | succ ready =>
          have within := packLength_split done read rest
          have positive : 0 < blobPackHeaderBytes := by decide
          rw [← split] at within
          obtain ⟨framed, sized⟩ := steady read (by rw [split]; simp)
          rw [resume]
          cases opened : read.opened with
          | none => exact .failed uncounted (by omega)
          | some blob =>
              obtain ⟨size, fits⟩ := sized blob opened
              refine ⟨0, ?_, uncounted, ?_⟩
              · change Counts _ guarded.metrics guarded.guard.finished 0
                rw [uncounted]
                exact .refl _
              · change Position all (.sending blob.size.toNat 0 blob.stream.chunks
                  blob.stream.broken rest) (packLength done + read.header.length) done.length
                rw [size, framed]
                refine .sending done read rest split 0 blob.stream.chunks blob.stream.broken ?_
                rw [Nat.zero_add]
                exact fits

theorem resume_sending (steady : ∀ read ∈ all, read.Steady) (done : List PackRead)
    (current : PackRead) (rest : List PackRead) (split : all = done ++ current :: rest)
    (streamed : Nat) (chunks : List Bytes) (broken : Bool)
    (fits : if broken then streamed + chunks.flatten.length < current.digest.size.toNat
      else streamed + chunks.flatten.length = current.digest.size.toNat)
    (ready : Nat) (uncounted : guarded.guard.finished = none) :
    CountedPoll all (packLength done + blobPackHeaderBytes + streamed) done.length guarded.metrics
      (resume ready guarded
        (.sending current.digest.size.toNat streamed chunks broken rest)) := by
  have within := packLength_split done current rest
  rw [← split] at within
  cases ready with
  | zero =>
      refine ⟨0, ?_, uncounted, .sending done current rest split streamed chunks broken fits⟩
      change Counts _ guarded.metrics guarded.guard.finished 0
      rw [uncounted]
      exact .refl _
  | succ ready =>
      cases chunks with
      | nil =>
          rw [List.flatten_nil, List.length_nil, Nat.add_zero] at fits
          rw [resume]
          cases broken with
          | true =>
              rw [if_pos rfl] at fits ⊢
              exact .failed uncounted (by omega)
          | false =>
              rw [if_neg Bool.false_ne_true] at fits ⊢
              rw [if_neg (not_not.mpr fits)]
              have served : all = (done ++ [current]) ++ rest := by
                rw [split, List.append_assoc, List.singleton_append]
              have still : guarded.blobServed.incBlobHit.guard.finished = none := uncounted
              obtain ⟨more, counts, outcome⟩ :=
                resume_reading steady (done ++ [current]) rest served ready still
              rw [packLength_append, List.length_append, List.length_singleton,
                Nat.add_assoc done.length, Nat.add_comm 1] at outcome
              rw [fits]
              exact ⟨more + 1, counts.after_blob, outcome⟩
      | cons chunk chunks =>
          have bound := current.digest.size.toNat_lt
          rw [List.flatten_cons, List.length_append] at fits
          have small : streamed + chunk.length ≤ current.digest.size.toNat := by
            split at fits <;> omega
          rw [resume, if_neg (by omega), if_neg (Nat.not_lt_of_le small)]
          refine ⟨0, ?_, uncounted, ?_⟩
          · change Counts _ (guarded.addServedBytes chunk.length).metrics
              guarded.guard.finished 0
            rw [uncounted]
            exact ⟨fun _ => rfl, (sub_zero _).symm, rfl, rfl⟩
          · rw [Nat.add_assoc _ streamed]
            refine .sending done current rest split _ chunks broken ?_
            rw [Nat.add_assoc streamed]
            exact fits

theorem resume_comes (steady : ∀ read ∈ all, read.Steady) {suspended : Suspended}
    (position : Position all suspended taken blobs) (ready : Nat)
    (uncounted : guarded.guard.finished = none) :
    CountedPoll all taken blobs guarded.metrics (resume ready guarded suspended) := by
  cases position with
  | unpolled =>
      have came : resume ready guarded (.unpolled all) =
          (guarded.recordFirstByte, .reading all, .chunk blobPackMagic) := by
        cases ready <;> rfl
      rw [came]
      have kept : guarded.recordFirstByte.guard.finished = none := by
        unfold Guarded.recordFirstByte
        split <;> exact uncounted
      refine ⟨0, ?_, kept, .reading [] all rfl⟩
      change Counts _ guarded.recordFirstByte.metrics guarded.recordFirstByte.guard.finished 0
      rw [kept]
      unfold Guarded.recordFirstByte
      split <;> exact ⟨fun _ => rfl, (sub_zero _).symm, rfl, rfl⟩
  | reading done rest split => exact resume_reading steady done rest split ready uncounted
  | sending done current rest split streamed chunks broken fits =>
      exact resume_sending steady done current rest split streamed chunks broken fits ready uncounted

end Poll

inductive Fate
  | taking
  | failed
  | ended
  | left
  deriving DecidableEq, Repr

def Polled.fate : Polled → Fate
  | .pending | .chunk _ => .taking
  | .failed => .failed
  | .ended => .ended

def Polled.taken : Polled → Nat
  | .chunk bytes => bytes.length
  | _ => 0

structure PackClient where
  reads : List SteadyRead
  guard : PackGuard
  suspended : Suspended
  fate : Fate
  taken : Nat
  servedBlobs : Nat
  blobHits : Nat

namespace PackClient

def all (client : PackClient) : List PackRead := client.reads.map Subtype.val

/-- The `Content-Length` that was announced. -/
def length (client : PackClient) : Nat := packLength client.all

def poll (ready : Nat) (metrics : Metrics) (client : PackClient) : Metrics × PackClient :=
  if client.fate = .taking then
    let (guarded, suspended, polled) := resume ready ⟨metrics, client.guard⟩ client.suspended
    (guarded.metrics,
      { client with
        guard := guarded.guard
        suspended := suspended
        fate := polled.fate
        taken := client.taken + polled.taken
        servedBlobs := client.servedBlobs + (guarded.metrics.servedBlobs - metrics.servedBlobs)
        blobHits := client.blobHits + (guarded.metrics.blobHits - metrics.blobHits) })
  else (metrics, client)

def leave (metrics : Metrics) (client : PackClient) : Metrics × PackClient :=
  if client.fate = .taking then
    let guarded := Guarded.drop ⟨metrics, client.guard⟩
    (guarded.metrics, { client with guard := guarded.guard, fate := .left })
  else (metrics, client)

end PackClient

structure PackTraffic where
  metrics : Metrics
  clients : List PackClient

inductive PackMove
  | start (reads : List SteadyRead) (requestedBlobs requestedBytes missingBlobs : Nat)
  | poll (id ready : Nat)
  | drop (id : Nat)

namespace PackTraffic

def initial : PackTraffic := ⟨.new, []⟩

def turn (traffic : PackTraffic) (id : Nat)
    (change : Metrics → PackClient → Metrics × PackClient) : PackTraffic :=
  match traffic.clients[id]? with
  | none => traffic
  | some client =>
      let (metrics, next) := change traffic.metrics client
      ⟨metrics, traffic.clients.set id next⟩

def step (traffic : PackTraffic) : PackMove → PackTraffic
  | .start reads requestedBlobs requestedBytes missingBlobs =>
      let (metrics, guard) :=
        traffic.metrics.startPack requestedBlobs requestedBytes missingBlobs
      ⟨metrics, traffic.clients ++
        [⟨reads, guard, .unpolled (reads.map Subtype.val), .taking, 0, 0, 0⟩]⟩
  | .poll id ready => traffic.turn id (PackClient.poll ready)
  | .drop id => traffic.turn id PackClient.leave

def run (moves : List PackMove) : PackTraffic := moves.foldl step initial

structure Counted (traffic : PackTraffic) : Prop where
  started : (traffic.clients.length : Int) = traffic.metrics.packRequests .completed +
    traffic.metrics.packRequests .error + traffic.metrics.packRequests .cancelled +
    traffic.metrics.packInFlight
  once : ∀ outcome, traffic.metrics.packRequests outcome =
    traffic.clients.countP fun client => client.guard.finished = some outcome
  error : ∀ client ∈ traffic.clients,
    client.guard.finished = some .error ↔ client.fate = .failed
  completed : ∀ client ∈ traffic.clients, client.fate ≠ .taking →
    (client.guard.finished = some .completed ↔ client.taken = client.length)
  cancelled : ∀ client ∈ traffic.clients,
    client.guard.finished = some .cancelled ↔ client.fate = .left ∧ client.taken < client.length
  served : ∀ client ∈ traffic.clients, client.fate ≠ .taking → client.taken = client.length →
    client.servedBlobs = client.reads.length ∧ client.blobHits = client.reads.length
  grown : traffic.metrics.servedBlobs = (traffic.clients.map PackClient.servedBlobs).sum ∧
    traffic.metrics.blobHits = (traffic.clients.map PackClient.blobHits).sum

/-- No body is dropped after its last byte and before its end. -/
def Drained (moves : List PackMove) : Prop :=
  ∀ n id client, moves[n]? = some (.drop id) → (run (moves.take n)).clients[id]? = some client →
    client.fate = .taking → client.taken < client.length

end PackTraffic

/-- How a body stands with its guard. -/
inductive PackClient.Tracked (client : PackClient) : Prop
  | taking (fate : client.fate = .taking) (uncounted : client.guard.finished = none)
      (position : Position client.all client.suspended client.taken client.servedBlobs)
      (hits : client.blobHits = client.servedBlobs)
  | failed (fate : client.fate = .failed) (outcome : client.guard.finished = some .error)
      (short : client.taken < client.length)
  | ended (fate : client.fate = .ended) (outcome : client.guard.finished = some .completed)
      (whole : client.taken = client.length) (served : client.servedBlobs = client.reads.length)
      (hits : client.blobHits = client.servedBlobs)
  | left (fate : client.fate = .left) (outcome : client.guard.finished = some .cancelled)
      (within : client.taken ≤ client.length)

theorem PackClient.Tracked.still {client : PackClient} (tracked : client.Tracked) (fate : client.fate = .taking) :
    client.guard.finished = none ∧
      Position client.all client.suspended client.taken client.servedBlobs ∧
      client.blobHits = client.servedBlobs := by
  cases tracked with
  | taking _ uncounted position hits => exact ⟨uncounted, position, hits⟩
  | failed other => rw [fate] at other; cases other
  | ended other => rw [fate] at other; cases other
  | left other => rw [fate] at other; cases other

structure PackTraffic.Accounts (traffic : PackTraffic) : Prop where
  tracked : ∀ client ∈ traffic.clients, client.Tracked
  requests : ∀ outcome, traffic.metrics.packRequests outcome =
    traffic.clients.countP fun client => client.guard.finished = some outcome
  inFlight : traffic.metrics.packInFlight =
    (traffic.clients.countP fun client => client.guard.finished = none : Nat)
  served : traffic.metrics.servedBlobs = (traffic.clients.map PackClient.servedBlobs).sum
  hits : traffic.metrics.blobHits = (traffic.clients.map PackClient.blobHits).sum

namespace PackTraffic.Accounts

variable {traffic : PackTraffic} {client next : PackClient} {id : Nat} {metrics : Metrics}
  {blobs : Nat}

theorem turned (accounts : traffic.Accounts) (present : traffic.clients[id]? = some client)
    (uncounted : client.guard.finished = none)
    (counts : Counts traffic.metrics metrics next.guard.finished blobs) (tracked : next.Tracked)
    (served : next.servedBlobs = client.servedBlobs + blobs)
    (hits : next.blobHits = client.blobHits + blobs) :
    Accounts ⟨metrics, traffic.clients.set id next⟩ := by
  obtain ⟨bound, here⟩ := List.getElem?_eq_some_iff.mp present
  have servedSum := Concurrent.sum_map_set PackClient.servedBlobs present next
  have hitsSum := Concurrent.sum_map_set PackClient.blobHits present next
  refine ⟨?_, ?_, ?_, ?_, ?_⟩
  · intro other member
    rcases List.mem_or_eq_of_mem_set member with old | rfl
    · exact accounts.tracked other old
    · exact tracked
  · intro outcome
    have before := accounts.requests outcome
    rw [counts.requests, before, List.countP_set bound, here, uncounted]
    simp
  · have before := accounts.inFlight
    have one : 0 < traffic.clients.countP fun client => client.guard.finished = none :=
      List.countP_pos_iff.mpr ⟨client, List.mem_of_getElem? present, by simpa using uncounted⟩
    rw [counts.inFlight, before, List.countP_set bound, here, uncounted]
    cases next.guard.finished with
    | none => simp; omega
    | some outcome => simp; omega
  · have before := accounts.served
    change metrics.servedBlobs = ((traffic.clients.set id next).map PackClient.servedBlobs).sum
    rw [counts.served]
    omega
  · have before := accounts.hits
    change metrics.blobHits = ((traffic.clients.set id next).map PackClient.blobHits).sum
    rw [counts.hits]
    omega

theorem polled (accounts : traffic.Accounts) (id ready : Nat) :
    (traffic.turn id (PackClient.poll ready)).Accounts := by
  unfold turn
  cases present : traffic.clients[id]? with
  | none => exact accounts
  | some client =>
      simp only [PackClient.poll]
      split
      · rename_i fate
        obtain ⟨uncounted, position, same⟩ :=
          (accounts.tracked client (List.mem_of_getElem? present)).still fate
        have steady : ∀ read ∈ client.all, read.Steady := by
          intro read member
          obtain ⟨steady, _, rfl⟩ := List.mem_map.mp member
          exact steady.2
        have unfinished : (⟨traffic.metrics, client.guard⟩ : Guarded).guard.finished = none :=
          uncounted
        have comes := resume_comes steady position ready unfinished
        generalize resume ready ⟨traffic.metrics, client.guard⟩ client.suspended = resumed
          at comes ⊢
        obtain ⟨guarded, suspended, polled⟩ := resumed
        obtain ⟨more, counts, outcome⟩ := comes
        have served : guarded.metrics.servedBlobs - traffic.metrics.servedBlobs = more := by
          rw [counts.served, Nat.add_sub_cancel_left]
        have hits : guarded.metrics.blobHits - traffic.metrics.blobHits = more := by
          rw [counts.hits, Nat.add_sub_cancel_left]
        simp only [served, hits]
        refine accounts.turned present uncounted counts ?_ rfl rfl
        have hits' : client.blobHits + more = client.servedBlobs + more := by rw [same]
        cases polled with
        | pending => exact .taking rfl outcome.1 outcome.2 hits'
        | chunk bytes => exact .taking rfl outcome.1 outcome.2 hits'
        | failed => exact .failed rfl outcome.1 outcome.2
        | ended =>
            obtain ⟨finished, whole, all⟩ := outcome
            exact .ended rfl finished whole (all.trans (List.length_map _)) hits'
      · obtain ⟨bound, rfl⟩ := List.getElem?_eq_some_iff.mp present
        rw [List.set_getElem_self]
        exact accounts

theorem dropped (accounts : traffic.Accounts) (id : Nat) :
    (traffic.turn id PackClient.leave).Accounts := by
  unfold turn
  cases present : traffic.clients[id]? with
  | none => exact accounts
  | some client =>
      simp only [PackClient.leave]
      split
      · rename_i fate
        obtain ⟨uncounted, position, same⟩ :=
          (accounts.tracked client (List.mem_of_getElem? present)).still fate
        have unfinished : (⟨traffic.metrics, client.guard⟩ : Guarded).guard.finished = none :=
          uncounted
        obtain ⟨finished, counts⟩ := Guarded.finish_counts unfinished .cancelled
        have left : Counts traffic.metrics
            (Guarded.finish ⟨traffic.metrics, client.guard⟩ .cancelled).metrics
            (Guarded.finish ⟨traffic.metrics, client.guard⟩ .cancelled).guard.finished 0 := by
          rw [finished]
          exact counts
        exact accounts.turned present uncounted left (.left rfl finished position.within) rfl rfl
      · obtain ⟨bound, rfl⟩ := List.getElem?_eq_some_iff.mp present
        rw [List.set_getElem_self]
        exact accounts

theorem started (accounts : traffic.Accounts) (reads : List SteadyRead)
    (requestedBlobs requestedBytes missingBlobs : Nat) :
    (traffic.step (.start reads requestedBlobs requestedBytes missingBlobs)).Accounts := by
  refine ⟨?_, ?_, ?_, ?_, ?_⟩
  · intro client member
    rcases List.mem_append.mp member with old | new
    · exact accounts.tracked client old
    · rw [List.mem_singleton.mp new]
      exact .taking rfl rfl .unpolled rfl
  · intro outcome
    have before := accounts.requests outcome
    simp only [step, Metrics.startPack, List.countP_append, List.countP_singleton]
    simpa using before
  · have before := accounts.inFlight
    simp only [step, Metrics.startPack, List.countP_append, List.countP_singleton]
    rw [before]
    simp
  · have before := accounts.served
    simp only [step, Metrics.startPack, List.map_append, List.sum_append]
    simpa using before
  · have before := accounts.hits
    simp only [step, Metrics.startPack, List.map_append, List.sum_append]
    simpa using before

theorem step (accounts : traffic.Accounts) (move : PackMove) :
    (traffic.step move).Accounts := by
  cases move with
  | start reads requestedBlobs requestedBytes missingBlobs =>
      exact accounts.started reads requestedBlobs requestedBytes missingBlobs
  | poll id ready => exact accounts.polled id ready
  | drop id => exact accounts.dropped id

theorem run (moves : List PackMove) : (PackTraffic.run moves).Accounts := by
  induction moves using List.reverseRecOn with
  | nil => exact ⟨nofun, fun _ => rfl, rfl, rfl, rfl⟩
  | append_singleton moves move ih =>
      rw [PackTraffic.run, List.foldl_append]
      exact ih.step move

theorem outcomes (clients : List PackClient) : clients.length =
    (clients.countP fun client => client.guard.finished = some .completed) +
    (clients.countP fun client => client.guard.finished = some .error) +
    (clients.countP fun client => client.guard.finished = some .cancelled) +
    clients.countP fun client => client.guard.finished = none := by
  induction clients with
  | nil => rfl
  | cons client rest ih =>
      simp only [List.length_cons, List.countP_cons]
      rcases client.guard.finished with _ | _ | _ | _ <;> simp <;> omega

/-- All is counted as it should be when nobody left after the last byte. -/
theorem counted_iff (accounts : traffic.Accounts) : traffic.Counted ↔
    ∀ client ∈ traffic.clients, client.fate = .left → client.taken < client.length := by
  constructor
  · intro counted client member fate
    have outcome : client.guard.finished = some .cancelled := by
      cases accounts.tracked client member with
      | left _ outcome within => exact outcome
      | _ other => rw [fate] at other; cases other
    exact ((counted.cancelled client member).mp outcome).2
  · intro short
    have each : ∀ client ∈ traffic.clients,
        (client.guard.finished = some .error ↔ client.fate = .failed) ∧
        (client.fate ≠ .taking →
          (client.guard.finished = some .completed ↔ client.taken = client.length)) ∧
        (client.guard.finished = some .cancelled ↔
          client.fate = .left ∧ client.taken < client.length) ∧
        (client.fate ≠ .taking → client.taken = client.length →
          client.servedBlobs = client.reads.length ∧
            client.blobHits = client.reads.length) := by
      intro client member
      cases accounts.tracked client member with
      | taking fate outcome position hits => simp [fate, outcome]
      | failed fate outcome less =>
          have differs : client.taken ≠ client.length := by omega
          simp [fate, outcome, differs]
      | ended fate outcome whole served hits => simp [fate, outcome, whole, served, hits]
      | left fate outcome within =>
          have less := short client member fate
          have differs : client.taken ≠ client.length := by omega
          simp [fate, outcome, less, differs]
    refine ⟨?_, accounts.requests, fun client member => (each client member).1,
      fun client member => (each client member).2.1,
      fun client member => (each client member).2.2.1,
      fun client member => (each client member).2.2.2, accounts.served, accounts.hits⟩
    have total := outcomes traffic.clients
    rw [accounts.requests, accounts.requests, accounts.requests, accounts.inFlight]
    omega

end PackTraffic.Accounts

namespace PackTraffic

theorem left_step {traffic : PackTraffic} {move : PackMove} {client : PackClient}
    (member : client ∈ (traffic.step move).clients) (fate : client.fate = .left) :
    client ∈ traffic.clients ∨ ∃ id before, move = .drop id ∧
      traffic.clients[id]? = some before ∧ before.fate = .taking ∧
      before.taken = client.taken ∧ before.length = client.length := by
  have turned : ∀ {id : Nat} {change : Metrics → PackClient → Metrics × PackClient},
      client ∈ (traffic.turn id change).clients → client ∈ traffic.clients ∨
        ∃ before, traffic.clients[id]? = some before ∧
          client = (change traffic.metrics before).2 := by
    intro id change member
    unfold turn at member
    cases present : traffic.clients[id]? with
    | none =>
        rw [present] at member
        exact .inl member
    | some before =>
        rw [present] at member
        exact (List.mem_or_eq_of_mem_set member).imp_right fun same => ⟨before, rfl, same⟩
  cases move with
  | start reads requestedBlobs requestedBytes missingBlobs =>
      rcases List.mem_append.mp member with old | new
      · exact .inl old
      · rw [List.mem_singleton.mp new] at fate
        cases fate
  | poll id ready =>
      rcases turned member with old | ⟨before, present, same⟩
      · exact .inl old
      · rw [PackClient.poll] at same
        split at same
        · rw [same] at fate
          simp only at fate
          generalize (resume ready ⟨traffic.metrics, before.guard⟩ before.suspended).2.2 = polled
            at fate
          cases polled <;> cases fate
        · rw [same]
          exact .inl (List.mem_of_getElem? present)
  | drop id =>
      rcases turned member with old | ⟨before, present, same⟩
      · exact .inl old
      · rw [PackClient.leave] at same
        split at same
        · rename_i taking
          exact .inr ⟨id, before, rfl, present, taking, by rw [same], by rw [same]; rfl⟩
        · rw [same]
          exact .inl (List.mem_of_getElem? present)

theorem run_succ {moves : List PackMove} {n : Nat} {move : PackMove}
    (next : moves[n]? = some move) :
    run (moves.take (n + 1)) = (run (moves.take n)).step move := by
  rw [run, List.take_add_one, next, List.foldl_append]
  rfl

/-- Packs are counted once and as what became of them, in every state of a run, exactly when
nobody drops a body between its last byte and its end. -/
theorem packs_counted_iff (moves : List PackMove) :
    (∀ n, (run (moves.take n)).Counted) ↔ Drained moves := by
  constructor
  · intro counted n id client dropped present taking
    have all := (Accounts.run (moves.take (n + 1))).counted_iff.mp (counted (n + 1))
    obtain ⟨bound, _⟩ := List.getElem?_eq_some_iff.mp present
    have after : (run (moves.take (n + 1))).clients[id]? =
        some (client.leave (run (moves.take n)).metrics).2 := by
      rw [run_succ dropped]
      change ((run (moves.take n)).turn id PackClient.leave).clients[id]? = _
      rw [turn, present]
      exact List.getElem?_set_self bound
    have left : (client.leave (run (moves.take n)).metrics).2.fate = .left := by
      rw [PackClient.leave, if_pos taking]
    have short := all _ (List.mem_of_getElem? after) left
    rw [PackClient.leave, if_pos taking] at short
    exact short
  · intro drained n
    rw [(Accounts.run (moves.take n)).counted_iff]
    induction n with
    | zero => exact nofun
    | succ n ih =>
        cases next : moves[n]? with
        | none =>
            rw [List.take_add_one, next, Option.toList_none, List.append_nil]
            exact ih
        | some move =>
            intro client member fate
            rw [run_succ next] at member
            rcases left_step member fate with old | ⟨id, before, rfl, present, taking, taken, length⟩
            · exact ih client old fate
            · rw [← taken, ← length]
              exact drained n id before next present taking

def lastByteDropped : List PackMove :=
  [.start [⟨⟨⟨List.replicate 41 0, ⟨"blake3", "", 1⟩⟩, some ⟨1, ⟨[[0]], false⟩⟩⟩,
      rfl, by rintro _ ⟨⟩; exact ⟨rfl, rfl⟩⟩] 1 1 0,
    .poll 0 1, .poll 0 1, .poll 0 1, .drop 0]

/-- It took all of the body, and is counted as one who left early. -/
theorem dropped_counted_cancelled :
    (∃ client, (run lastByteDropped).clients = [client] ∧ client.taken = client.length) ∧
    (run lastByteDropped).metrics.packRequests .completed = 0 ∧
    (run lastByteDropped).metrics.packRequests .cancelled = 1 ∧
    (run lastByteDropped).metrics.servedBlobs = 0 ∧ ¬ (run lastByteDropped).Counted := by
  have all : ∃ client, (run lastByteDropped).clients = [client] ∧
      client.taken = client.length ∧ client.fate = .left := ⟨_, rfl, rfl, rfl⟩
  obtain ⟨client, clients, whole, left⟩ := all
  refine ⟨⟨client, clients, whole⟩, rfl, rfl, rfl, ?_⟩
  intro counted
  have short := (Accounts.run lastByteDropped).counted_iff.mp counted client
    (by rw [clients]; exact List.mem_singleton_self _) left
  omega

end PackTraffic

end MbxCache
