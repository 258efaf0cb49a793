import MbxCache.Concurrent.Solo
import MbxCache.Server.Blobs

namespace MbxCache

open Concurrent

/-- How the surroundings of a pack request answer it: what its namespace sees at first,
and what reads of the storage may find. -/
structure ReadSide (M : Machine Api) where
  admits : M.Choice → Prop
  start : M.State
  Inv : M.State → Prop
  visible : String → Digest → Bool
  Finds : Digest → Except Failure (Option Blob) → Prop
  body : ∀ job, M.body job = job.body
  inv_start : Inv start
  /-- Whether the metadata may fail to answer. -/
  fails : Prop
  look : ∀ {choice} ns digests, admits choice →
    (M.exec choice (.visibleBlobs ns digests) start).1 = start
  sees : ∀ {choice ns digests}, admits choice → IsNamespace ns →
    (∀ digest ∈ digests, digest.validate = true) →
      (M.exec choice (.visibleBlobs ns digests) start).2 = .ok (digests.filter (visible ns)) ∨
        fails ∧ ∃ failure, (M.exec choice (.visibleBlobs ns digests) start).2 = .error failure
  get : ∀ {choice state} digest, admits choice → Inv state →
    Inv (M.exec choice (.get digest) state).1 ∧ Finds digest (M.exec choice (.get digest) state).2
  forget : ∀ {choice state} ns digest, admits choice → Inv state →
    Inv (M.exec choice (.forgetBlob ns digest) state).1

def openFound (ns : String) (digest : Digest) : Except Failure (Option Blob) → Program Api Out
  | .error _ => .done (.opened none)
  | .ok none => .call (.forgetBlob ns digest) fun _ => .done (.opened none)
  | .ok (some blob) =>
      if blob.size ≠ digest.size then .done (.opened none) else .done (.opened (some blob))

theorem openEntry_eq (ns : String) (digest : Digest) :
    openEntry ns digest = .call (.get digest) (openFound ns digest) := by
  apply congrArg (Program.call _)
  funext found
  cases found with
  | error failure => rfl
  | ok found => cases found <;> rfl

def openedOf (digest : Digest) : Except Failure (Option Blob) → Option Blob
  | .ok (some blob) => if blob.size ≠ digest.size then none else some blob
  | _ => none

theorem openedOf_some {digest : Digest} {found : Except Failure (Option Blob)} {blob : Blob}
    (opened : openedOf digest found = some blob) :
    found = .ok (some blob) ∧ blob.size = digest.size := by
  unfold openedOf at opened
  split at opened
  · split at opened
    · cases opened
    · rename_i same
      cases opened
      exact ⟨rfl, not_not.mp same⟩
  · cases opened

structure Whole (digest : Digest) (found : Except Failure (Option Blob)) (payload : List Bytes) :
    Prop where
  blob : ∃ blob, found = .ok (some blob) ∧ blob.size = digest.size ∧
    blob.stream = ⟨payload, false⟩
  length : payload.flatten.length = digest.size.toNat

theorem openedOf_none {digest : Digest} {found : Except Failure (Option Blob)}
    (opened : openedOf digest found = none) : ¬ ∃ payload, Whole digest found payload := by
  rintro ⟨payload, ⟨blob, rfl, size, _⟩, _⟩
  rw [openedOf, if_neg (not_not.mpr size)] at opened
  cases opened

namespace ReadSide

variable {M : Machine Api} (side : ReadSide M)

inductive Opening (ns : String) (digest : Digest) : Program Api Out → Prop
  | start : Opening ns digest (openEntry ns digest)
  | absent (found : side.Finds digest (.ok none)) :
      Opening ns digest (.call (.forgetBlob ns digest) fun _ => .done (.opened none))
  | opened (found : Except Failure (Option Blob)) (finds : side.Finds digest found) :
      Opening ns digest (.done (.opened (openedOf digest found)))

structure Serves (ns : String) (all : List ServedEntry) (world : World M) : Prop where
  fresh : world.tasks = [] → world.state = side.start
  inv : side.Inv world.state
  tasks : ∀ (i : Nat) (task : Task Api), world.tasks[i]? = some task →
    ∃ entry : ServedEntry, all[i]? = some entry ∧ task.aborted = false ∧
      side.Opening ns entry.digest task.rest

variable {side}

theorem Opening.found {ns : String} {digest : Digest} {found : Except Failure (Option Blob)}
    (finds : side.Finds digest found) : side.Opening ns digest (openFound ns digest found) := by
  have opened : side.Opening ns digest (.done (.opened (openedOf digest found))) := .opened _ finds
  cases found with
  | error failure => exact opened
  | ok found =>
      cases found with
      | none => exact .absent finds
      | some blob =>
          by_cases other : blob.size ≠ digest.size
          · rw [openedOf, if_pos other] at opened
            rw [openFound, if_pos other]
            exact opened
          · rw [openedOf, if_neg other] at opened
            rw [openFound, if_neg other]
            exact opened

theorem Opening.step {ns : String} {digest : Digest} {task : Task Api} {state : M.State}
    {choice : M.Choice} (opening : side.Opening ns digest task.rest) (admitted : side.admits choice)
    (inv : side.Inv state) : side.Inv (M.stepTask choice state task).1 ∧
      (M.stepTask choice state task).2.aborted = task.aborted ∧
      side.Opening ns digest (M.stepTask choice state task).2.rest := by
  unfold Machine.stepTask
  split
  · exact ⟨inv, rfl, opening⟩
  · generalize rest : task.rest = program at opening
    cases opening with
    | start =>
        rw [openEntry_eq]
        obtain ⟨inv', finds⟩ := side.get digest admitted inv
        exact ⟨inv', rfl, .found finds⟩
    | absent found => exact ⟨side.forget ns digest admitted inv, rfl, .opened _ found⟩
    | opened found finds => exact ⟨inv, rfl, by rw [rest]; exact .opened found finds⟩

def solo (side : ReadSide M) (ns : String) (all : List ServedEntry) : Solo M where
  regime := ⟨side.admits, side.admits, False⟩
  Inv := side.Serves ns all
  Calls op world := world.tasks = [] ∧ ∃ digests, op = .visibleBlobs ns digests
  Spawns job world := ∃ entry, all[world.tasks.length]? = some entry ∧ job = .read ns entry.digest
  Joins _ _ := True
  aside := by
    rintro world next serves (⟨id, task, choice, present, admitted⟩ | ⟨_, _, _, _, never⟩)
    · obtain ⟨entry, listed, live, opening⟩ := serves.tasks id task present
      obtain ⟨inv, kept, opening'⟩ := opening.step admitted serves.inv
      refine ⟨?_, inv, ?_⟩
      · intro empty
        rw [List.set_eq_nil_iff] at empty
        rw [empty] at present
        cases present
      · intro i other found
        by_cases same : i = id
        · subst same
          rw [List.getElem?_set_self (List.getElem?_eq_some_iff.mp present).1] at found
          cases found
          exact ⟨entry, listed, kept.trans live, opening'⟩
        · rw [List.getElem?_set_ne (Ne.symm same)] at found
          exact serves.tasks i other found
    · exact never.elim
  call := by
    rintro world op choice serves ⟨empty, digests, rfl⟩ admitted
    have same : (M.exec choice (.visibleBlobs ns digests) world.state).1 = world.state := by
      rw [serves.fresh empty]
      exact side.look ns digests admitted
    refine ⟨fun _ => same.trans (serves.fresh empty), ?_, serves.tasks⟩
    change side.Inv (M.exec choice (.visibleBlobs ns digests) world.state).1
    rw [same]
    exact serves.inv
  spawn := by
    rintro world job serves ⟨entry, listed, rfl⟩
    refine ⟨fun empty => by simp [World.spawned] at empty, serves.inv, ?_⟩
    intro i task found
    rcases getElem?_snoc found with old | ⟨rfl, rfl⟩
    · exact serves.tasks i task old
    · refine ⟨entry, listed, rfl, ?_⟩
      rw [side.body]
      exact .start

theorem Serves.outcome {ns : String} {all : List ServedEntry} {world : World M}
    (serves : side.Serves ns all world) {i : Nat} {task : Task Api} {entry : ServedEntry}
    {out : Option Out} (present : world.tasks[i]? = some task) (listed : all[i]? = some entry)
    (ended : task.outcome = some out) :
    ∃ found, side.Finds entry.digest found ∧ out = some (.opened (openedOf entry.digest found)) := by
  obtain ⟨other, same, live, opening⟩ := serves.tasks i task present
  rw [listed] at same
  cases same
  unfold Task.outcome at ended
  rw [live, if_neg Bool.false_ne_true] at ended
  generalize task.rest = program at opening ended
  cases opening with
  | start => cases ended
  | absent found => cases ended
  | opened found finds =>
      cases ended
      exact ⟨found, finds, rfl⟩

inductive Sends (side : ReadSide M) : List ServedEntry → List Bytes → Prop
  | nil : Sends side [] []
  | cons {entry : ServedEntry} {rest : List ServedEntry} {payload chunks : List Bytes}
      (found : Except Failure (Option Blob)) (finds : side.Finds entry.digest found)
      (whole : Whole entry.digest found payload) (more : Sends side rest chunks) :
      Sends side (entry :: rest) (entry.header :: payload ++ chunks)

/-- How the stream of some entries may come out: with all their frames, or broken
because a payload could not be had whole. -/
inductive Streamed (side : ReadSide M) (rest : List ServedEntry) (sent : List Bytes) :
    ByteStream → Prop
  | complete (chunks : List Bytes) (sends : side.Sends rest chunks) :
      Streamed side rest sent ⟨sent ++ chunks, false⟩
  | broken (chunks : List Bytes) (entry : ServedEntry) (member : entry ∈ rest)
      (found : Except Failure (Option Blob)) (finds : side.Finds entry.digest found)
      (partly : ¬ ∃ payload, Whole entry.digest found payload) :
      Streamed side rest sent ⟨chunks, true⟩

theorem Streamed.cons {rest : List ServedEntry} {sent payload : List Bytes} {stream : ByteStream}
    {entry : ServedEntry} {found : Except Failure (Option Blob)}
    (finds : side.Finds entry.digest found) (whole : Whole entry.digest found payload)
    (streamed : side.Streamed rest (sent ++ entry.header :: payload) stream) :
    side.Streamed (entry :: rest) sent stream := by
  cases streamed with
  | complete chunks sends =>
      rw [List.append_assoc]
      exact .complete _ (.cons found finds whole sends)
  | broken chunks other member found finds partly =>
      exact .broken chunks other (List.mem_cons_of_mem _ member) found finds partly

end ReadSide

theorem servePayload_complete (size : Nat) (broken : Bool) (chunks : List Bytes)
    (streamed : Nat) :
    ((servePayload size broken chunks streamed).2 = true ↔
      broken = false ∧ streamed + chunks.flatten.length = size) ∧
    ((servePayload size broken chunks streamed).2 = true →
      (servePayload size broken chunks streamed).1 = chunks) := by
  induction chunks generalizing streamed with
  | nil => simp [servePayload]
  | cons chunk rest ih =>
      unfold servePayload
      split
      · rename_i halted
        simp only [List.flatten_cons, List.length_append, Bool.false_eq_true, false_iff,
          false_implies, and_true, not_and]
        omega
      · obtain ⟨exact_end, all⟩ := ih (streamed + chunk.length)
        simp only [List.flatten_cons, List.length_append, exact_end, Nat.add_assoc, true_and]
        rintro ended
        rw [all (exact_end.mpr (by simpa only [Nat.add_assoc] using ended))]

namespace ReadSide

variable {M : Machine Api} {side : ReadSide M} {ns : String} {all : List ServedEntry}

/-- The window of reads started ahead of the entry that is sent next. -/
structure Ahead (all : List ServedEntry) (next : Nat) (window : List Reading)
    (rest : List ServedEntry) (count : Nat) : Prop where
  started : count = next + window.length
  waiting : rest = all.drop count
  listed : ∀ (j : Nat) (reading : Reading), window[j]? = some reading →
    reading.id = next + j ∧ ∃ entry, all[next + j]? = some entry ∧ reading.header = entry.header

namespace Ahead

variable {next count : Nat} {window : List Reading} {rest : List ServedEntry}

theorem start (all : List ServedEntry) : Ahead all 0 [] all 0 :=
  ⟨rfl, rfl, fun j reading found => by cases found⟩

theorem more {entry : ServedEntry} (ahead : Ahead all next window (entry :: rest) count) :
    all[count]? = some entry ∧
      Ahead all next (window ++ [⟨entry.header, count⟩]) rest (count + 1) := by
  have listed : all[count]? = some entry := by
    have head := congrArg List.head? ahead.waiting
    rw [List.head?_drop] at head
    exact head.symm
  refine ⟨listed, ?_, ?_, ?_⟩
  · rw [List.length_append, ← Nat.add_assoc, ← ahead.started]
    rfl
  · rw [← List.drop_drop, ← ahead.waiting]
    rfl
  · intro j reading found
    rcases getElem?_snoc found with old | ⟨rfl, rfl⟩
    · exact ahead.listed j reading old
    · rw [← ahead.started]
      exact ⟨rfl, entry, listed, rfl⟩

theorem first {reading : Reading} {others : List Reading}
    (ahead : Ahead all next (reading :: others) rest count) :
    reading.id = next ∧ ∃ entry, all[next]? = some entry ∧ reading.header = entry.header ∧
      Ahead all (next + 1) others rest count := by
  obtain ⟨id, entry, listed, header⟩ := ahead.listed 0 reading rfl
  refine ⟨id, entry, listed, header, ?_, ahead.waiting, ?_⟩
  · rw [ahead.started, List.length_cons]
    omega
  · intro j other found
    obtain ⟨id, entry, listed, header⟩ := ahead.listed (j + 1) other found
    rw [Nat.add_assoc, Nat.add_comm 1 j]
    exact ⟨id, entry, listed, header⟩

end Ahead

section Run
variable {world : {world : World M // (side.solo ns all).Inv world}} {next : Nat}

theorem startReads_safe (room : Nat) (waiting : List ServedEntry) (window : List Reading)
    (ahead : Ahead all next window waiting world.1.tasks.length) :
    (side.solo ns all).Safe (startReads ns room waiting window) (fun result after =>
      Ahead all next result.2 result.1 after.1.tasks.length ∧
        (result.2 = [] → window = [] ∧ (room = 0 ∨ waiting = []))) world := by
  induction room generalizing world waiting window with
  | zero =>
      apply Solo.Safe.done
      intro after later
      rw [Solo.Meanwhile.length later]
      exact ⟨ahead, fun empty => ⟨empty, .inl rfl⟩⟩
  | succ room ih =>
      cases waiting with
      | nil =>
          apply Solo.Safe.done
          intro after later
          rw [Solo.Meanwhile.length later]
          exact ⟨ahead, fun empty => ⟨empty, .inr rfl⟩⟩
      | cons entry rest =>
          obtain ⟨listed, more⟩ := ahead.more
          apply Solo.Safe.spawn
          · intro before later
            exact ⟨entry, by rw [Solo.Meanwhile.length later]; exact listed, rfl⟩
          · intro before after later spawned
            have length := Solo.Meanwhile.length later
            have grown : after.1.tasks.length = world.1.tasks.length + 1 := by
              rw [spawned, World.spawned, List.length_append, length]
              rfl
            rw [length]
            apply Solo.Safe.mono (ih rest _ (by rw [grown]; exact more))
            rintro result last ⟨ahead, empty⟩
            refine ⟨ahead, fun none => ?_⟩
            have wrong := (empty none).1
            simp at wrong

/-- The stream carries the frames of the entries that are left, or breaks. -/
theorem streamPack_safe (left : Nat) (waiting : List ServedEntry) (window : List Reading)
    (sent : List Bytes) (ahead : Ahead all next window waiting world.1.tasks.length)
    (rest : next + left = all.length) :
    (side.solo ns all).Safe (streamPack ns left waiting window sent)
      (fun stream _ => side.Streamed (all.drop next) sent stream) world := by
  induction left generalizing world next waiting window sent with
  | zero =>
      apply Solo.Safe.done
      intro after later
      have none : all.drop next = [] := List.drop_eq_nil_of_le (by omega)
      rw [none]
      have complete : side.Streamed [] sent ⟨sent ++ [], false⟩ := .complete [] .nil
      rw [List.append_nil] at complete
      exact complete
  | succ left ih =>
      unfold streamPack
      apply Solo.Safe.bind (startReads_safe _ waiting window ahead)
      rintro ⟨waiting', window'⟩ started ⟨ahead', empty⟩
      cases window' with
      | nil =>
          obtain ⟨rfl, full | halted⟩ := empty rfl
          · cases full
          · have wrong := ahead.waiting
            rw [ahead.started, halted, List.length_nil, Nat.add_zero, eq_comm,
              List.drop_eq_nil_iff] at wrong
            omega
      | cons reading others =>
          obtain ⟨number, entry, listed, header, ahead''⟩ := ahead'.first
          have split : all.drop next = entry :: all.drop (next + 1) :=
            List.drop_eq_getElem?_toList_append.trans (by rw [listed]; rfl)
          rw [split]
          apply Solo.Safe.join
          · exact fun _ _ => trivial
          · intro before id task out later member present ended
            rw [List.mem_singleton.mp member, number] at present
            obtain ⟨found, finds, rfl⟩ := before.2.outcome present listed ended
            have length' := Solo.Meanwhile.length later
            have breaks : ∀ chunks, (¬ ∃ payload, Whole entry.digest found payload) →
                (side.solo ns all).Safe (.done ⟨chunks, true⟩) (fun stream _ =>
                  side.Streamed (entry :: all.drop (next + 1)) sent stream) before :=
              fun chunks partly => Solo.Safe.done fun _ _ =>
                .broken chunks entry List.mem_cons_self found finds partly
            cases read : openedOf entry.digest found with
            | none => exact breaks _ (openedOf_none read)
            | some blob =>
                obtain ⟨rfl, size⟩ := openedOf_some read
                simp only [header]
                cases served : servePayload blob.size.toNat blob.stream.broken
                  blob.stream.chunks 0 with
                | mk payload complete =>
                    obtain ⟨whole, all_sent⟩ := servePayload_complete blob.size.toNat
                      blob.stream.broken blob.stream.chunks 0
                    rw [served, Nat.zero_add] at whole
                    rw [served] at all_sent
                    cases complete with
                    | false =>
                        apply breaks
                        rintro ⟨chunks, ⟨other, same, _, stream⟩, length⟩
                        cases same
                        have ended := whole.mpr ⟨by rw [stream], by rw [stream, length, size]⟩
                        cases ended
                    | true =>
                        obtain ⟨unbroken, length⟩ := whole.mp rfl
                        have payload_eq : payload = blob.stream.chunks := all_sent rfl
                        subst payload_eq
                        have ends : Whole entry.digest (.ok (some blob)) blob.stream.chunks :=
                          ⟨⟨blob, rfl, size, by rw [← unbroken]⟩, length.trans (by rw [size])⟩
                        apply Solo.Safe.mono (ih waiting' others _ (by rw [length']; exact ahead'')
                          (by omega))
                        exact fun stream _ streamed => streamed.cons finds ends

end Run
end ReadSide
end MbxCache
