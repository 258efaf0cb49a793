import MbxCache.Server.PackStores
import MbxCache.Server.Uploads

namespace MbxCache

open Concurrent Pack

theorem countP_range {α : Type} (p : α → Bool) (items : List α) :
    items.countP p = (List.range items.length).countP fun i => items[i]?.any p := by
  induction items using List.reverseRecOn with
  | nil => rfl
  | append_singleton front last ih =>
      rw [List.countP_append, ih, List.length_append, List.length_singleton, List.range_succ,
        List.countP_append]
      congr 1
      · apply List.countP_congr
        intro i member
        rw [List.getElem?_append_left (List.mem_range.mp member)]
      · simp

def succeeded (task : Task Api) : Option PutOutcome :=
  match task.outcome with
  | some (some (.stored (.ok outcome))) => some outcome
  | _ => none

def outcomeAt (tasks : List (Task Api)) (id : Nat) : Option PutOutcome :=
  tasks[id]?.bind succeeded

structure Pending (stores : List Nat) (tasks : List (Task Api)) : Prop where
  nodup : stores.Nodup
  started : ∀ id ∈ stores, id < tasks.length
  ended : ∀ (id : Nat) (task : Task Api), tasks[id]? = some task → id ∉ stores →
    task.running = false

/-- The receipt counts the stores no longer waited for, all of which ended well. -/
def Counted (stores : List Nat) (receipt : BlobPackReceipt) (tasks : List (Task Api)) : Prop :=
  ∃ counted : List Nat, (counted ++ stores).Perm (List.range tasks.length) ∧
    (∀ id ∈ counted, (outcomeAt tasks id).isSome) ∧
    receipt.created = counted.countP (fun id => outcomeAt tasks id = some .created) ∧
    receipt.existing = counted.countP fun id => outcomeAt tasks id = some .alreadyExists

section Stores
variable {stores : List Nat} {receipt : BlobPackReceipt} {tasks next : List (Task Api)}

theorem succeeded_ended {task : Task Api} {outcome : PutOutcome}
    (well : succeeded task = some outcome) :
    task.outcome = some (some (.stored (.ok outcome))) := by
  unfold succeeded at well
  split at well
  · rename_i ended
    cases well
    exact ended
  · cases well

theorem outcomeAt_later (advanced : Solo.Advanced tasks next) {id : Nat}
    (well : (outcomeAt tasks id).isSome) : outcomeAt next id = outcomeAt tasks id := by
  obtain ⟨outcome, found⟩ := Option.isSome_iff_exists.mp well
  obtain ⟨task, present, ended⟩ := Option.bind_eq_some_iff.mp found
  obtain ⟨task', present', ended'⟩ :=
    advanced.ended id task _ present (succeeded_ended ended)
  rw [found, outcomeAt, present', Option.bind_some, succeeded, ended']

theorem Pending.later (pending : Pending stores tasks) (advanced : Solo.Advanced tasks next) :
    Pending stores next where
  nodup := pending.nodup
  started id member := by
    rw [advanced.length]
    exact pending.started id member
  ended id task present left := by
    have bound : id < tasks.length := by
      rw [← advanced.length]
      exact (List.getElem?_eq_some_iff.mp present).1
    have halted := pending.ended id tasks[id] (List.getElem?_eq_getElem bound) left
    cases ended : tasks[id].outcome with
    | none => simp [Task.running, ended] at halted
    | some out =>
        obtain ⟨task', present', ended'⟩ :=
          advanced.ended id _ out (List.getElem?_eq_getElem bound) ended
        cases present.symm.trans present'
        simp [Task.running, ended']

theorem Counted.later (counted : Counted stores receipt tasks)
    (advanced : Solo.Advanced tasks next) : Counted stores receipt next := by
  obtain ⟨ids, all, well, created, existing⟩ := counted
  have same : ∀ id ∈ ids, outcomeAt next id = outcomeAt tasks id :=
    fun id member => outcomeAt_later advanced (well id member)
  refine ⟨ids, by rw [advanced.length]; exact all, ?_, ?_, ?_⟩
  · intro id member
    rw [same id member]
    exact well id member
  · rw [created]
    apply List.countP_congr
    intro id member
    rw [same id member]
  · rw [existing]
    apply List.countP_congr
    intro id member
    rw [same id member]

theorem Counted.pending (counted : Counted stores receipt tasks) : Pending stores tasks := by
  obtain ⟨ids, all, well, _⟩ := counted
  have distinct := all.nodup_iff.mpr List.nodup_range
  refine ⟨(List.nodup_append.mp distinct).2.1, ?_, ?_⟩
  · intro id member
    exact List.mem_range.mp (all.subset (List.mem_append_right _ member))
  · intro id task present left
    have bound := (List.getElem?_eq_some_iff.mp present).1
    have among := all.symm.subset (List.mem_range.mpr bound)
    have halted := well id ((List.mem_append.mp among).resolve_right left)
    obtain ⟨outcome, found⟩ := Option.isSome_iff_exists.mp halted
    rw [outcomeAt, present, Option.bind_some] at found
    simp [Task.running, succeeded_ended found]

theorem Pending.taken (pending : Pending stores tasks) {id : Nat} {task : Task Api}
    {out : Option Out} (present : tasks[id]? = some task) (ended : task.outcome = some out) :
    Pending (stores.erase id) tasks where
  nodup := pending.nodup.erase id
  started other member := pending.started other (List.mem_of_mem_erase member)
  ended other held there left := by
    by_cases same : other = id
    · subst same
      cases present.symm.trans there
      simp [Task.running, ended]
    · exact pending.ended other held there fun member =>
        left ((List.mem_erase_of_ne same).mpr member)

theorem Pending.running (pending : Pending stores tasks) :
    tasks.countP Task.running ≤ stores.length := by
  rw [countP_range, List.countP_eq_length_filter]
  apply List.Subperm.length_le
  apply (List.nodup_range.filter _).subperm
  intro id member
  obtain ⟨bound, ran⟩ := List.mem_filter.mp member
  by_contra left
  have present := List.getElem?_eq_getElem (List.mem_range.mp bound)
  rw [present, Option.any_some, pending.ended id _ present left] at ran
  cases ran

theorem Counted.started (counted : Counted stores receipt tasks) (task : Task Api) :
    Counted (stores ++ [tasks.length]) receipt (tasks ++ [task]) := by
  obtain ⟨ids, all, well, created, existing⟩ := counted
  have same : ∀ id ∈ ids, outcomeAt (tasks ++ [task]) id = outcomeAt tasks id := by
    intro id member
    have bound := List.mem_range.mp (all.subset (List.mem_append_left _ member))
    rw [outcomeAt, List.getElem?_append_left bound]
    rfl
  refine ⟨ids, ?_, ?_, ?_, ?_⟩
  · rw [← List.append_assoc, List.length_append, List.length_singleton, List.range_succ]
    exact all.append_right _
  · intro id member
    rw [same id member]
    exact well id member
  · rw [created]
    apply List.countP_congr
    intro id member
    rw [same id member]
  · rw [existing]
    apply List.countP_congr
    intro id member
    rw [same id member]

theorem Counted.taken (counted : Counted stores receipt tasks) {id : Nat} {task : Task Api}
    {out : Option Out} {after : BlobPackReceipt} (member : id ∈ stores)
    (present : tasks[id]? = some task) (ended : task.outcome = some out)
    (counts : receipt.count out = .ok after) : Counted (stores.erase id) after tasks := by
  obtain ⟨ids, all, well, created, existing⟩ := counted
  have moved : ((id :: ids) ++ stores.erase id).Perm (List.range tasks.length) := by
    refine List.Perm.trans ?_ all
    rw [List.cons_append]
    exact (List.perm_middle.symm).trans ((List.perm_cons_erase member).symm.append_left ids)
  have outcome : outcomeAt tasks id = succeeded task := by
    rw [outcomeAt, present, Option.bind_some]
  unfold BlobPackReceipt.count at counts
  split at counts
  · cases counts
    have came : outcomeAt tasks id = some .created := by
      rw [outcome, succeeded, ended]
    refine ⟨id :: ids, moved, ?_, ?_, ?_⟩
    · intro other among
      rcases List.mem_cons.mp among with rfl | old
      · rw [came]
        rfl
      · exact well other old
    · simp [came, created]
    · simp [came, existing]
  · cases counts
    have came : outcomeAt tasks id = some .alreadyExists := by
      rw [outcome, succeeded, ended]
    refine ⟨id :: ids, moved, ?_, ?_, ?_⟩
    · intro other among
      rcases List.mem_cons.mp among with rfl | old
      · rw [came]
        rfl
      · exact well other old
    · simp [came, created]
    · simp [came, existing]
  · cases counts
  · cases counts

theorem Counted.all (counted : Counted [] receipt tasks) :
    (∀ task ∈ tasks, (succeeded task).isSome) ∧
      receipt.created = tasks.countP (fun task => succeeded task = some .created) ∧
      receipt.existing = tasks.countP fun task => succeeded task = some .alreadyExists := by
  obtain ⟨ids, all, well, created, existing⟩ := counted
  rw [List.append_nil] at all
  have spelled : ∀ outcome, (List.range tasks.length).countP
      (fun id => outcomeAt tasks id = some outcome) =
        tasks.countP fun task => succeeded task = some outcome := by
    intro outcome
    rw [countP_range _ tasks]
    apply List.countP_congr
    intro id member
    have present := List.getElem?_eq_getElem (List.mem_range.mp member)
    simp [outcomeAt, present]
  refine ⟨?_, ?_, ?_⟩
  · intro task member
    obtain ⟨id, present⟩ := List.mem_iff_getElem?.mp member
    have bound := (List.getElem?_eq_some_iff.mp present).1
    have halted := well id (all.symm.subset (List.mem_range.mpr bound))
    rwa [outcomeAt, present, Option.bind_some] at halted
  · rw [created, all.countP_eq, spelled]
  · rw [existing, all.countP_eq, spelled]

end Stores

section Loop
variable [Protocol] {M : Type} [MetadataStore M]

def Spools : Option PackFrame → Option Entry → Prop
  | none, none => True
  | some frame, some entry =>
      frame.digest = entry.digest ∧ frame.file = entry.payload ∧ frame.Tracks
  | _, _ => False

namespace PackRun

variable (run : PackRun M)

def Reservable (size : UInt64) : Prop :=
  run.config.spoolBudget = true → (size.toNat + 1023) / 1024 < 2 ^ 32

def Complete (entries : List Entry) : Prop :=
  run.body.failure = none ∧ (∃ last, Unpacks run.reader run.body.chunks entries last) ∧
    entries.length = run.blobs.toNat ∧ payloadTotal entries = run.bytes.toNat

inductive Fault (world : World (server M)) : Prop
  | refused (permits : Nat) (limited : run.config.spoolBudget = true)
      (asked : refusal permits ∈ world.asked)
  | oversize (sum : Assembled) (received : run.Receives sum) (frame : Entry)
      (member : frame ∈ sum.frames) (large : ¬ run.Reservable frame.digest.size)
  | mismatch (sum : Assembled) (received : run.Receives sum) (entry : Entry)
      (member : entry ∈ sum.entries) (differs : ¬ entry.digest.Names entry.payload)
  | store (task : Task Api) (member : task ∈ world.tasks) (ended : task.running = false)
      (failed : succeeded task = none)
  | incomplete (never : ∀ entries, ¬ run.Complete entries)

/-- How far the loop has come: the frames completed so far are stored, the open one is
spooled, and nothing was refused. -/
structure Progress (sum : Assembled) (up : Uploading) (world : World (server M)) : Prop where
  stored : storedFrames world.tasks = sum.entries
  frame : Spools up.frame sum.opened
  counted : Counted up.stores up.receipt world.tasks
  few : up.stores.length ≤ run.limit
  granted : ∀ permits, refusal permits ∉ world.asked
  reservable : ∀ frame ∈ sum.frames, run.Reservable frame.digest.size

/-- What a part of the loop brings about: its aim, or a reason to refuse. -/
def Brings {A : Type} (aim : A → Uploading → World (server M) → Prop)
    (result : Uploading × Except ApiError A)
    (world : {world : World (server M) // run.stores.Inv world}) : Prop :=
  match result with
  | (up, .ok value) => aim value up world.1
  | (up, .error _) => Pending up.stores world.1.tasks ∧ run.Fault world.1

def Yields {A : Type} (stores : List Nat) (aim : A → World (server M) → Prop)
    (result : Except ApiError A)
    (world : {world : World (server M) // run.stores.Inv world}) : Prop :=
  match result with
  | .ok value => aim value world.1
  | .error _ => Pending stores world.1.tasks ∧ run.Fault world.1

variable {run} {sum next : Assembled} {up : Uploading}
  {world after : {world : World (server M) // run.stores.Inv world}} {A B : Type}

theorem Fault.later {before after : World (server M)} (fault : run.Fault before)
    (asked : after.asked = before.asked) (advanced : Solo.Advanced before.tasks after.tasks) :
    run.Fault after := by
  cases fault with
  | refused permits limited made => exact .refused permits limited (by rw [asked]; exact made)
  | oversize sum received frame member large => exact .oversize sum received frame member large
  | mismatch sum received entry member differs =>
      exact .mismatch sum received entry member differs
  | store task member ended failed =>
      obtain ⟨id, present⟩ := List.mem_iff_getElem?.mp member
      cases halted : task.outcome with
      | none => simp [Task.running, halted] at ended
      | some out =>
          obtain ⟨task', present', over'⟩ := advanced.ended id task out present halted
          refine .store task' (List.mem_of_getElem? present') (by simp [Task.running, over']) ?_
          rw [succeeded, over']
          rwa [succeeded, halted] at failed
  | incomplete never => exact .incomplete never

theorem Progress.later {before after : World (server M)} (progress : run.Progress sum up before)
    (asked : after.asked = before.asked) (advanced : Solo.Advanced before.tasks after.tasks) :
    run.Progress sum up after where
  stored := by
    rw [storedFrames, advanced.jobs]
    exact progress.stored
  frame := progress.frame
  counted := progress.counted.later advanced
  few := progress.few
  granted permits := by
    rw [asked]
    exact progress.granted permits
  reservable := progress.reservable

theorem Progress.called {before : World (server M)} (progress : run.Progress sum up before)
    (choice : Choice) {op : Op}
    (unrefused : ∀ permits, (⟨op, (exec choice op before.state).2⟩ : Asked Api) ≠
      refusal permits) : run.Progress sum up (before.called choice op) := by
  obtain ⟨stored, frame, counted, few, granted, reservable⟩ := progress
  refine ⟨stored, frame, counted, few, ?_, reservable⟩
  intro permits member
  rcases List.mem_append.mp member with old | new
  · exact granted permits old
  · exact unrefused permits (List.mem_singleton.mp new).symm

theorem refuse_brings {aim : A → Uploading → World (server M) → Prop} {error : ApiError}
    (pending : Pending up.stores world.1.tasks) (fault : run.Fault world.1) :
    run.stores.Safe (up.refuse error : Reads A) (run.Brings aim) world := by
  apply Solo.Safe.done
  intro after later
  obtain ⟨asked, advanced⟩ := later.advanced
  exact ⟨pending.later advanced, fault.later asked advanced⟩

theorem done_brings (progress : run.Progress sum up world.1) :
    run.stores.Safe (.done (up, .ok ()) : Reads Unit)
      (run.Brings fun _ up world => run.Progress sum up world) world := by
  apply Solo.Safe.done
  intro after later
  obtain ⟨asked, advanced⟩ := later.advanced
  exact progress.later asked advanced

theorem proceed_brings {first : Reads A} {next : Uploading × Except ApiError A → Reads B}
    {middle : A → Uploading → World (server M) → Prop}
    {aim : B → Uploading → World (server M) → Prop}
    (started : run.stores.Safe first (run.Brings middle) world)
    (refuses : ∀ up error, next (up, .error error) = up.refuse error)
    (rest : ∀ value up after, middle value up after.1 →
      run.stores.Safe (next (up, .ok value)) (run.Brings aim) after) :
    run.stores.Safe (first.bind next) (run.Brings aim) world := by
  apply Solo.Safe.bind started
  rintro ⟨up, value | value⟩ after brought
  · rw [refuses]
    exact refuse_brings brought.1 brought.2
  · exact rest value up after brought

theorem handle_brings {handler : Handler A} {next : A → Reads B}
    {middle : A → World (server M) → Prop} {aim : B → Uploading → World (server M) → Prop}
    (started : run.stores.Safe handler (run.Yields up.stores middle) world)
    (rest : ∀ value after, middle value after.1 →
      run.stores.Safe (next value) (run.Brings aim) after) :
    run.stores.Safe (up.handle handler next) (run.Brings aim) world := by
  apply Solo.Safe.bind started
  rintro (error | value) after brought
  · exact refuse_brings brought.1 brought.2
  · exact rest value after brought

theorem localIo_brings (progress : run.Progress sum up world.1) :
    run.stores.Safe localIo (run.Yields up.stores fun _ after => run.Progress sum up after)
      world := by
  apply Solo.Safe.call
  · exact fun before _ => .inl rfl
  · intro before after choice later admitted called
    obtain ⟨asked, advanced⟩ := later.advanced
    have value : (exec choice .localIo before.1.state).2 = .ok () := by
      simp only [exec, Op.fallible, admitted.1]
      rfl
    change run.stores.Safe (Handler.internally (exec choice .localIo before.1.state).2) _ after
    rw [value]
    apply Solo.Safe.done
    intro last later'
    obtain ⟨asked', advanced'⟩ := later'.advanced
    have there : run.Progress sum up after.1 := by
      rw [called]
      exact (progress.later asked advanced).called choice fun permits same => by cases same
    exact there.later asked' advanced'

theorem reserve_brings (progress : run.Progress sum up world.1) {digest : Digest}
    (received : run.Receives next) {frame : Entry} (member : frame ∈ next.frames)
    (named : frame.digest = digest) :
    run.stores.Safe (reserve run.config digest.size) (run.Yields up.stores fun _ after =>
      run.Progress sum up after ∧ run.Reservable digest.size) world := by
  unfold reserve
  simp only
  split
  · rename_i unlimited
    apply Solo.Safe.done
    intro after later
    obtain ⟨asked, advanced⟩ := later.advanced
    refine ⟨progress.later asked advanced, fun limited => ?_⟩
    rw [limited] at unlimited
    cases unlimited
  · rename_i limited
    split
    · rename_i large
      apply Solo.Safe.done
      intro after later
      obtain ⟨_, advanced⟩ := later.advanced
      refine ⟨progress.counted.pending.later advanced, .oversize next received frame member ?_⟩
      intro reservable
      rw [named] at reservable
      have small := reservable (by simpa using limited)
      exact absurd large (Nat.not_le_of_lt small)
    · rename_i small
      apply Solo.Safe.call
      · exact fun before _ => .inr ⟨_, rfl⟩
      · intro before after choice later admitted called
        obtain ⟨asked, advanced⟩ := later.advanced
        have there := progress.later asked advanced
        cases refused : choice.refused with
        | true =>
            have value : (exec choice (.acquire ((digest.size.toNat + 1023) / 1024))
                before.1.state).2 = .ok false := by
              simp only [exec, Op.fallible, perform, refused]
              rfl
            rw [value]
            apply Solo.Safe.done
            intro last later'
            obtain ⟨asked', advanced'⟩ := later'.advanced
            have pending : Pending up.stores after.1.tasks := by
              rw [called]
              exact there.counted.pending
            refine ⟨pending.later advanced', .refused ((digest.size.toNat + 1023) / 1024)
              (by simpa using limited) ?_⟩
            rw [asked', called, World.called, value]
            exact List.mem_append_right _ (List.mem_singleton_self _)
        | false =>
            have value : (exec choice (.acquire ((digest.size.toNat + 1023) / 1024))
                before.1.state).2 = .ok true := by
              simp only [exec, Op.fallible, perform, refused]
              rfl
            rw [value]
            apply Solo.Safe.done
            intro last later'
            obtain ⟨asked', advanced'⟩ := later'.advanced
            have kept : run.Progress sum up after.1 := by
              rw [called]
              apply there.called choice
              intro permits same
              rw [value] at same
              cases same
            exact ⟨kept.later asked' advanced', fun _ => Nat.lt_of_not_le small⟩

theorem next_brings (progress : run.Progress sum up world.1) :
    run.stores.Safe up.next (run.Brings fun _ taken after => run.Progress sum taken after ∧
      taken.frame = up.frame ∧ taken.stores.length + 1 = up.stores.length) world := by
  unfold Uploading.next
  apply Solo.Safe.join
  · exact fun _ _ => trivial
  · intro before id task out later member present ended
    obtain ⟨asked, advanced⟩ := later.advanced
    have there := progress.later asked advanced
    have fewer : (up.stores.erase id).length + 1 = up.stores.length := by
      rw [List.length_erase_of_mem member]
      exact Nat.succ_pred_eq_of_pos (List.length_pos_of_mem member)
    simp only
    cases counts : up.receipt.count out with
    | error error =>
        refine refuse_brings (there.counted.pending.taken present ended) ?_
        refine .store task (List.mem_of_getElem? present) (by simp [Task.running, ended]) ?_
        rw [succeeded, ended]
        unfold BlobPackReceipt.count at counts
        split at counts
        · cases counts
        · cases counts
        · rfl
        · split
          · rename_i outcome same
            cases same
            cases outcome <;> simp_all
          · rfl
    | ok receipt =>
        apply Solo.Safe.done
        intro after later'
        obtain ⟨asked', advanced'⟩ := later'.advanced
        have kept : run.Progress sum ⟨up.frame, up.stores.erase id, receipt⟩ before.1 :=
          ⟨there.stored, there.frame, there.counted.taken member present ended counts,
            by simp only; have := there.few; omega, there.granted, there.reservable⟩
        exact ⟨kept.later asked' advanced', rfl, fewer⟩

theorem makeRoom_brings (progress : run.Progress sum up world.1) :
    run.stores.Safe (up.makeRoom run.config) (run.Brings fun _ taken after =>
      run.Progress sum taken after ∧ taken.frame = up.frame ∧
        taken.stores.length < run.limit) world := by
  unfold Uploading.makeRoom
  split
  · apply Solo.Safe.mono (next_brings progress)
    rintro ⟨taken, error | _⟩ after brought
    · exact brought
    · obtain ⟨kept, frame, fewer⟩ := brought
      refine ⟨kept, frame, ?_⟩
      have few := progress.few
      omega
  · rename_i room
    apply Solo.Safe.done
    intro after later
    obtain ⟨asked, advanced⟩ := later.advanced
    refine ⟨progress.later asked advanced, rfl, ?_⟩
    unfold limit
    rw [Bool.and_eq_true, not_and_or] at room
    rcases room with free | none
    · have free : up.stores.length < run.config.packStoreConcurrency := by simpa using free
      omega
    · have none : up.stores = [] := by simpa using none
      rw [none, List.length_nil]
      omega

theorem receives_valid {run : PackRun M} (received : run.Receives sum) :
    ∀ frame ∈ sum.frames, frame.digest.validate = true := by
  obtain ⟨reader, taken, _, reached⟩ := Received.reached received
  exact fun frame member => (reached.digests frame member).1

theorem write_brings (progress : run.Progress sum up world.1) {frame : PackFrame}
    {entry : Entry} (spooled : frame.digest = entry.digest ∧ frame.file = entry.payload ∧
      frame.Tracks) (valid : entry.digest.validate = true) (payload : Bytes) :
    run.stores.Safe (frame.write payload) (run.Yields up.stores fun written after =>
      run.Progress sum up after ∧ written.digest = entry.digest ∧
        written.file = entry.payload ++ payload ∧ written.Tracks) world := by
  obtain ⟨digest, file, tracks⟩ := spooled
  obtain ⟨⟨algorithm, kind⟩, _⟩ := (validate_iff entry.digest).mp valid
  have found : algorithmOf frame.digest = .ok algorithm := by
    rw [algorithmOf, digest, kind]
  have writes : frame.write payload = (do
      localIo
      return { frame with
        size := frame.size + payload.length
        hashing := frame.hashing.update algorithm payload
        file := frame.file ++ payload } : Handler PackFrame) := by
    rw [PackFrame.write, found]
    rfl
  rw [writes]
  apply Solo.Safe.bind (localIo_brings progress)
  rintro (error | _) after brought
  · apply Solo.Safe.done
    intro last later
    obtain ⟨asked, advanced⟩ := later.advanced
    exact ⟨brought.1.later advanced, brought.2.later asked advanced⟩
  · apply Solo.Safe.done
    intro last later
    obtain ⟨asked, advanced⟩ := later.advanced
    exact ⟨brought.later asked advanced, digest, by rw [file], tracks.write found payload⟩

theorem verify_brings (progress : run.Progress sum up world.1) {frame : PackFrame}
    (received : run.Receives next) {entry : Entry} (member : entry ∈ next.entries)
    (spooled : frame.digest = entry.digest ∧ frame.file = entry.payload ∧ frame.Tracks) :
    run.stores.Safe frame.verify (run.Yields up.stores fun _ after =>
      run.Progress sum up after ∧ entry.digest.Names entry.payload) world := by
  obtain ⟨digest, file, tracks⟩ := spooled
  apply Solo.Safe.bind (localIo_brings progress)
  rintro (error | _) after brought
  · apply Solo.Safe.done
    intro last later
    obtain ⟨asked, advanced⟩ := later.advanced
    exact ⟨brought.1.later advanced, brought.2.later asked advanced⟩
  · apply Solo.Safe.done
    intro last later
    obtain ⟨asked, advanced⟩ := later.advanced
    have there := Progress.later brought asked advanced
    cases checked : frame.check with
    | error error =>
        refine ⟨there.counted.pending, .mismatch next received entry member ?_⟩
        intro names
        rw [← digest, ← file] at names
        rw [PackFrame.names_check tracks names] at checked
        cases checked
    | ok _ =>
        refine ⟨there, ?_⟩
        have names := PackFrame.check_names tracks checked
        rwa [digest, file] at names

theorem spawn_brings {entries : List Entry}
    (progress : run.Progress ⟨entries, none⟩ up world.1) (vacant : up.frame = none)
    (room : up.stores.length < run.limit) (received : run.Receives next) {entry : Entry}
    (initial : entries ++ [entry] <+: next.entries) (names : entry.digest.Names entry.payload)
    (reservable : run.Reservable entry.digest.size) {frame : PackFrame}
    (spooled : frame.digest = entry.digest ∧ frame.file = entry.payload ∧ frame.Tracks) :
    run.stores.Safe (.spawn (.store run.ns frame.digest frame.file) fun id =>
        .done ({ up with stores := up.stores ++ [id] }, .ok ()) : Reads Unit)
      (run.Brings fun _ up after => run.Progress ⟨entries ++ [entry], none⟩ up after) world := by
  obtain ⟨digest, file, _⟩ := spooled
  rw [digest, file]
  apply Solo.Safe.spawn
  · intro before later
    obtain ⟨asked, advanced⟩ := later.advanced
    have there := progress.later asked advanced
    refine ⟨lt_of_le_of_lt there.counted.pending.running room, entry, rfl, ?_⟩
    rw [there.stored]
    refine ⟨⟨next, received, initial⟩, ?_⟩
    intro other member
    rcases List.mem_append.mp member with old | new
    · refine before.2.verified.2 other ?_
      rw [there.stored]
      exact old
    · rw [List.mem_singleton.mp new]
      exact names
  · intro before after later spawned
    obtain ⟨asked, advanced⟩ := later.advanced
    have there := progress.later asked advanced
    apply done_brings
    rw [spawned]
    refine ⟨?_, ?_, there.counted.started _, ?_, there.granted, ?_⟩
    · exact (storedFrames_append _ _ _ _).trans (congrArg (· ++ [entry]) there.stored)
    · simp only [vacant]
      trivial
    · rw [List.length_append, List.length_singleton]
      exact Nat.succ_le_of_lt room
    · intro frame member
      simp only [Assembled.frames, Option.toList_none, List.append_nil] at member
      rcases List.mem_append.mp member with old | new
      · exact there.reservable frame (List.mem_append_left _ old)
      · rw [List.mem_singleton.mp new]
        exact reservable

theorem reservable_opened {entries : List Entry} {entry : Entry}
    (completed : ∀ frame ∈ entries, run.Reservable frame.digest.size)
    (opened : run.Reservable entry.digest.size) :
    ∀ frame ∈ (⟨entries, some entry⟩ : Assembled).frames, run.Reservable frame.digest.size := by
  intro frame member
  rcases List.mem_append.mp member with old | new
  · exact completed frame old
  · rw [List.mem_singleton.mp new]
    exact opened

theorem new_brings (progress : run.Progress sum up world.1) (digest : Digest) :
    run.stores.Safe (PackFrame.new digest) (run.Yields up.stores fun frame after =>
      run.Progress sum up after ∧ frame = ⟨digest, [], 0, Hashing.new⟩) world := by
  apply Solo.Safe.bind (localIo_brings progress)
  rintro (error | _) after brought
  · apply Solo.Safe.done
    intro last later
    obtain ⟨asked, advanced⟩ := later.advanced
    exact ⟨brought.1.later advanced, brought.2.later asked advanced⟩
  · apply Solo.Safe.done
    intro last later
    obtain ⟨asked, advanced⟩ := later.advanced
    exact ⟨Progress.later brought asked advanced, rfl⟩

theorem started_brings {last : Assembled} {digest : Digest} {more : List PackEvent}
    (progress : run.Progress sum up world.1)
    (reaches : Assembled.addAll { sum with opened := some ⟨digest, []⟩ } more = some last)
    (received : run.Receives last) :
    run.stores.Safe (up.event run.config run.ns (.started digest)) (run.Brings fun _ up after =>
      run.Progress { sum with opened := some ⟨digest, []⟩ } up after) world := by
  obtain ⟨begun, member, named⟩ := Assembled.addAll_opened reaches rfl
  apply handle_brings (reserve_brings progress received member named)
  rintro _ after ⟨there, reservable⟩
  apply handle_brings (new_brings there digest)
  rintro _ after ⟨there, rfl⟩
  apply done_brings
  exact ⟨there.stored, ⟨rfl, rfl, Spooled.start digest⟩, there.counted, there.few,
    there.granted, reservable_opened
      (fun frame old => there.reservable frame (List.mem_append_left _ old)) reservable⟩

theorem payload_brings {last : Assembled} {entry : Entry} {bytes : Bytes} {more : List PackEvent}
    (progress : run.Progress sum up world.1) (current : sum.opened = some entry)
    (reaches : Assembled.addAll
      { sum with opened := some { entry with payload := entry.payload ++ bytes } } more = some last)
    (received : run.Receives last) :
    run.stores.Safe (up.event run.config run.ns (.payload bytes)) (run.Brings fun _ up after =>
      run.Progress { sum with opened := some { entry with payload := entry.payload ++ bytes } }
        up after) world := by
  have frame := progress.frame
  rw [current] at frame
  cases held : up.frame with
  | none =>
      rw [held] at frame
      exact frame.elim
  | some spool =>
      rw [held] at frame
      obtain ⟨begun, member, named⟩ := Assembled.addAll_opened reaches rfl
      have valid := receives_valid received begun member
      rw [named] at valid
      simp only [Uploading.event, held]
      apply handle_brings (write_brings progress frame valid bytes)
      rintro written after ⟨there, spooled⟩
      apply done_brings
      refine ⟨there.stored, spooled, there.counted, there.few, there.granted,
        reservable_opened (fun frame old => there.reservable frame (List.mem_append_left _ old)) ?_⟩
      refine there.reservable entry (List.mem_append_right _ ?_)
      rw [current]
      exact List.mem_singleton_self _

theorem complete_brings {last : Assembled} {entry : Entry} {more : List PackEvent}
    (progress : run.Progress sum up world.1) (current : sum.opened = some entry)
    (reaches : Assembled.addAll ⟨sum.entries ++ [entry], none⟩ more = some last)
    (received : run.Receives last) :
    run.stores.Safe (up.event run.config run.ns .complete) (run.Brings fun _ up after =>
      run.Progress ⟨sum.entries ++ [entry], none⟩ up after) world := by
  have frame := progress.frame
  rw [current] at frame
  cases held : up.frame with
  | none =>
      rw [held] at frame
      exact frame.elim
  | some spool =>
      rw [held] at frame
      have kept := (Assembled.addAll_keeps reaches).1
      have member : entry ∈ last.entries :=
        kept.subset (List.mem_append_right _ (List.mem_singleton_self _))
      have closed : run.Progress ⟨sum.entries, none⟩ { up with frame := none } world.1 :=
        ⟨progress.stored, trivial, progress.counted, progress.few, progress.granted,
          fun frame listed => progress.reservable frame
            (List.mem_append_left _ (by simpa [Assembled.frames] using listed))⟩
      have reservable : run.Reservable entry.digest.size :=
        progress.reservable entry (List.mem_append_right _ (by
          rw [current]
          exact List.mem_singleton_self _))
      simp only [Uploading.event, held]
      apply handle_brings (verify_brings closed received member frame)
      rintro _ after ⟨there, names⟩
      refine proceed_brings (makeRoom_brings there) (fun _ _ => rfl) ?_
      rintro _ taken after ⟨there, vacant, room⟩
      exact spawn_brings there vacant room received kept names reservable frame

/-- One event of the reader. -/
theorem event_brings {last : Assembled} {event : PackEvent} {more : List PackEvent}
    (progress : run.Progress sum up world.1) (added : sum.add event = some next)
    (reaches : next.addAll more = some last) (received : run.Receives last) :
    run.stores.Safe (up.event run.config run.ns event)
      (run.Brings fun _ up after => run.Progress next up after) world := by
  cases event with
  | started digest =>
      simp only [Assembled.add] at added
      split at added
      · cases added
        exact started_brings progress reaches received
      · cases added
  | payload bytes =>
      simp only [Assembled.add] at added
      split at added
      · cases added
      · rename_i entry current
        cases added
        exact payload_brings progress current reaches received
  | complete =>
      simp only [Assembled.add] at added
      split at added
      · cases added
      · rename_i entry current
        split at added
        · cases added
          exact complete_brings progress current reaches received
        · cases added

theorem events_brings {last : Assembled} (events : List PackEvent)
    (progress : run.Progress sum up world.1) (added : sum.addAll events = some last)
    (received : run.Receives last) :
    run.stores.Safe (up.events run.config run.ns events)
      (run.Brings fun _ up after => run.Progress last up after) world := by
  induction events generalizing sum up world with
  | nil =>
      cases added
      exact done_brings progress
  | cons event rest ih =>
      obtain ⟨next, one, others⟩ := Option.bind_eq_some_iff.mp added
      refine proceed_brings (event_brings progress one others received) (fun _ _ => rfl) ?_
      rintro _ up after there
      exact ih there others

theorem chunks_brings {reader : PackReader} {taken rest : List Bytes} {events : List PackEvent}
    (progress : run.Progress sum up world.1)
    (fed : Incremental.feed PackReader.push run.reader taken = .ok (reader, events))
    (added : Assembled.start.addAll events = some sum) (split : taken ++ rest = run.body.chunks) :
    run.stores.Safe (up.chunks run.config run.ns reader rest) (run.Brings fun last up after =>
      ∃ sum events, run.Progress sum up after ∧
        Incremental.feed PackReader.push run.reader run.body.chunks = .ok (last, events) ∧
        Assembled.start.addAll events = some sum) world := by
  induction rest generalizing sum up world reader taken events with
  | nil =>
      rw [List.append_nil] at split
      apply Solo.Safe.done
      intro after later
      obtain ⟨asked, advanced⟩ := later.advanced
      exact ⟨sum, events, progress.later asked advanced, by rw [← split]; exact fed, added⟩
  | cons chunk rest ih =>
      unfold Uploading.chunks
      cases pushed : reader.push chunk with
      | error error =>
          apply refuse_brings progress.counted.pending
          refine .incomplete fun entries complete => ?_
          obtain ⟨_, ⟨last, all, fed', _⟩, _⟩ := complete
          rw [← split, Incremental.feed_append, fed] at fed'
          simp [Incremental.andThen, Incremental.feed, pushed] at fed'
      | ok pair =>
          obtain ⟨next, emitted⟩ := pair
          obtain ⟨held, known, reached⟩ := (Reached.new _ _ _).feed fed
          cases added.symm.trans known
          obtain ⟨last, added', _⟩ := reached.push pushed
          have fed' : Incremental.feed PackReader.push run.reader (taken ++ [chunk]) =
              .ok (next, events ++ emitted) := by
            rw [Incremental.feed_append, fed]
            simp [Incremental.andThen, Incremental.feed, pushed]
          have all : Assembled.start.addAll (events ++ emitted) = some last := by
            rw [Assembled.addAll_append, added]
            exact added'
          have split' : taken ++ [chunk] ++ rest = run.body.chunks := by
            rw [List.append_assoc]
            exact split
          have received : run.Receives last :=
            ⟨taken ++ [chunk], next, _, ⟨rest, split'⟩, fed', all⟩
          refine proceed_brings (events_brings emitted progress added' received)
            (fun _ _ => rfl) ?_
          rintro _ up after there
          exact ih there fed' all split'

theorem collect_brings (left : Nat) (progress : run.Progress sum up world.1)
    (count : up.stores.length = left) :
    run.stores.Safe (up.collect left) (run.Brings fun _ up after =>
      run.Progress sum up after ∧ up.stores = []) world := by
  induction left generalizing up world with
  | zero =>
      apply Solo.Safe.done
      intro after later
      obtain ⟨asked, advanced⟩ := later.advanced
      exact ⟨progress.later asked advanced, List.length_eq_zero_iff.mp count⟩
  | succ left ih =>
      refine proceed_brings (next_brings progress) (fun _ _ => rfl) ?_
      rintro _ up after ⟨there, _, fewer⟩
      exact ih there (by omega)

theorem drain_ends (stores : List Nat) (left : Nat) (pending : Pending stores world.1.tasks)
    (fault : run.Fault world.1) (count : stores.length = left) :
    run.stores.Safe (Uploading.drain stores left) (fun _ after =>
      (∀ task ∈ after.1.tasks, task.running = false) ∧ run.Fault after.1) world := by
  induction left generalizing stores world with
  | zero =>
      apply Solo.Safe.done
      intro after later
      obtain ⟨asked, advanced⟩ := later.advanced
      refine ⟨?_, fault.later asked advanced⟩
      intro task member
      obtain ⟨id, present⟩ := List.mem_iff_getElem?.mp member
      rw [List.length_eq_zero_iff.mp count] at pending
      exact (pending.later advanced).ended id task present List.not_mem_nil
  | succ left ih =>
      apply Solo.Safe.join
      · exact fun _ _ => trivial
      · intro before id task out later member present ended
        obtain ⟨asked, advanced⟩ := later.advanced
        apply ih _ ((pending.later advanced).taken present ended) (fault.later asked advanced)
        rw [List.length_erase_of_mem member, count]
        rfl

/-- The whole loop, and the stores it leaves. -/
theorem read_brings (progress : run.Progress .start up world.1) :
    run.stores.Safe (Uploading.read run.config run.ns up run.reader run.body)
      (run.Brings fun last up after => ∃ sum events, run.Progress sum up after ∧
        up.stores = [] ∧ run.body.failure = none ∧
        Incremental.feed PackReader.push run.reader run.body.chunks = .ok (last, events) ∧
        Assembled.start.addAll events = some sum) world := by
  have fed : Incremental.feed PackReader.push run.reader [] = .ok (run.reader, []) := rfl
  refine proceed_brings (chunks_brings progress fed rfl (List.nil_append _)) (fun _ _ => rfl) ?_
  rintro last up after ⟨sum, events, there, fed, added⟩
  cases failure : run.body.failure with
  | some error =>
      simp only [transport, failure]
      refine refuse_brings there.counted.pending (.incomplete fun entries complete => ?_)
      rw [complete.1] at failure
      cases failure
  | none =>
      simp only [transport, failure]
      refine proceed_brings (collect_brings _ there rfl) (fun _ _ => rfl) ?_
      rintro _ up after ⟨there, idle⟩
      apply Solo.Safe.done
      intro last' later
      obtain ⟨asked, advanced⟩ := later.advanced
      exact ⟨sum, events, there.later asked advanced, idle, trivial, fed, added⟩

omit [Protocol] [MetadataStore M] in
theorem checkPack_iff (reader : PackReader) (blobs bytes : UInt64) :
    checkPack reader blobs bytes = .ok () ↔ reader.finish = .ok () ∧
      reader.blobs = blobs.toNat ∧ reader.payloadBytes = bytes.toNat := by
  unfold checkPack
  cases reader.finish with
  | error error => simp
  | ok _ =>
      simp only [true_and]
      split
      · rename_i differs
        simp only [reduceCtorEq, false_iff, not_and]
        simpa [Bool.or_eq_true, or_iff_not_imp_left] using differs
      · rename_i agrees
        simpa [Bool.or_eq_true, not_or] using agrees

structure Uploaded (run : PackRun M) (response : Response) (world : World (server M)) : Prop where
  complete : run.Complete (storedFrames world.tasks)
  granted : ∀ permits, refusal permits ∉ world.asked
  reservable : ∀ entry ∈ storedFrames world.tasks, run.Reservable entry.digest.size
  succeeded : ∀ task ∈ world.tasks, (succeeded task).isSome
  answer : response.status = .ok ∧ response.content = .receipt
    (world.tasks.countP fun task => MbxCache.succeeded task = some .created)
    (world.tasks.countP fun task => MbxCache.succeeded task = some .alreadyExists)

def Ends (run : PackRun M) (result : Except ApiError Response)
    (world : {world : World (server M) // run.stores.Inv world}) : Prop :=
  (∀ task ∈ world.1.tasks, task.running = false) ∧
    match result with
    | .ok response => run.Uploaded response world.1
    | .error _ => run.Fault world.1

theorem uploadPack_ends (idle : world.1.tasks = [] ∧ world.1.asked = []) :
    run.stores.Safe (uploadPack run.config run.ns run.blobs run.bytes run.body) run.Ends
      world := by
  have progress : run.Progress .start ⟨none, [], ⟨0, 0⟩⟩ world.1 := by
    refine ⟨?_, trivial, ⟨[], ?_, nofun, rfl, rfl⟩, Nat.zero_le _, ?_, nofun⟩
    · rw [idle.1]
      rfl
    · rw [idle.1]
      exact .refl _
    · intro permits member
      rw [idle.2] at member
      cases member
  apply Solo.Safe.bind (read_brings progress)
  rintro ⟨up, error | last⟩ after brought
  · apply Solo.Safe.bind (drain_ends up.stores _ brought.1 brought.2 rfl)
    rintro _ after ended
    apply Solo.Safe.done
    intro last later
    obtain ⟨asked, advanced⟩ := later.advanced
    refine ⟨?_, ended.2.later asked advanced⟩
    have pending : Pending [] after.1.tasks :=
      ⟨.nil, nofun, fun id task present _ => ended.1 task (List.mem_of_getElem? present)⟩
    intro task member
    obtain ⟨id, present⟩ := List.mem_iff_getElem?.mp member
    exact (pending.later advanced).ended id task present List.not_mem_nil
  · obtain ⟨sum, events, there, idle, failure, fed, added⟩ := brought
    have counted := there.counted
    rw [idle] at counted
    have ended : ∀ world : {world : World (server M) // run.stores.Inv world},
        run.stores.Meanwhile after.1 world.1 → ∀ task ∈ world.1.tasks, task.running = false := by
      intro world later task member
      obtain ⟨id, present⟩ := List.mem_iff_getElem?.mp member
      exact (counted.pending.later later.advanced.2).ended id task present List.not_mem_nil
    have refuses : ∀ error : ApiError, (∀ entries, ¬ run.Complete entries) →
        run.stores.Safe (.done (.error error) : Handler Response) run.Ends after :=
      fun error never => Solo.Safe.done fun world later => ⟨ended world later, .incomplete never⟩
    have same : ∀ {entries last'}, Unpacks run.reader run.body.chunks entries last' →
        last' = last ∧ sum = ⟨entries, none⟩ := by
      rintro entries last' ⟨events', fed', added', _⟩
      cases fed.symm.trans fed'
      cases added.symm.trans added'
      exact ⟨rfl, rfl⟩
    have checks := checkPack_iff last run.blobs run.bytes
    cases checked : checkPack last run.blobs run.bytes with
    | error error =>
        simp only [checked, reduceCtorEq, false_iff] at checks ⊢
        apply refuses
        rintro entries ⟨_, ⟨last', whole⟩, count, total⟩
        obtain ⟨rfl, _⟩ := same whole
        obtain ⟨blobs, payloadBytes⟩ := Unpacks.counters whole
        exact checks ⟨whole.choose_spec.2.2, blobs.trans count, payloadBytes.trans total⟩
    | ok _ =>
        obtain ⟨finished, count, total⟩ := checks.mp checked
        obtain ⟨held, known, reached⟩ := (Reached.new _ _ _).feed fed
        cases added.symm.trans known
        have whole : Unpacks run.reader run.body.chunks sum.entries last := by
          refine ⟨events, fed, ?_, finished⟩
          rw [added]
          exact congrArg some (reached.boundary finished).1
        obtain ⟨blobs, payloadBytes⟩ := Unpacks.counters whole
        simp only [checked]
        apply Solo.Safe.done
        intro world later
        obtain ⟨asked, advanced⟩ := later.advanced
        have final := there.later asked advanced
        obtain ⟨well, created, existing⟩ := (counted.later advanced).all
        refine ⟨ended world later, ?_, final.granted, ?_, well, rfl, ?_⟩
        · rw [final.stored]
          exact ⟨failure, ⟨last, whole⟩, blobs.symm.trans count, payloadBytes.symm.trans total⟩
        · rw [final.stored]
          exact fun entry member => final.reservable entry (List.mem_append_left _ member)
        · rw [created, existing]

end PackRun
end Loop
end MbxCache
