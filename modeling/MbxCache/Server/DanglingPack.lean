import MbxCache.Server.Dangling
import MbxCache.Server.ReadPaths

namespace MbxCache

open Concurrent ServerState

variable [Protocol] {M : Type} [MetadataStore M]

/-- A server whose objects are what their digests name, and which has finitely many rows. The
objects of some rows may be missing. -/
structure Lossy (M : Type) [MetadataStore M] where
  state : ServerState M
  valid : MetadataStore.valid state.metadata
  named : ∀ digest bytes, state.blobs digest = some bytes → digest.Names bytes
  finite : ∀ ns, {digest | state.Sees ns digest}.Finite

def Lossy.Dropped (lossy : Lossy M) (ns : String) (wanted : Digest → Prop) (now : ServerState M) :
    Prop :=
  ∃ digest, wanted digest ∧ lossy.state.blobs digest = none ∧ ¬ now.Sees ns digest

/-- How far the read of an entry has come, seen from the state before the request and the
present one. -/
inductive Mending (before now : ServerState M) (ns : String) (digest : Digest) :
    Program Api Out → Prop
  | start : Mending before now ns digest (openEntry ns digest)
  | absent (absent : before.blobs digest = none) :
      Mending before now ns digest (.call (.forgetBlob ns digest) fun _ => .done (.opened none))
  | gone (absent : before.blobs digest = none) (dropped : ¬ now.Sees ns digest) :
      Mending before now ns digest (.done (.opened none))
  | whole (blob : Blob) (unbroken : blob.stream.broken = false)
      (length : blob.stream.chunks.flatten.length = blob.size.toNat) :
      Mending before now ns digest (.done (.opened (some blob)))

structure Opens (before : ServerState M) (ns : String) (wanted : Digest → Prop)
    (world : World (server M)) : Prop where
  fresh : world.tasks = [] → world.state = before
  forgets : before.Forgets ns world.state
  tasks : ∀ (id : Nat) (task : Task Api), world.tasks[id]? = some task →
    task.aborted = false ∧ ∃ digest, wanted digest ∧
      Mending before world.state ns digest task.rest

section Steps
variable {before now after : ServerState M} {ns : String} {digest : Digest} {rest : Program Api Out}

theorem Mending.later (mending : Mending before now ns digest rest)
    (fewer : ∀ digest, after.Sees ns digest → now.Sees ns digest) :
    Mending before after ns digest rest := by
  cases mending with
  | start => exact .start
  | absent absent => exact .absent absent
  | gone absent dropped => exact .gone absent fun seen => dropped (fewer digest seen)
  | whole blob unbroken length => exact .whole blob unbroken length

theorem exec_get {choice : Choice} (clean : choice.Clean) (digest : Digest) (now : ServerState M) :
    exec choice (.get digest) now = (now, .ok ((now.blobs digest).map fun bytes =>
      ⟨UInt64.ofNat bytes.length, ByteStream.opened bytes choice.cuts false⟩)) := by
  rw [exec_clean clean, ← clean.2.1]
  rfl

theorem exec_forget {choice : Choice} (clean : choice.Clean) (forgets : before.Forgets ns now)
    (absent : before.blobs digest = none) :
    let after := (exec choice (.forgetBlob ns digest) now).1
    before.Forgets ns after ∧ (∀ other, after.Sees ns other → now.Sees ns other) ∧
      ¬ after.Sees ns digest := by
  obtain ⟨metadata, executed, valid, view⟩ := exec_forgetBlob clean forgets.valid ns digest
  rw [executed]
  have here : now.blobs digest = none := by rw [forgets.blobs, absent]
  have dropped : before.Forgets ns ⟨now.blobs, metadata⟩ ∧ _ := forgets.forget absent rfl valid view
  have least : now.Forgets ns ⟨now.blobs, metadata⟩ ∧ _ :=
    (Forgets.refl forgets.valid).forget here rfl valid view
  exact ⟨dropped.1, least.1.fewer ns, dropped.2⟩

theorem Mending.step (named : ∀ bytes, before.blobs digest = some bytes → digest.Names bytes)
    (forgets : before.Forgets ns now) {task : Task Api} {choice : Choice} (clean : choice.Clean)
    (mending : Mending before now ns digest task.rest) :
    let next := (server M).stepTask choice now task
    before.Forgets ns next.1 ∧ (∀ other, next.1.Sees ns other → now.Sees ns other) ∧
      next.2.aborted = task.aborted ∧ Mending before next.1 ns digest next.2.rest := by
  unfold Machine.stepTask
  split
  · exact ⟨forgets, fun _ seen => seen, rfl, mending⟩
  · generalize rest : task.rest = program at mending
    cases mending with
    | start =>
        rw [openEntry_eq]
        simp only [exec_get clean digest now, forgets.blobs]
        refine ⟨forgets, fun _ seen => seen, trivial, ?_⟩
        cases stored : before.blobs digest with
        | none => exact .absent stored
        | some bytes =>
            have length := (named bytes stored).1
            have size : UInt64.ofNat bytes.length = digest.size := by
              rw [length, UInt64.ofNat_toNat]
            simp only [Option.map_some, openFound]
            rw [if_neg (not_not.mpr size)]
            refine .whole _ rfl ?_
            rw [size, ← length]
            exact congrArg List.length (ByteStream.split_flatten choice.cuts bytes)
    | absent absent =>
        obtain ⟨forgets', fewer, gone⟩ := exec_forget clean forgets absent
        exact ⟨forgets', fewer, rfl, .gone absent gone⟩
    | gone absent dropped =>
        exact ⟨forgets, fun _ seen => seen, rfl, by rw [rest]; exact .gone absent dropped⟩
    | whole blob unbroken length =>
        exact ⟨forgets, fun _ seen => seen, rfl, by rw [rest]; exact .whole blob unbroken length⟩

end Steps

def mendingPack (lossy : Lossy M) (ns : String) (wanted : Digest → Prop) : Solo (server M) where
  regime := undisturbed M
  Inv := Opens lossy.state ns wanted
  Calls op world := world.tasks = [] ∧ ∃ digests, op = .visibleBlobs ns digests
  Spawns job _ := ∃ digest, wanted digest ∧ job = .read ns digest
  Joins _ _ := True
  aside := by
    rintro world next opens (⟨id, task, choice, present, clean⟩ | ⟨_, _, _, _, never⟩)
    · obtain ⟨live, digest, wants, mending⟩ := opens.tasks id task present
      obtain ⟨forgets, fewer, kept, mending'⟩ :=
        mending.step (lossy.named digest) opens.forgets clean
      refine ⟨?_, forgets, ?_⟩
      · intro empty
        rw [List.set_eq_nil_iff] at empty
        rw [empty] at present
        cases present
      · intro other task' found
        by_cases same : other = id
        · subst same
          rw [List.getElem?_set_self (List.getElem?_eq_some_iff.mp present).1] at found
          cases found
          exact ⟨kept.trans live, digest, wants, mending'⟩
        · rw [List.getElem?_set_ne (Ne.symm same)] at found
          obtain ⟨live', digest', wants', mending''⟩ := opens.tasks other task' found
          exact ⟨live', digest', wants', mending''.later fewer⟩
    · exact never.elim
  call := by
    rintro world op choice opens ⟨empty, digests, rfl⟩ clean
    have start := opens.fresh empty
    have looked := (quiet ⟨lossy.state, lossy.valid⟩).look ns digests clean
    have same : (world.called choice (.visibleBlobs ns digests)).state = world.state := by
      rw [start]
      exact (congrArg (fun state => (exec choice (.visibleBlobs ns digests) state).1) start).trans
        looked
    exact ⟨fun _ => same.trans start, same ▸ opens.forgets, same ▸ opens.tasks⟩
  spawn := by
    rintro world job opens ⟨digest, wants, rfl⟩
    refine ⟨fun empty => by simp [World.spawned] at empty, opens.forgets, ?_⟩
    intro id task found
    rcases getElem?_snoc found with old | ⟨-, rfl⟩
    · exact opens.tasks id task old
    · exact ⟨rfl, digest, wants, .start⟩

theorem Lossy.Dropped.later {lossy : Lossy M} {ns : String} {wanted : Digest → Prop}
    {world next : {world : World (server M) // (mendingPack lossy ns wanted).Inv world}}
    (dropped : lossy.Dropped ns wanted world.1.state)
    (later : (mendingPack lossy ns wanted).Meanwhile world.1 next.1) :
    lossy.Dropped ns wanted next.1.state := by
  have fewer : ∀ last, (mendingPack lossy ns wanted).Meanwhile world.1 last →
      Opens lossy.state ns wanted last ∧
        ∀ digest, last.state.Sees ns digest → world.1.state.Sees ns digest := by
    intro last more
    induction more with
    | refl => exact ⟨world.2, fun _ seen => seen⟩
    | tail _ step ih =>
        obtain ⟨opens, fewer⟩ := ih
        refine ⟨(mendingPack lossy ns wanted).aside opens step, ?_⟩
        rcases step with ⟨id, task, choice, present, clean⟩ | ⟨_, _, _, _, never⟩
        · obtain ⟨_, digest, _, mending⟩ := opens.tasks id task present
          have stepped := mending.step (lossy.named digest) opens.forgets clean
          exact fun other seen => fewer other (stepped.2.1 other seen)
        · exact never.elim
  obtain ⟨digest, wants, absent, gone⟩ := dropped
  exact ⟨digest, wants, absent, fun seen => gone ((fewer next.1 later).2 digest seen)⟩

/-- How a read can have ended: its row was dropped, or it opened the whole object. -/
theorem Opens.ended {lossy : Lossy M} {ns : String} {wanted : Digest → Prop}
    {world : World (server M)} (opens : Opens lossy.state ns wanted world) {id : Nat} {task : Task Api}
    {out : Option Out} (present : world.tasks[id]? = some task) (ended : task.outcome = some out) :
    (out = some (.opened none) ∧ lossy.Dropped ns wanted world.state) ∨
      ∃ blob : Blob, out = some (.opened (some blob)) ∧
        servePayload blob.size.toNat blob.stream.broken blob.stream.chunks 0 =
          (blob.stream.chunks, true) := by
  obtain ⟨live, digest, wants, mending⟩ := opens.tasks id task present
  rw [Task.outcome, live, if_neg Bool.false_ne_true] at ended
  generalize task.rest = program at mending ended
  cases mending with
  | start => cases ended
  | absent absent => cases ended
  | gone absent dropped =>
      cases ended
      exact .inl ⟨rfl, digest, wants, absent, dropped⟩
  | whole blob unbroken length =>
      cases ended
      obtain ⟨complete, all⟩ := servePayload_complete blob.size.toNat blob.stream.broken
        blob.stream.chunks 0
      have served := complete.mpr ⟨unbroken, by rw [Nat.zero_add, length]⟩
      exact .inr ⟨blob, rfl, Prod.ext (all served) served⟩

section Safety
variable {lossy : Lossy M} {ns : String} {wanted : Digest → Prop}
  {world : {world : World (server M) // (mendingPack lossy ns wanted).Inv world}}

theorem startReads_mends (room : Nat) (waiting : List ServedEntry) (window : List Reading)
    (wants : ∀ entry ∈ waiting, wanted entry.digest) :
    (mendingPack lossy ns wanted).Safe (startReads ns room waiting window)
      (fun result _ => ∀ entry ∈ result.1, wanted entry.digest) world := by
  induction room generalizing world waiting window with
  | zero => exact Solo.Safe.done fun _ _ => wants
  | succ room ih =>
      cases waiting with
      | nil => exact Solo.Safe.done fun _ _ => wants
      | cons entry rest =>
          apply Solo.Safe.spawn
          · exact fun _ _ => ⟨entry.digest, wants entry List.mem_cons_self, rfl⟩
          · exact fun _ _ _ _ => ih rest _ fun other member =>
              wants other (List.mem_cons_of_mem _ member)

theorem streamPack_mends (left : Nat) (waiting : List ServedEntry) (window : List Reading)
    (sent : List Bytes) (wants : ∀ entry ∈ waiting, wanted entry.digest) :
    (mendingPack lossy ns wanted).Safe (streamPack ns left waiting window sent)
      (fun stream after => stream.broken = true → lossy.Dropped ns wanted after.1.state)
      world := by
  induction left generalizing world waiting window sent with
  | zero => exact Solo.Safe.done fun _ _ => nofun
  | succ left ih =>
      unfold streamPack
      apply Solo.Safe.bind (startReads_mends _ waiting window wants)
      rintro ⟨waiting', window'⟩ started wants'
      cases window' with
      | nil => exact Solo.Safe.done fun _ _ => nofun
      | cons reading others =>
          apply Solo.Safe.join
          · exact fun _ _ => trivial
          · intro before id task out later member present ended
            rcases before.2.ended present ended with ⟨rfl, dropped⟩ | ⟨blob, rfl, served⟩
            · exact Solo.Safe.done fun after more _ => dropped.later more
            · simp only [served]
              exact ih waiting' others _ wants'

end Safety

section Request
variable (lossy : Lossy M) (config : ServerConfig) (ns : String) (digests : List Digest)

def Lossy.served : List Digest := digests.eraseDups.filter (lossy.state.view.visible ns)

def Wanted (digest : Digest) : Prop :=
  Accepts config (lossy.state.view.visible ns) digests ∧ digest ∈ lossy.served ns digests

abbrev lonePack : Solo (server M) := mendingPack lossy ns (Wanted lossy config ns digests)

def Explained (result : Except ApiError Response) (now : ServerState M) : Prop :=
  ∀ response stream, result = .ok response → response.content = .stream stream →
    stream.broken = true → lossy.Dropped ns (Wanted lossy config ns digests) now

variable {lossy config ns digests}

theorem servedEntries_wanted {listed : List Digest} {entry : ServedEntry}
    (member : entry ∈ servedEntries listed) : entry.digest ∈ listed := by
  obtain ⟨digest, among, made⟩ := List.mem_filterMap.mp member
  obtain ⟨header, _, rfl⟩ := Option.map_eq_some_iff.mp made
  exact among

/-- A pack request reads wanted objects only, and its stream breaks only when a row of one has
been dropped. -/
theorem packBlobs_mends {headers : Headers} (authorized : headers.authorize .read = .ok ns)
    {world : {world : World (server M) // (lonePack lossy config ns digests).Inv world}}
    (idle : world.1.tasks = []) :
    (lonePack lossy config ns digests).Safe (packBlobs config headers digests)
      (fun result after => Explained lossy config ns digests result after.1.state) world := by
  have refuses : ∀ (error : ApiError) {world}, (lonePack lossy config ns digests).Safe
      (Handler.refuse error : Handler Response)
      (fun result after => Explained lossy config ns digests result after.1.state) world :=
    fun error _ => Solo.Safe.done fun _ _ _ _ wrong => nomatch wrong
  rw [packBlobs, authorized, Handler.pureStep_ok]
  split
  · exact refuses _
  rename_i count
  have requested := packRequest_iff config digests [] 0 (Nat.zero_le _)
  simp only [List.contains_nil, Bool.not_false, List.filter_true, Nat.zero_add,
    List.nil_append] at requested
  cases checked : packRequest config digests [] 0 with
  | error error => exact refuses error
  | ok list =>
      obtain ⟨valid, limit, rfl⟩ := (requested list).mp checked
      rw [Handler.pureStep_ok]
      have still : ∀ before : {world : World (server M) //
          (lonePack lossy config ns digests).Inv world},
          (lonePack lossy config ns digests).Meanwhile world.1 before.1 → before.1.tasks = [] := by
        intro before later
        apply List.eq_nil_of_length_eq_zero
        rw [Solo.Meanwhile.length later, idle]
        rfl
      apply Solo.Safe.call
      · exact fun before later => ⟨still before later, _, rfl⟩
      intro before after choice later clean _
      have shown : ((server M).exec choice (.visibleBlobs ns digests.eraseDups) before.1.state).2 =
          .ok (lossy.served ns digests) := by
        rw [before.2.fresh (still before later)]
        have looked := (quiet ⟨lossy.state, lossy.valid⟩).sees clean (headers.named authorized)
          fun digest member => valid digest (List.mem_eraseDups.mp member)
        exact looked.resolve_right fun never => never.1
      rw [shown]
      have served : ∀ digest ∈ lossy.served ns digests, digest.validate = true :=
        fun digest member => valid digest (List.mem_eraseDups.mp (List.mem_of_mem_filter member))
      change (lonePack lossy config ns digests).Safe (Handler.bind (Handler.pureStep
        (packEntries (lossy.served ns digests) ⟨[], 0, blobPackMagic.length⟩)) _) _ after
      have packed := packEntries_iff served ⟨[], 0, blobPackMagic.length⟩ (Nat.zero_le _)
      split at packed
      · rename_i fits
        obtain ⟨entries, headed, packed⟩ := packed
        rw [packed]
        cases headed.entries
        have accepts : Accepts config (lossy.state.view.visible ns) digests :=
          ⟨Nat.le_of_not_lt count, valid, limit, fits⟩
        have wants : ∀ entry ∈ servedEntries (lossy.served ns digests),
            Wanted lossy config ns digests entry.digest := fun entry member =>
          ⟨accepts, servedEntries_wanted member⟩
        have wrapped : (lonePack lossy config ns digests).Safe
            ((streamPack ns (servedEntries (lossy.served ns digests)).length
              (servedEntries (lossy.served ns digests)) [] [blobPackMagic]).bind
                fun stream => .done (.ok stream) : Handler ByteStream)
            (fun result last => ∃ stream, result = .ok stream ∧ (stream.broken = true →
              lossy.Dropped ns (Wanted lossy config ns digests) last.1.state)) after :=
          Solo.Safe.bind (streamPack_mends _ _ [] _ wants) fun stream last drops =>
            Solo.Safe.done fun later more => ⟨stream, rfl, fun broken => (drops broken).later more⟩
        apply Solo.Safe.bind wrapped
        rintro result last ⟨stream, rfl, drops⟩
        apply Solo.Safe.done
        intro later more response body same content broken
        cases same
        cases content
        exact (drops broken).later more
      · rename_i halted
        obtain ⟨error, packed⟩ := packed (by decide)
        rw [packed]
        exact refuses error

end Request
end MbxCache
