import MbxCache.Server.Authority
import MbxCache.Server.Healing
import MbxCache.Server.OnDisk
import MbxCache.Server.Storing

/-! The server over a filesystem store, on a machine that stops and starts again: what was lost,
and what every run after it does about it. -/

namespace MbxCache

open Concurrent Durable

variable [Protocol] {M : Type} [MetadataStore M]

section Since
variable {config : ServerConfig} {start : ServerState M} {lost : Digest → Prop}
  {actions : List (Action Request Choice)} {action : Action Request Choice}

def since (config : ServerConfig) (start : ServerState M)
    (actions : List (Action Request Choice)) : Config (server M) (Except ApiError Response) :=
  (Config.initial (server M) _ start).run (Request.handler config) actions

/-- A state that is as it should be, but for the objects of some digests. -/
structure Standing (lost : Digest → Prop) (state : ServerState M) : Prop where
  valid : MetadataStore.valid state.metadata
  named : ∀ digest bytes, state.blobs digest = some bytes → digest.Names bytes
  finite : ∀ ns, {digest | state.Sees ns digest}.Finite
  backed : ∀ ns digest, state.Sees ns digest → (state.blobs digest).isSome ∨ lost digest

omit [Protocol] in
theorem Op.effect_within (op : Op) (blobs : Objects) (view : View) :
    Objects.Within blobs (op.effect blobs view).1 := by
  cases op with
  | put digest bytes => exact blobs.put_within digest bytes
  | _ => exact .refl blobs

omit [Protocol] in
theorem Op.effect_objects {op : Op} {blobs : Objects} {view : View} {digest : Digest}
    {bytes : Bytes} (stored : (op.effect blobs view).1 digest = some bytes) :
    blobs digest = some bytes ∨ op = .put digest bytes := by
  cases op with
  | put other content =>
      rcases Objects.put_cases stored with old | ⟨rfl, rfl⟩
      · exact .inl old
      · exact .inr rfl
  | _ => exact .inl stored

omit [Protocol] in
theorem Op.effect_rows {op : Op} {blobs : Objects} {view : View} {ns : String} {digest : Digest}
    (seen : (op.effect blobs view).2.visible ns digest = true) :
    view.visible ns digest = true ∨ ∃ stored, op = .registerBlob ns digest stored := by
  cases op with
  | registerBlob other key stored =>
      simp only [effect, View.register, View.assign] at seen
      split at seen
      next same => exact .inr ⟨stored, by rw [same.1, same.2]⟩
      next => exact .inl seen
  | forgetBlob other key =>
      simp only [effect, View.forget, View.assign] at seen
      split at seen
      next => cases seen
      next => exact .inl seen
  | commit other action result =>
      simp only [effect, commit_visible] at seen
      exact .inl seen
  | commitManifest other key expected record =>
      simp only [effect, View.commitManifest] at seen
      split at seen <;> exact .inl seen
  | _ => exact .inl seen

theorem exec_within (choice : Choice) (op : Op) {state : ServerState M}
    (valid : MetadataStore.valid state.metadata) :
    Objects.Within state.blobs (exec choice op state).1.blobs := by
  rcases (exec_effect choice op valid).2 with same | effect
  · have kept : (exec choice op state).1.blobs = state.blobs := congrArg Prod.fst same
    rw [kept]
    exact .refl _
  · have stored : (exec choice op state).1.blobs = (op.effect state.blobs state.view).1 :=
      congrArg Prod.fst effect
    rw [stored]
    exact op.effect_within _ _

theorem put_leaves {choice : Choice} {state : ServerState M} {digest : Digest} {bytes : Bytes}
    {outcome : PutOutcome}
    (answered : (.ok outcome : Except Failure PutOutcome) =
      (exec choice (.put digest bytes) state).2) :
    ((exec choice (.put digest bytes) state).1.blobs digest).isSome := by
  have performed := exec_value answered.symm
  have stored :
      (exec choice (.put digest bytes) state).1.blobs = (state.blobs.put digest bytes).1 :=
    congrArg (fun result => result.1.blobs) (Except.ok.inj performed).symm
  rw [stored, Objects.put_present]
  rfl

theorem since_valid (valid : MetadataStore.valid start.metadata)
    (actions : List (Action Request Choice)) :
    MetadataStore.valid (since config start actions).state.metadata :=
  run_valid _ ⟨start, valid⟩ actions

theorem since_within (config : ServerConfig) (valid : MetadataStore.valid start.metadata)
    (front back : List (Action Request Choice)) :
    Objects.Within (since config start front).state.blobs
      (since config start (front ++ back)).state.blobs := by
  induction back using List.reverseRecOn with
  | nil =>
      rw [List.append_nil]
      exact .refl _
  | append_singleton back action ih =>
      refine ih.trans ?_
      rw [← List.append_assoc]
      cases carried : (since config start (front ++ back)).carries action with
      | none =>
          have silent : (since config start (front ++ back ++ [action])).state =
              (since config start (front ++ back)).state := Config.run_silent carried
          rw [silent]
          exact .refl _
      | some call =>
          have called : (since config start (front ++ back ++ [action])).state = _ :=
            Config.run_calls carried
          rw [called]
          exact exec_within _ _ (since_valid valid _)

theorem since_calls {call : Carried (server M)}
    (carried : (since config start actions).carries action = some call) :
    ∃ past, storing.Calls past call.op ∧ ∀ entry ∈ past, Config.Recorded (Request.handler config)
      (Config.initial (server M) _ start) actions call.pid entry := by
  obtain ⟨request, past, -, allowed, known⟩ := Config.carries_obeys (F := fun _ => storing)
    (fun request => request.handler_storing config) (fun _ job => job.body_storing) carried
  exact ⟨past, allowed, known⟩

theorem registered_present (valid : MetadataStore.valid start.metadata)
    {call : Carried (server M)} {ns : String} {digest : Digest} {stored : PutOutcome}
    (carried : (since config start actions).carries action = some call)
    (registers : call.op = .registerBlob ns digest stored) :
    ((since config start actions).state.blobs digest).isSome := by
  obtain ⟨past, allowed, known⟩ := since_calls carried
  rw [registers] at allowed
  obtain ⟨bytes, outcome, member⟩ := allowed
  obtain ⟨front, put, back, choice, rfl, asked, answered⟩ := known _ member
  have called : (since config start (front ++ [put])).state = _ := Config.run_calls asked
  have present := put_leaves answered
  rw [← called] at present
  obtain ⟨content, found⟩ := Option.isSome_iff_exists.mp present
  have still := since_within config valid (front ++ [put]) back digest content found
  rw [List.append_assoc, List.singleton_append] at still
  rw [still]
  rfl

/-- A call that stores only what is named and registers only what is there. -/
theorem Standing.execute {state : ServerState M} (standing : Standing lost state) (choice : Choice)
    {op : Op} (named : ∀ digest bytes, op = .put digest bytes → digest.Names bytes)
    (present : ∀ ns digest stored, op = .registerBlob ns digest stored →
      (state.blobs digest).isSome) : Standing lost (exec choice op state).1 := by
  obtain ⟨valid, effect⟩ := exec_effect choice op standing.valid
  have within := exec_within choice op standing.valid
  have kept (digest : Digest) (found : (state.blobs digest).isSome) :
      ((exec choice op state).1.blobs digest).isSome := by
    obtain ⟨bytes, stored⟩ := Option.isSome_iff_exists.mp found
    rw [within digest bytes stored]
    rfl
  have objects (digest : Digest) (bytes : Bytes)
      (stored : (exec choice op state).1.blobs digest = some bytes) :
      state.blobs digest = some bytes ∨ op = .put digest bytes := by
    rcases effect with same | changed
    · exact .inl ((congrFun (congrArg Prod.fst same) digest).symm.trans stored)
    · exact Op.effect_objects ((congrFun (congrArg Prod.fst changed) digest).symm.trans stored)
  have rows (ns : String) (digest : Digest) (seen : (exec choice op state).1.Sees ns digest) :
      state.Sees ns digest ∨ ∃ stored, op = .registerBlob ns digest stored := by
    have seen : (exec choice op state).1.shown.2.visible ns digest = true := seen
    rcases effect with same | changed
    · rw [same] at seen
      exact .inl seen
    · rw [changed] at seen
      exact Op.effect_rows seen
  refine ⟨valid, fun digest bytes stored => ?_, fun ns => ?_, fun ns digest seen => ?_⟩
  · rcases objects digest bytes stored with old | put
    · exact standing.named digest bytes old
    · exact named digest bytes put
  · -- At most one row is new.
    have fresh : {digest | ∃ stored, op = .registerBlob ns digest stored}.Finite := by
      refine Set.Subsingleton.finite ?_
      rintro digest ⟨stored, rfl⟩ other ⟨again, same⟩
      cases same
      rfl
    exact ((standing.finite ns).union fresh).subset fun digest seen => rows ns digest seen
  · rcases rows ns digest seen with old | ⟨stored, registers⟩
    · exact (standing.backed ns digest old).imp_left (kept digest)
    · exact .inl (kept digest (present ns digest stored registers))

/-- Every state of a run is as it should be, but for what was lost before. -/
theorem since_stands (config : ServerConfig) (standing : Standing lost start)
    (actions : List (Action Request Choice)) :
    Standing lost (since config start actions).state := by
  induction actions using List.reverseRecOn with
  | nil => exact standing
  | append_singleton actions action ih =>
      cases carried : (since config start actions).carries action with
      | none =>
          have silent : (since config start (actions ++ [action])).state =
              (since config start actions).state := Config.run_silent carried
          rw [silent]
          exact ih
      | some call =>
          have called : (since config start (actions ++ [action])).state = _ :=
            Config.run_calls carried
          rw [called]
          refine ih.execute call.choice ?_ fun ns digest stored registers =>
            registered_present standing.valid carried registers
          intro digest bytes puts
          obtain ⟨past, allowed, -⟩ := since_calls carried
          rw [puts] at allowed
          exact allowed

/-- A row that has its object when a run begins keeps both. -/
theorem since_keeps (config : ServerConfig) (valid : MetadataStore.valid start.metadata)
    {ns : String} {digest : Digest} {bytes : Bytes} (seen : start.Sees ns digest)
    (stored : start.blobs digest = some bytes)
    (actions : List (Action Request Choice)) :
    (since config start actions).state.Sees ns digest ∧
      (since config start actions).state.blobs digest = some bytes := by
  refine ⟨?_, since_within config valid [] actions digest bytes stored⟩
  induction actions using List.reverseRecOn with
  | nil => exact seen
  | append_singleton actions action ih =>
      cases carried : (since config start actions).carries action with
      | none =>
          have silent : (since config start (actions ++ [action])).state =
              (since config start actions).state := Config.run_silent carried
          rw [silent]
          exact ih
      | some call =>
          have called : (since config start (actions ++ [action])).state = _ :=
            Config.run_calls carried
          rw [called]
          change (exec call.choice call.op (since config start actions).state).1.shown.2.visible ns
            digest = true
          rcases (exec_effect call.choice call.op (since_valid valid actions)).2 with same | changed
          · rw [same]
            exact ih
          · rw [changed]
            by_contra gone
            have drops : call.op = .forgetBlob ns digest :=
              Op.effect_dropped ih (Bool.eq_false_iff.mpr gone)
            obtain ⟨past, allowed, known⟩ := since_calls carried
            rw [drops] at allowed
            obtain ⟨front, get, back, choice, rfl, -, answered⟩ := known _ allowed
            -- The object was there when the storage was asked for it.
            have there := since_within config valid [] front digest bytes stored
            rw [List.nil_append] at there
            have absent := get_none answered
            rw [show (since config start front).state.blobs digest = _ from absent] at there
            cases there

end Since

section Restarts

/-- `FilesystemStore::new` on the disk of a machine that has stopped. -/
def FileStore.reopen (store : FileStore) (lost : StorePath → Bool) : FileStore :=
  let crashed := store.step (.crash lost)
  { crashed with tree :=
    { crashed.tree with dirs := fun path => path = ["blobs"] || crashed.tree.dirs path } }

section Reopening
variable {store : FileStore} {path : StorePath} {digest : Digest}

omit [Protocol]

theorem FileStore.reopen_sound (sound : store.Sound) (lost : StorePath → Bool) :
    (store.reopen lost).Sound := by
  obtain ⟨published, lasting, fits, given, apart, answered, once, sees⟩ :=
    FileStore.crash_sound sound lost
  exact ⟨published, lasting, fits, given, apart, answered, once, sees⟩

theorem FileStore.Sound.reopen_durable (sound : store.Sound) (lost : StorePath → Bool)
    (blob : blobPath digest = some path) (durable : (store.tree.disk.durable path).isSome) :
    (store.reopen lost).read path = store.read path ∧ (store.read path).isSome := by
  obtain ⟨inode, held⟩ := Option.isSome_iff_exists.mp durable
  have named := sound.lasting path inode ⟨digest, blob⟩ held
  have there : (store.read path).isSome := by
    simp only [FileStore.read, Disk.read, named, Option.map_some, Option.isSome_some]
  refine ⟨(sound.crash_read lost ⟨digest, blob⟩).resolve_left fun gone => ?_, there⟩
  simp [FileStore.read, Disk.read, FileStore.step, Disk.crash, held,
    blobPath_lasting ⟨digest, blob⟩] at gone

/-- A crash leaves an object, or takes it away when its name was not durable. -/
theorem FileStore.Sound.reopen_objects (sound : store.Sound) (lost : StorePath → Bool)
    (digest : Digest) :
    (store.reopen lost).tree.objects digest = store.tree.objects digest ∨
      (store.reopen lost).tree.objects digest = none ∧
        ∃ path, blobPath digest = some path ∧ store.tree.disk.durable path = none := by
  cases blob : blobPath digest with
  | none => exact .inl (by simp only [FileTree.objects, blob, Option.bind_none])
  | some path =>
      rw [(store.reopen lost).tree.objects_read blob, store.tree.objects_read blob]
      cases durable : store.tree.disk.durable path with
      | none =>
          rcases sound.crash_read lost ⟨digest, blob⟩ with gone | same
          · exact .inr ⟨gone, path, rfl, durable⟩
          · exact .inl same
      | some inode => exact .inl (sound.reopen_durable lost blob (by rw [durable]; rfl)).1

end Reopening

namespace DiskServer

def restart (server : DiskServer M) (lost : StorePath → Bool) (keeps : Bool) : DiskServer M :=
  ⟨server.files.reopen lost, if keeps then server.metadata else freshStore M, fun _ => none⟩

def run (server : DiskServer M) (config : ServerConfig) (events : List DiskEvent) :
    Config (diskServer M).machine (Except ApiError Response) :=
  (diskServer M).run (Request.handler config) (Config.initial (diskServer M).machine _ server)
    events

end DiskServer

/-- What happens to the server until its machine stops, what that takes away, and whether the
metadata outlives it, as it does in a database. -/
structure Epoch where
  events : List DiskEvent
  lost : StorePath → Bool
  keeps : Bool

def DiskServer.restarted (M : Type) [MetadataStore M] (config : ServerConfig)
    (epochs : List Epoch) : DiskServer M :=
  epochs.foldl (fun server epoch => (server.run config epoch.events).state.restart epoch.lost
    epoch.keeps) (DiskServer.start M)

/-- In one of some epochs the machine stopped when the file of a digest was there and its name was
not durable. -/
def LostIn (M : Type) [MetadataStore M] (config : ServerConfig) (epochs : List Epoch)
    (digest : Digest) : Prop :=
  ∃ front epoch back path, epochs = front ++ epoch :: back ∧ blobPath digest = some path ∧
    let files := ((DiskServer.restarted M config front).run config epoch.events).state.files
    (files.read path).isSome ∧ files.tree.disk.durable path = none

section Epochs
variable {config : ServerConfig} {server : DiskServer M} {lost : Digest → Prop}
  {epochs : List Epoch} {digest : Digest}

theorem LostIn.later (lost : LostIn M config epochs digest) (more : List Epoch) :
    LostIn M config (epochs ++ more) digest := by
  obtain ⟨front, epoch, back, path, rfl, blob, there⟩ := lost
  exact ⟨front, epoch, back ++ more, path, by simp, blob, there⟩

theorem DiskServer.restarted_append (epoch : Epoch) :
    restarted M config (epochs ++ [epoch]) =
      ((restarted M config epochs).run config epoch.events).state.restart epoch.lost
        epoch.keeps := by
  rw [restarted, List.foldl_append]
  rfl

theorem DiskServer.restart_sound (sound : server.Sound) (lost : StorePath → Bool) (keeps : Bool) :
    (server.restart lost keeps).Sound where
  files := FileStore.reopen_sound sound.files lost
  waits caller ticket held := by cases held
  apart one other ticket held _ := by cases held

theorem DiskServer.run_since (config : ServerConfig) (sound : server.Sound)
    (events : List DiskEvent) :
    (server.run config events).state.Sound ∧ ∃ actions,
      (since config server.shown actions).state = (server.run config events).state.shown := by
  have matched : Matches DiskServer.Shows
      (Config.initial (diskServer M).machine (Except ApiError Response) server)
      (Config.initial (MbxCache.server M) (Except ApiError Response) server.shown) :=
    ⟨⟨sound, rfl⟩, rfl⟩
  obtain ⟨actions, -, ⟨kept, same⟩, -⟩ :=
    (diskServer_implements M).run (Request.handler config) matched events
  exact ⟨kept, actions, same⟩

theorem fresh_unseen (ns : String) (digest : Digest) (blobs : Objects) :
    ¬ ServerState.Sees (M := M) ⟨blobs, freshStore M⟩ ns digest := by
  simp [ServerState.Sees, ServerState.view, freshStore, MetadataStore.empty_view, View.empty]

theorem DiskServer.restart_stands {wider : Digest → Prop} (sound : server.Sound)
    (standing : Standing lost server.shown) (wide : ∀ digest, lost digest → wider digest)
    (taken : ∀ digest path, blobPath digest = some path → (server.files.read path).isSome →
      server.files.tree.disk.durable path = none → wider digest)
    (gone : StorePath → Bool) (keeps : Bool) :
    Standing wider (server.restart gone keeps).shown := by
  have named (digest : Digest) (bytes : Bytes)
      (stored : (server.restart gone keeps).shown.blobs digest = some bytes) :
      digest.Names bytes := by
    rcases sound.files.reopen_objects gone digest with same | ⟨missing, -⟩
    · exact standing.named digest bytes (same.symm.trans stored)
    · cases missing.symm.trans stored
  cases keeps with
  | false =>
      exact ⟨MetadataStore.empty_valid, named,
        fun ns => Set.finite_empty.subset fun digest seen => fresh_unseen ns digest _ seen,
        fun ns digest seen => absurd seen (fresh_unseen ns digest _)⟩
  | true =>
      refine ⟨standing.valid, named, standing.finite, fun ns digest seen => ?_⟩
      rcases standing.backed ns digest seen with there | lost
      · rcases sound.files.reopen_objects gone digest with same | ⟨-, path, blob, fragile⟩
        · refine .inl ?_
          change ((server.files.reopen gone).tree.objects digest).isSome
          rw [same]
          exact there
        · refine .inr (taken digest path blob ?_ fragile)
          change (server.files.tree.disk.read path).isSome
          rw [← server.files.tree.objects_read blob]
          exact there
      · exact .inr (wide digest lost)

theorem DiskServer.run_stands (config : ServerConfig) (sound : server.Sound)
    (standing : Standing lost server.shown) (events : List DiskEvent) :
    Standing lost (server.run config events).state.shown := by
  obtain ⟨-, actions, same⟩ := server.run_since config sound events
  exact same ▸ since_stands config standing actions

/-- However often the machine has stopped, the server stands, but for what that took away. -/
theorem DiskServer.restarted_stands (config : ServerConfig) (epochs : List Epoch) :
    (restarted M config epochs).Sound ∧
      Standing (LostIn M config epochs) (restarted M config epochs).shown := by
  induction epochs using List.reverseRecOn with
  | nil =>
      refine ⟨DiskServer.start_sound, MetadataStore.empty_valid, ?_, ?_, ?_⟩
      · intro digest bytes stored
        have shown : (fun _ => none) = (DiskServer.start M).shown.blobs :=
          congrArg ServerState.blobs (DiskServer.start_shows (M := M)).2
        cases (congrFun shown digest).trans stored
      · exact fun ns => Set.finite_empty.subset fun digest seen => fresh_unseen ns digest _ seen
      · exact fun ns digest seen => absurd seen (fresh_unseen ns digest _)
  | append_singleton epochs epoch ih =>
      obtain ⟨sound, standing⟩ := ih
      obtain ⟨kept, -⟩ := run_since config sound epoch.events
      rw [restarted_append]
      refine ⟨restart_sound kept _ _, ?_⟩
      refine restart_stands kept (run_stands config sound standing epoch.events)
        (fun digest lost => lost.later [epoch]) ?_ _ _
      exact fun digest path blob there fragile =>
        ⟨epochs, epoch, [], path, rfl, blob, there, fragile⟩

end Epochs

/-- However often the machine of a server stops, and whatever requests come in between: a file
under the name of a digest is what the digest names. A row lacks its file only when the machine
stopped before the name of the file was durable, and a request that comes to a missing file, with
nobody else around, fails and drops such a row. A row that has its file when the server starts
keeps both, and once the name is durable, it does so when the machine stops again. -/
theorem crashes_survived (config : ServerConfig) (epochs : List Epoch) (events : List DiskEvent) :
    let before := DiskServer.restarted M config epochs
    let now := (before.run config events).state
    (∀ digest path bytes, blobPath digest = some path → now.files.read path = some bytes →
      digest.Names bytes) ∧
    (∀ ns digest, now.shown.Sees ns digest →
      (∃ path bytes, blobPath digest = some path ∧ now.files.read path = some bytes) ∨
        LostIn M config epochs digest) ∧
    (∀ (request : ContentRead) ns, request.request.authorized = .ok ns →
      Heals ns (request.request.handler config) now.shown) ∧
    (∀ ns digest path bytes, blobPath digest = some path → before.shown.Sees ns digest →
      before.files.read path = some bytes →
      now.shown.Sees ns digest ∧ now.files.read path = some bytes) ∧
    ∀ ns digest path lost, blobPath digest = some path → now.shown.Sees ns digest →
      (now.files.tree.disk.durable path).isSome →
      (now.restart lost true).shown.Sees ns digest ∧ (now.files.read path).isSome ∧
        (now.restart lost true).files.read path = now.files.read path := by
  intro before now
  obtain ⟨sound, standing⟩ := DiskServer.restarted_stands (M := M) config epochs
  obtain ⟨kept, actions, same⟩ := before.run_since config sound events
  have stands : Standing (LostIn M config epochs) now.shown :=
    before.run_stands config sound standing events
  refine ⟨fun digest path bytes blob found => ?_, fun ns digest seen => ?_,
    fun request ns authorized => ?_, fun ns digest path bytes blob seen found => ?_,
    fun ns digest path lost blob seen durable => ?_⟩
  · exact stands.named digest bytes ((now.files.tree.objects_read blob).trans found)
  · refine (stands.backed ns digest seen).imp_left fun there => ?_
    obtain ⟨bytes, stored⟩ := Option.isSome_iff_exists.mp there
    obtain ⟨path, blob, found⟩ := Option.bind_eq_some_iff.mp stored
    exact ⟨path, bytes, blob, found⟩
  · exact request.heals config ⟨now.shown, stands.valid, stands.named, stands.finite⟩ authorized
  · have keeps := since_keeps config standing.valid seen
      ((before.files.tree.objects_read blob).trans found) actions
    rw [same] at keeps
    exact ⟨keeps.1, (now.files.tree.objects_read blob).symm.trans keeps.2⟩
  · obtain ⟨whole, there⟩ := kept.files.reopen_durable lost blob durable
    exact ⟨seen, there, whole⟩

end Restarts
end MbxCache
