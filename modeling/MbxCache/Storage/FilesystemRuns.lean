import MbxCache.Storage.BlobPaths

namespace MbxCache

open Durable

namespace PutStage

variable {source : Bytes} {destination : StorePath} {io : Io} {tree : FileTree} {stage : PutStage}
  {good : StorePath → Bytes → Prop}

/-- The temporary file of a put is its own and holds what the put has copied so far, durable
before it is published. -/
def Fits (disk : Disk StorePath UInt8) (source : Bytes) : PutStage → Prop
  | .opening staging inode => disk.Holds IsBlobPath staging inode
  | .copying staging inode handle rest =>
      disk.Holds IsBlobPath staging inode ∧ handle = inode ∧
        (disk.files inode).volatile ++ rest = source
  | .syncing staging inode =>
      disk.Holds IsBlobPath staging inode ∧ (disk.files inode).volatile = source
  | .publishing staging inode =>
      disk.Holds IsBlobPath staging inode ∧ disk.files inode = ⟨source, source⟩
  | .checking | .makingDirs | .creating | .answered _ | .failed => True

theorem Fits.holds {disk : Disk StorePath UInt8} (fits : stage.Fits disk source)
    {file : StorePath × Nat} (own : stage.own = some file) :
    disk.Holds IsBlobPath file.1 file.2 := by
  cases stage with
  | opening staging inode =>
      cases own
      exact fits
  | copying staging inode handle rest =>
      cases own
      exact fits.1
  | syncing staging inode =>
      cases own
      exact fits.1
  | publishing staging inode =>
      cases own
      exact fits.1
  | _ => cases own

theorem Fits.of_same {before after : Disk StorePath UInt8} (fits : stage.Fits before source)
    (same : ∀ file, stage.own = some file →
      after.Holds IsBlobPath file.1 file.2 ∧ after.files file.2 = before.files file.2) :
    stage.Fits after source := by
  cases stage with
  | opening staging inode => exact (same _ rfl).1
  | copying staging inode handle rest =>
      obtain ⟨holds, files⟩ := same _ rfl
      exact ⟨holds, fits.2.1, files ▸ fits.2.2⟩
  | syncing staging inode =>
      obtain ⟨holds, files⟩ := same _ rfl
      exact ⟨holds, files ▸ fits.2⟩
  | publishing staging inode =>
      obtain ⟨holds, files⟩ := same _ rfl
      exact ⟨holds, files.trans fits.2⟩
  | _ => trivial

/-- What a step of a put does to the disk: it works on its temporary file, or it gives the file
its lasting name where there was none. -/
inductive Effect (destination : StorePath) (stage : PutStage) (before after : Disk StorePath UInt8) :
    Prop
  | careful (careful : Disk.Careful IsBlobPath stage.own before after)
  | publish (staging : StorePath) (inode : Nat) (ready : stage = .publishing staging inode)
      (absent : before.names destination = none)
      (moved : after = before.move staging destination inode)

theorem drop_careful (tree : FileTree) (staging : StorePath) (inode : Nat) (io : Io) :
    Disk.Careful IsBlobPath (some (staging, inode)) tree.disk (tree.drop staging io).disk := by
  unfold FileTree.drop
  split
  · exact .remove staging inode
  · exact .refl _

theorem advance_effect (destination : StorePath) (io : Io) (fits : stage.Fits tree.disk source) :
    Effect destination stage tree.disk (stage.advance source destination io tree).1.disk := by
  cases stage with
  | checking =>
      simp only [advance]
      split
      · exact .careful (.refl _)
      · split <;> exact .careful (.refl _)
  | makingDirs =>
      simp only [advance]
      split
      · split <;> exact .careful (.refl _)
      · exact .careful (.refl _)
  | creating =>
      have staged := staging_notBlob destination.dropLast io.random
      simp only [advance]
      split
      · exact .careful (.refl _)
      · split
        next => exact .careful (.refl _)
        next disk inode created =>
          obtain ⟨absent, rfl, rfl⟩ := Disk.create_ok.mp created
          split
          · unfold FileTree.drop
            split
            · exact .careful (.make_remove absent staged)
            · exact .careful (.make _ absent staged)
          · exact .careful (.make _ absent staged)
  | opening staging inode =>
      simp only [advance]
      split
      · exact .careful (drop_careful tree staging inode io)
      · have named : tree.disk.names staging = some inode := fits.named
        simp only [Disk.overwrite, named]
        exact .careful (.write [])
  | copying staging inode handle rest =>
      obtain ⟨holds, rfl, copied⟩ := fits
      have written : Disk.Careful IsBlobPath (some (staging, handle)) tree.disk
          (tree.disk.append handle (rest.take io.cut)) := .write _
      simp only [advance]
      split
      · exact .careful (written.trans
          (drop_careful (tree.withDisk (tree.disk.append handle (rest.take io.cut))) staging handle io))
      · split
        · exact .careful (.refl _)
        · exact .careful written
  | syncing staging inode =>
      have synced : Disk.Careful IsBlobPath (some (staging, inode)) tree.disk
          (tree.disk.sync inode) := .sync
      simp only [advance]
      split
      · split
        · exact .careful (synced.trans
            (drop_careful (tree.withDisk (tree.disk.sync inode)) staging inode io))
        · exact .careful (drop_careful tree staging inode io)
      · exact .careful synced
  | publishing staging inode =>
      simp only [advance]
      split
      · exact .careful (drop_careful tree staging inode io)
      · split
        next disk renamed =>
          obtain ⟨held, named, absent, rfl⟩ := Disk.rename_ok.mp renamed
          obtain rfl : held = inode := Option.some.inj (named.symm.trans fits.1.named)
          exact .publish staging held rfl absent rfl
        next => exact .careful (drop_careful tree staging inode io)
        next => exact .careful (drop_careful tree staging inode io)
  | answered outcome => exact .careful (.refl _)
  | failed => exact .careful (.refl _)

namespace Effect

variable {before after : Disk StorePath UInt8}

theorem keeps (effect : Effect destination stage before after) (fits : stage.Fits before source)
    (published : before.Publishes IsBlobPath good) : Disk.Keeps IsBlobPath before after := by
  cases effect with
  | careful careful => exact careful.keeps published fun file own => fits.holds own
  | publish staging inode ready absent moved =>
      subst ready moved
      exact fits.1.move_keeps absent

theorem published (effect : Effect destination stage before after) (fits : stage.Fits before source)
    (published : before.Publishes IsBlobPath good) (given : good destination source) :
    after.Publishes IsBlobPath good := by
  cases effect with
  | careful careful =>
      exact published.careful careful fun file own => (fits.holds own).unreached
  | publish staging inode ready absent moved =>
      subst ready moved
      exact published.move fits.1 fits.2 given

theorem durable (effect : Effect destination stage before after) :
    after.durable = before.durable := by
  cases effect with
  | careful careful => exact careful.durable
  | publish staging inode ready absent moved =>
      subst moved
      rfl

theorem others (effect : Effect destination stage before after) (fits : stage.Fits before source)
    {file : StorePath × Nat} (holds : before.Holds IsBlobPath file.1 file.2)
    (apart : ∀ mine, stage.own = some mine → mine.2 ≠ file.2) :
    after.Holds IsBlobPath file.1 file.2 ∧ after.files file.2 = before.files file.2 := by
  have named (mine : StorePath × Nat) (own : stage.own = some mine) : mine.1 ≠ file.1 := by
    intro same
    have held := (fits.holds own).named
    rw [same, holds.named] at held
    exact apart mine own (Option.some.inj held).symm
  cases effect with
  | careful careful =>
      exact ⟨holds.careful careful fun mine own => ⟨named mine own, apart mine own⟩,
        careful.files file.2 holds.below apart⟩
  | publish staging inode ready absent moved =>
      subst ready moved
      exact ⟨holds.move absent (named (staging, inode) rfl) (apart (staging, inode) rfl), rfl⟩

end Effect

theorem advance_fits (published : tree.disk.Publishes IsBlobPath good)
    (fits : stage.Fits tree.disk source) :
    (stage.advance source destination io tree).2.Fits
      (stage.advance source destination io tree).1.disk source := by
  cases stage with
  | checking =>
      simp only [advance]
      split
      · trivial
      · split <;> trivial
  | makingDirs =>
      simp only [advance]
      split <;> trivial
  | creating =>
      simp only [advance]
      split
      · trivial
      · split
        next => trivial
        next disk inode created =>
          obtain ⟨absent, rfl, rfl⟩ := Disk.create_ok.mp created
          split
          · trivial
          · exact .make published (staging_notBlob destination.dropLast io.random)
  | opening staging inode =>
      have holds : tree.disk.Holds IsBlobPath staging inode := fits
      simp only [advance]
      split
      · trivial
      · simp only [Disk.overwrite, holds.named]
        refine ⟨holds.write inode [], rfl, ?_⟩
        simp [FileTree.withDisk, Disk.write]
  | copying staging inode handle rest =>
      obtain ⟨holds, rfl, copied⟩ := fits
      simp only [advance]
      split
      · trivial
      · split
        next done =>
          subst done
          exact ⟨holds, (List.append_nil _).symm.trans copied⟩
        next =>
          refine ⟨holds.write _ _, rfl, ?_⟩
          simp [FileTree.withDisk, Disk.append, Disk.write, copied]
  | syncing staging inode =>
      obtain ⟨holds, copied⟩ := fits
      simp only [advance]
      split
      · trivial
      · refine ⟨holds.sync inode, ?_⟩
        simp [FileTree.withDisk, Disk.sync, copied]
  | publishing staging inode =>
      simp only [advance]
      split
      · trivial
      · split
        next => split <;> trivial
        next => split <;> trivial
        next => trivial
  | answered outcome => trivial
  | failed => trivial

theorem advance_own {file : StorePath × Nat}
    (own : (stage.advance source destination io tree).2.own = some file) :
    stage.own = some file ∨ tree.disk.names file.1 = none ∧ file.2 = tree.disk.next := by
  cases stage with
  | creating =>
      simp only [advance] at own
      split at own
      · cases own
      · split at own
        next => cases own
        next disk inode created =>
          obtain ⟨absent, rfl, rfl⟩ := Disk.create_ok.mp created
          split at own
          · cases own
          · cases own
            exact .inr ⟨absent, rfl⟩
  | checking =>
      simp only [advance] at own
      split at own
      · cases own
      · split at own <;> cases own
  | publishing staging inode =>
      simp only [advance] at own
      split at own
      · cases own
      · split at own
        next => split at own <;> cases own
        next => split at own <;> cases own
        next => cases own
  | answered outcome => cases own
  | failed => cases own
  | makingDirs =>
      simp only [advance] at own
      split at own <;> cases own
  | opening staging inode =>
      simp only [advance] at own
      split at own
      · cases own
      · exact .inl own
  | copying staging inode handle rest =>
      simp only [advance] at own
      split at own
      · cases own
      · split at own <;> exact .inl own
  | syncing staging inode =>
      simp only [advance] at own
      split at own
      · cases own
      · exact .inl own

/-- A put answers when its blob is there, and answers `created` only if it was not before. -/
theorem advance_answered {outcome : PutOutcome} (fits : stage.Fits tree.disk source)
    (blob : IsBlobPath destination)
    (ended : (stage.advance source destination io tree).2 = .answered outcome) :
    stage = .answered outcome ∨
      (∃ inode, (stage.advance source destination io tree).1.disk.names destination = some inode) ∧
        (outcome = .created → tree.disk.names destination = none) := by
  cases stage with
  | checking =>
      right
      simp only [advance] at ended ⊢
      cases fails : io.fails with
      | true => simp [fails] at ended
      | false =>
          cases present : tree.disk.names destination with
          | none => simp [fails, present] at ended
          | some inode =>
              simp only [fails, present, Option.isSome_some, if_true, Bool.false_eq_true, if_false,
                answered.injEq] at ended ⊢
              subst ended
              exact ⟨⟨inode, rfl⟩, by simp⟩
  | publishing staging inode =>
      right
      have staged : staging ≠ destination := fun same => fits.1.staged (same ▸ blob)
      simp only [advance] at ended ⊢
      cases quiet : io.fails && !io.effective with
      | true => simp [quiet] at ended
      | false =>
          cases renamed : tree.disk.rename staging destination with
          | ok disk =>
              obtain ⟨held, named, absent, rfl⟩ := Disk.rename_ok.mp renamed
              simp only [Bool.false_eq_true, if_false]
              exact ⟨⟨held, Function.update_self ..⟩, fun _ => absent⟩
          | error problem =>
              cases problem with
              | missing => simp [quiet, renamed] at ended
              | taken =>
                  obtain ⟨held, present⟩ := Disk.rename_taken renamed
                  have still := (drop_careful tree staging inode io).kept destination held present
                    fun file own => by
                      cases own
                      exact staged
                  simp only [quiet, renamed, Bool.false_eq_true, if_false] at ended ⊢
                  split at ended <;> cases ended
                  exact ⟨⟨held, still⟩, by simp⟩
  | answered held => exact .inl ended
  | failed => cases ended
  | makingDirs =>
      simp only [advance] at ended
      split at ended <;> cases ended
  | creating =>
      simp only [advance] at ended
      split at ended
      · cases ended
      · split at ended
        next => cases ended
        next => split at ended <;> cases ended
  | opening staging inode =>
      simp only [advance] at ended
      split at ended <;> cases ended
  | copying staging inode handle rest =>
      simp only [advance] at ended
      split at ended
      · cases ended
      · split at ended <;> cases ended
  | syncing staging inode =>
      simp only [advance] at ended
      split at ended <;> cases ended

end PutStage

def GetCall.Sees (disk : Disk StorePath UInt8) (given : List (Digest × Bytes)) (call : GetCall) :
    Prop :=
  match call.stage with
  | .opening | .absent | .failed => True
  | .sizing inode => ∃ path, blobPath call.digest = some path ∧ disk.names path = some inode
  | .reading inode size collected =>
      ∃ path, blobPath call.digest = some path ∧ disk.names path = some inode ∧
        size = (disk.files inode).volatile.length ∧ collected <+: (disk.files inode).volatile
  | .served size content => (call.digest, content) ∈ given ∧ size = content.length

theorem GetCall.Sees.keeps {before after : Disk StorePath UInt8} {given more : List (Digest × Bytes)}
    {call : GetCall} (sees : call.Sees before given)
    (keeps : Disk.Keeps IsBlobPath before after) (grows : given ⊆ more) : call.Sees after more := by
  unfold Sees at sees ⊢
  cases stage : call.stage with
  | sizing inode =>
      rw [stage] at sees
      obtain ⟨path, blob, named⟩ := sees
      exact ⟨path, blob, (keeps path inode ⟨_, blob⟩ named).1⟩
  | reading inode size collected =>
      rw [stage] at sees
      obtain ⟨path, blob, named, length, front⟩ := sees
      obtain ⟨still, same⟩ := keeps path inode ⟨_, blob⟩ named
      exact ⟨path, blob, still, same ▸ length, same ▸ front⟩
  | served size content =>
      rw [stage] at sees
      exact ⟨grows sees.1, sees.2⟩
  | _ => trivial

namespace FileStore

def Complete (given : List (Digest × Bytes)) (path : StorePath) (bytes : Bytes) : Prop :=
  ∃ digest, blobPath digest = some path ∧ (digest, bytes) ∈ given

end FileStore

theorem GetCall.advance_sees {disk : Disk StorePath UInt8} {given : List (Digest × Bytes)}
    (call : GetCall) (published : disk.Publishes IsBlobPath (FileStore.Complete given))
    (sees : call.Sees disk given) (io : Io) :
    GetCall.Sees disk given { call with stage := match blobPath call.digest with
      | none => .failed
      | some destination => call.stage.advance destination io disk } := by
  cases blob : blobPath call.digest with
  | none => trivial
  | some destination =>
      unfold Sees at sees ⊢
      cases stage : call.stage with
      | opening =>
          simp only [GetStage.advance]
          cases io.fails with
          | true => trivial
          | false =>
              cases named : disk.names destination with
              | none => trivial
              | some inode => exact ⟨destination, blob, named⟩
      | sizing inode =>
          rw [stage] at sees
          obtain ⟨path, same, named⟩ := sees
          simp only [GetStage.advance]
          cases io.fails with
          | true => trivial
          | false => exact ⟨path, same, named, rfl, List.nil_prefix⟩
      | reading inode size collected =>
          rw [stage] at sees
          obtain ⟨path, same, named, length, front⟩ := sees
          obtain ⟨rest, whole⟩ := front
          simp only [GetStage.advance]
          cases io.fails with
          | true => trivial
          | false =>
              have piece : (disk.files inode).volatile.drop collected.length = rest := by
                rw [← whole, List.drop_left]
              by_cases final : io.cut ≠ 0 ∧ rest.take io.cut = []
              · -- A read that finds nothing more has read the whole file.
                obtain ⟨-, bytes, sealed, complete⟩ :=
                  published.sealed path inode ⟨_, same⟩ (.inl named)
                obtain ⟨digest, blob', member⟩ := complete
                obtain rfl := blobPath_inj same blob'
                have ended : rest = [] := (List.take_eq_nil_iff.mp final.2).resolve_left final.1
                have content : collected = bytes := by
                  rw [sealed, ended, List.append_nil] at whole
                  exact whole
                simp only [piece, Bool.false_eq_true, if_false, if_pos final]
                exact ⟨content ▸ member, by rw [length, sealed, content]⟩
              · simp only [piece, Bool.false_eq_true, if_false, if_neg final]
                refine ⟨path, same, named, length, ?_⟩
                rw [← whole]
                exact List.prefix_append_right_inj _ |>.mpr (List.take_prefix _ _)
      | served size content =>
          rw [stage] at sees
          exact sees
      | absent => trivial
      | failed => trivial

namespace FileStore

structure Sound (store : FileStore) : Prop where
  published : store.tree.disk.Publishes IsBlobPath (Complete store.given)
  lasting : ∀ path inode, IsBlobPath path → store.tree.disk.durable path = some inode →
    store.tree.disk.names path = some inode
  fits : ∀ call ∈ store.puts, call.stage.Fits store.tree.disk call.source
  given : ∀ call ∈ store.puts, (call.digest, call.source) ∈ store.given
  apart : ∀ (i j : Nat) one other file file', store.puts[i]? = some one →
    store.puts[j]? = some other → i ≠ j → one.stage.own = some file →
    other.stage.own = some file' → file.2 ≠ file'.2
  answered : ∀ call ∈ store.puts, ∀ outcome, call.stage = .answered outcome →
    ∃ path inode, blobPath call.digest = some path ∧ store.tree.disk.names path = some inode
  once : ∀ (i j : Nat) one other, store.puts[i]? = some one → store.puts[j]? = some other →
    one.digest = other.digest → one.stage = .answered .created →
    other.stage = .answered .created → i = j
  sees : ∀ call ∈ store.gets, call.Sees store.tree.disk store.given

theorem start_sound : start.Sound where
  published := ⟨by simp [start, Disk.empty]⟩
  lasting := by simp [start, Disk.empty]
  fits := by simp [start]
  given := by simp [start]
  apart := by simp [start]
  answered := by simp [start]
  once := by simp [start]
  sees := by simp [start]

variable {store : FileStore}

theorem Complete.mono {given more : List (Digest × Bytes)} (grows : given ⊆ more)
    {path : StorePath} {bytes : Bytes} (complete : Complete given path bytes) :
    Complete more path bytes := by
  obtain ⟨digest, named, member⟩ := complete
  exact ⟨digest, named, grows member⟩

theorem beginPut_sound (sound : store.Sound) (digest : Digest) (source : Bytes) :
    (store.step (.beginPut digest source)).Sound where
  published := ⟨fun path inode finished reached => by
    obtain ⟨below, bytes, whole, complete⟩ := sound.published.sealed path inode finished reached
    exact ⟨below, bytes, whole, complete.mono (List.subset_append_left _ _)⟩⟩
  lasting := sound.lasting
  fits call member := by
    rcases List.mem_append.mp member with old | new
    · exact sound.fits call old
    · obtain rfl := List.mem_singleton.mp new
      trivial
  given call member := by
    rcases List.mem_append.mp member with old | new
    · exact List.mem_append_left _ (sound.given call old)
    · obtain rfl := List.mem_singleton.mp new
      exact List.mem_append_right _ (List.mem_singleton.mpr rfl)
  apart i j one other file file' first second different own own' := by
    rcases Concurrent.getElem?_snoc first with first | ⟨-, rfl⟩
    · rcases Concurrent.getElem?_snoc second with second | ⟨-, rfl⟩
      · exact sound.apart i j one other file file' first second different own own'
      · cases own'
    · cases own
  answered call member outcome ended := by
    rcases List.mem_append.mp member with old | new
    · exact sound.answered call old outcome ended
    · obtain rfl := List.mem_singleton.mp new
      cases ended
  once i j one other first second same created created' := by
    rcases Concurrent.getElem?_snoc first with first | ⟨-, rfl⟩
    · rcases Concurrent.getElem?_snoc second with second | ⟨-, rfl⟩
      · exact sound.once i j one other first second same created created'
      · cases created'
    · cases created
  sees call member := (sound.sees call member).keeps (fun _ _ _ named => ⟨named, rfl⟩)
    (List.subset_append_left _ _)

theorem beginGet_sound (sound : store.Sound) (digest : Digest) :
    (store.step (.beginGet digest)).Sound where
  published := sound.published
  lasting := sound.lasting
  fits := sound.fits
  given := sound.given
  apart := sound.apart
  answered := sound.answered
  once := sound.once
  sees call member := by
    rcases List.mem_append.mp member with old | new
    · exact sound.sees call old
    · obtain rfl := List.mem_singleton.mp new
      trivial

theorem getStep_sound (sound : store.Sound) {index : Nat} {call : GetCall}
    (found : store.gets[index]? = some call) (io : Io) : (store.getStep index call io).Sound where
  published := sound.published
  lasting := sound.lasting
  fits := sound.fits
  given := sound.given
  apart := sound.apart
  answered := sound.answered
  once := sound.once
  sees other member := by
    obtain ⟨place, present⟩ := List.getElem?_of_mem member
    rcases set_cases present with ⟨-, rfl⟩ | ⟨-, old⟩
    · exact call.advance_sees sound.published (sound.sees call (List.mem_of_getElem? found)) io
    · exact sound.sees other (List.mem_of_getElem? old)

/-- Replacing the tree and the stage of one put, with what the step must do for that. -/
theorem replace_sound (sound : store.Sound) {index : Nat} {call : PutCall} {tree : FileTree}
    {stage : PutStage} (found : store.puts[index]? = some call)
    (published : tree.disk.Publishes IsBlobPath (Complete store.given))
    (keeps : Disk.Keeps IsBlobPath store.tree.disk tree.disk)
    (durable : tree.disk.durable = store.tree.disk.durable)
    (others : ∀ file : StorePath × Nat, store.tree.disk.Holds IsBlobPath file.1 file.2 →
      (∀ mine : StorePath × Nat, call.stage.own = some mine → mine.2 ≠ file.2) →
      tree.disk.Holds IsBlobPath file.1 file.2 ∧
        tree.disk.files file.2 = store.tree.disk.files file.2)
    (fits : stage.Fits tree.disk call.source)
    (own : ∀ file, stage.own = some file →
      call.stage.own = some file ∨ file.2 = store.tree.disk.next)
    (answered : ∀ outcome, stage = .answered outcome → call.stage = .answered outcome ∨
      ∃ path, blobPath call.digest = some path ∧ (∃ inode, tree.disk.names path = some inode) ∧
        (outcome = .created → store.tree.disk.names path = none)) :
    Sound { store with tree := tree, puts := store.puts.set index { call with stage } } := by
  have mine := List.mem_of_getElem? found
  have apart (j : Nat) (other : PutCall) (present : store.puts[j]? = some other) (ne : j ≠ index)
      (file file' : StorePath × Nat) (new : stage.own = some file)
      (old : other.stage.own = some file') : file.2 ≠ file'.2 := by
    have held := (sound.fits other (List.mem_of_getElem? present)).holds old
    rcases own file new with same | fresh
    · exact sound.apart index j call other file file' found present ne.symm same old
    · exact fresh ▸ held.below.ne'
  have still (other : PutCall) (outcome : PutOutcome)
      (member : other ∈ store.puts) (ended : other.stage = .answered outcome) :
      ∃ path inode, blobPath other.digest = some path ∧ tree.disk.names path = some inode := by
    obtain ⟨path, inode, blob, named⟩ := sound.answered other member outcome ended
    exact ⟨path, inode, blob, (keeps path inode ⟨_, blob⟩ named).1⟩
  have alone (j : Nat) (other : PutCall) (present : store.puts[j]? = some other) (ne : j ≠ index)
      (same : call.digest = other.digest) (new : stage = .answered .created) :
      other.stage ≠ .answered .created := by
    intro old
    rcases answered .created new with before | ⟨path, blob, -, absent⟩
    · exact ne (sound.once index j call other found present same before old).symm
    · obtain ⟨path', inode, blob', named⟩ :=
        sound.answered other (List.mem_of_getElem? present) .created old
      rw [← same, blob] at blob'
      obtain rfl := Option.some.inj blob'
      cases (absent rfl).symm.trans named
  refine ⟨published, ?_, ?_, ?_, ?_, ?_, ?_, ?_⟩
  · intro path inode blob held
    exact (keeps path inode blob (sound.lasting path inode blob (durable ▸ held))).1
  · intro other member
    obtain ⟨j, present⟩ := List.getElem?_of_mem member
    rcases set_cases present with ⟨rfl, rfl⟩ | ⟨ne, old⟩
    · exact fits
    · refine (sound.fits other (List.mem_of_getElem? old)).of_same fun file held => ?_
      refine others file ((sound.fits other (List.mem_of_getElem? old)).holds held) ?_
      intro file' mine'
      exact sound.apart index j call other file' file found old ne.symm mine' held
  · intro other member
    rcases List.mem_or_eq_of_mem_set member with old | rfl
    · exact sound.given other old
    · exact sound.given call mine
  · intro i j one other file file' first second different new new'
    rcases set_cases first with ⟨rfl, rfl⟩ | ⟨ne, older⟩
    · rcases set_cases second with ⟨rfl, rfl⟩ | ⟨ne', older⟩
      · exact absurd rfl different
      · exact apart j other older ne' file file' new new'
    · rcases set_cases second with ⟨rfl, rfl⟩ | ⟨ne', older'⟩
      · exact (apart i one older ne file' file new' new).symm
      · exact sound.apart i j one other file file' older older' different new new'
  · intro other member outcome ended
    rcases List.mem_or_eq_of_mem_set member with old | rfl
    · exact still other outcome old ended
    · rcases answered outcome ended with old | ⟨path, blob, ⟨inode, named⟩, -⟩
      · exact still call outcome mine old
      · exact ⟨path, inode, blob, named⟩
  · intro i j one other first second same created created'
    rcases set_cases first with ⟨rfl, rfl⟩ | ⟨ne, older⟩
    · rcases set_cases second with ⟨rfl, rfl⟩ | ⟨ne', older⟩
      · rfl
      · exact absurd created' (alone j other older ne' same created)
    · rcases set_cases second with ⟨rfl, rfl⟩ | ⟨ne', older'⟩
      · exact absurd created (alone i one older ne same.symm created')
      · exact sound.once i j one other older older' same created created'
  · intro other member
    exact (sound.sees other member).keeps keeps (List.Subset.refl _)

theorem putStep_sound (sound : store.Sound) {index : Nat} {call : PutCall}
    (found : store.puts[index]? = some call) (io : Io) : (store.putStep index call io).Sound := by
  have mine := List.mem_of_getElem? found
  unfold putStep
  cases blob : blobPath call.digest with
  | none =>
      refine replace_sound sound found sound.published
        (fun _ _ _ named => ⟨named, rfl⟩) rfl (fun _ held _ => ⟨held, rfl⟩) trivial ?_ ?_
      · intro file own
        cases own
      · intro outcome ended
        cases ended
  | some destination =>
      have fits := sound.fits call mine
      have effect := PutStage.advance_effect destination io fits
      have complete : Complete store.given destination call.source :=
        ⟨call.digest, blob, sound.given call mine⟩
      refine replace_sound sound found (effect.published fits sound.published complete)
        (effect.keeps fits sound.published) effect.durable
        (fun file held apart => effect.others fits held apart)
        (PutStage.advance_fits sound.published fits) ?_ ?_
      · intro file own
        exact (PutStage.advance_own own).imp_right (·.2)
      · intro outcome ended
        rcases PutStage.advance_answered fits ⟨_, blob⟩ ended with same | ⟨present, absent⟩
        · exact .inl same
        · exact .inr ⟨destination, blob, present, absent⟩

theorem settle_sound (sound : store.Sound) (path : StorePath) :
    (store.step (.settle path)).Sound where
  published := sound.published.settle path
  lasting other inode blob durable := by
    simp only [step, FileTree.withDisk, Disk.settle, Function.update_apply] at durable
    split at durable
    next same => exact same ▸ durable
    next => exact sound.lasting other inode blob durable
  fits call member := (sound.fits call member).of_same fun _ own =>
    ⟨((sound.fits call member).holds own).settle path, rfl⟩
  given := sound.given
  apart := sound.apart
  answered := sound.answered
  once := sound.once
  sees := sound.sees

theorem crash_sound (sound : store.Sound) (lost : StorePath → Bool) :
    (store.step (.crash lost)).Sound where
  published := sound.published.crash _
  lasting _ _ _ durable := durable
  fits := by simp [step]
  given := by simp [step]
  apart := by simp [step]
  answered := by simp [step]
  once := by simp [step]
  sees := by simp [step]

theorem step_sound (sound : store.Sound) (move : FileMove) : (store.step move).Sound := by
  cases move with
  | beginPut digest source => exact beginPut_sound sound digest source
  | beginGet digest => exact beginGet_sound sound digest
  | put index io =>
      simp only [step]
      split
      next call found => exact putStep_sound sound found io
      next => exact sound
  | get index io =>
      simp only [step]
      split
      next call found => exact getStep_sound sound found io
      next => exact sound
  | settle path => exact settle_sound sound path
  | crash lost => exact crash_sound sound lost

theorem run_sound (sound : store.Sound) (moves : List FileMove) : (store.run moves).Sound := by
  induction moves generalizing store with
  | nil => exact sound
  | cons move rest ih => exact ih (step_sound sound move)

def read (store : FileStore) (path : StorePath) : Option Bytes := store.tree.disk.read path

theorem Sound.read_complete (sound : store.Sound) {digest : Digest} {path : StorePath}
    {bytes : Bytes} (blob : blobPath digest = some path) (shown : store.read path = some bytes) :
    (digest, bytes) ∈ store.given := by
  obtain ⟨inode, named, rfl⟩ := Option.map_eq_some_iff.mp shown
  obtain ⟨-, bytes, whole, digest', blob', member⟩ :=
    sound.published.sealed path inode ⟨digest, blob⟩ (.inl named)
  rw [blobPath_inj blob blob', whole]
  exact member

theorem Sound.putStep_keeps (sound : store.Sound) {index : Nat} {call : PutCall}
    (found : store.puts[index]? = some call) (io : Io) :
    Disk.Keeps IsBlobPath store.tree.disk (store.putStep index call io).tree.disk := by
  unfold putStep
  split
  next => exact fun _ _ _ named => ⟨named, rfl⟩
  next destination blob =>
    have fits := sound.fits call (List.mem_of_getElem? found)
    exact (PutStage.advance_effect destination io fits).keeps fits sound.published

theorem read_keeps {after : FileStore} (keeps : Disk.Keeps IsBlobPath store.tree.disk after.tree.disk)
    {path : StorePath} {bytes : Bytes} (blob : IsBlobPath path)
    (shown : store.read path = some bytes) : after.read path = some bytes := by
  obtain ⟨inode, named, rfl⟩ := Option.map_eq_some_iff.mp shown
  obtain ⟨still, same⟩ := keeps path inode blob named
  simp only [read, Disk.read, still, Option.map_some, same]

/-- After a crash a name shows what it showed, or nothing. -/
theorem Sound.crash_read (sound : store.Sound) (lost : StorePath → Bool) {path : StorePath}
    (blob : IsBlobPath path) :
    (store.step (.crash lost)).read path = none ∨
      (store.step (.crash lost)).read path = store.read path := by
  cases durable : store.tree.disk.durable path with
  | none =>
      left
      simp [read, Disk.read, step, Disk.crash, durable]
  | some inode =>
      right
      have named := sound.lasting path inode blob durable
      obtain ⟨-, bytes, whole, -⟩ := sound.published.sealed path inode blob (.inl named)
      simp [read, Disk.read, step, Disk.crash, durable, named, whole, blobPath_lasting blob]

theorem Sound.step_read (sound : store.Sound) (move : FileMove) {path : StorePath} {bytes : Bytes}
    (blob : IsBlobPath path) (shown : store.read path = some bytes) :
    (store.step move).read path = none ∨ (store.step move).read path = some bytes := by
  cases move with
  | put index io =>
      right
      simp only [step]
      split
      next call found => exact read_keeps (sound.putStep_keeps found io) blob shown
      next => exact shown
  | get index io =>
      right
      simp only [step]
      split <;> exact shown
  | crash lost => exact shown ▸ sound.crash_read lost blob
  | beginPut digest source => exact .inr shown
  | beginGet digest => exact .inr shown
  | settle other => exact .inr shown

/-- What a name shows does not change as long as it shows anything. -/
theorem Sound.run_read (sound : store.Sound) {path : StorePath} {bytes : Bytes}
    (blob : IsBlobPath path) (shown : store.read path = some bytes) (moves : List FileMove)
    (present : ∀ front, front <+: moves → (store.run front).read path ≠ none) :
    (store.run moves).read path = some bytes := by
  induction moves generalizing store with
  | nil => exact shown
  | cons move rest ih =>
      have there := present [move] (List.prefix_append [move] rest)
      refine ih (step_sound sound move) ?_ fun front inside => ?_
      · exact (sound.step_read move blob shown).resolve_left there
      · exact present (move :: front) (List.prefix_cons_inj move |>.mpr inside)

theorem sees_whole {call : GetCall} (sees : call.Sees store.tree.disk store.given)
    (sound : store.Sound) :
    (∀ inode size collected, call.stage = .reading inode size collected →
      ∃ bytes, (call.digest, bytes) ∈ store.given ∧ size = bytes.length ∧ collected <+: bytes) ∧
    ∀ size content, call.stage = .served size content →
      (call.digest, content) ∈ store.given ∧ size = content.length := by
  unfold GetCall.Sees at sees
  constructor
  · intro inode size collected stage
    rw [stage] at sees
    obtain ⟨path, blob, named, length, front⟩ := sees
    have shown : store.read path = some (store.tree.disk.files inode).volatile := by
      simp only [read, Disk.read, named, Option.map_some]
    exact ⟨_, sound.read_complete blob shown, length, front⟩
  · intro size content stage
    rw [stage] at sees
    exact sees

/-- Over any interleaving of puts, gets and crashes, a blob is published whole or not at all,
stays as it is while it is there, and is created by one put at most until the next crash. -/
theorem publication_atomic (moves : List FileMove) :
    let store := start.run moves
    (∀ digest path bytes, blobPath digest = some path → store.read path = some bytes →
      (digest, bytes) ∈ store.given) ∧
    (∀ call ∈ store.gets,
      (∀ inode size collected, call.stage = .reading inode size collected →
        ∃ bytes, (call.digest, bytes) ∈ store.given ∧ size = bytes.length ∧ collected <+: bytes) ∧
      ∀ size content, call.stage = .served size content →
        (call.digest, content) ∈ store.given ∧ size = content.length) ∧
    (∀ lost digest path, blobPath digest = some path →
      (store.step (.crash lost)).read path = none ∨
        ∃ bytes, (store.step (.crash lost)).read path = some bytes ∧
          (digest, bytes) ∈ store.given) ∧
    (∀ digest path bytes more, blobPath digest = some path → store.read path = some bytes →
      (∀ front, front <+: more → (store.run front).read path ≠ none) →
      (store.run more).read path = some bytes) ∧
    (∀ (i j : Nat) one other, store.puts[i]? = some one → store.puts[j]? = some other →
      one.digest = other.digest → one.stage = .answered .created →
      other.stage = .answered .created → i = j) ∧
    ∀ call ∈ store.puts, ∀ outcome, call.stage = .answered outcome →
      ∃ path, blobPath call.digest = some path ∧ (store.read path).isSome := by
  intro store
  have sound : store.Sound := run_sound start_sound moves
  refine ⟨fun digest path bytes blob shown => sound.read_complete blob shown, ?_, ?_, ?_,
    sound.once, ?_⟩
  · intro call member
    exact sees_whole (sound.sees call member) sound
  · intro lost digest path blob
    cases shown : (store.step (.crash lost)).read path with
    | none => exact .inl rfl
    | some bytes =>
        exact .inr ⟨bytes, rfl, (step_sound sound (.crash lost)).read_complete blob shown⟩
  · intro digest path bytes more blob shown present
    exact sound.run_read ⟨digest, blob⟩ shown more present
  · intro call member outcome ended
    obtain ⟨path, inode, blob, named⟩ := sound.answered call member outcome ended
    refine ⟨path, blob, ?_⟩
    simp only [read, Disk.read, named, Option.map_some, Option.isSome_some]

/-- Two puts of one blob that both found nothing. -/
example :
    let digest : Digest := ⟨"blake3", String.ofList (List.replicate 64 'a'), 1⟩
    let io (random : String) : Io := ⟨false, false, random, 1, true⟩
    let steps (index : Nat) (random : String) := List.replicate 7 (FileMove.put index (io random))
    (start.run ([.beginPut digest [7], .beginPut digest [7], .put 0 (io "0"), .put 1 (io "1")] ++
      steps 1 "1" ++ steps 0 "0")).puts.map (·.stage) =
        [.answered .alreadyExists, .answered .created] := by
  decide +kernel

end FileStore

end MbxCache
