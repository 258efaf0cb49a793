import MbxCache.Storage.FilesystemRuns

namespace MbxCache

open Durable

def FileTree.objects (tree : FileTree) : Objects :=
  fun digest => (blobPath digest).bind tree.disk.read

section
variable {digest : Digest} {source : Bytes} {destination : StorePath} {io : Io}
  {tree : FileTree} {good : StorePath → Bytes → Prop}

theorem FileTree.objects_read (tree : FileTree) (blob : blobPath digest = some destination) :
    tree.objects digest = tree.disk.read destination := by
  simp only [FileTree.objects, blob, Option.bind_some]

theorem FileTree.objects_same {after : FileTree}
    (same : ∀ path, IsBlobPath path → after.disk.read path = tree.disk.read path) :
    after.objects = tree.objects := by
  funext digest
  cases blob : blobPath digest with
  | none => simp only [FileTree.objects, blob, Option.bind_none]
  | some path =>
      rw [after.objects_read blob, tree.objects_read blob, same path ⟨digest, blob⟩]

theorem FileTree.objects_filled {after : FileTree} (blob : blobPath digest = some destination)
    (fills : ∀ path, IsBlobPath path →
      after.disk.read path = Function.update tree.disk.read destination (some source) path) :
    after.objects = Function.update tree.objects digest (some source) := by
  funext other
  by_cases same : other = digest
  · subst same
    rw [after.objects_read blob, fills destination ⟨other, blob⟩, Function.update_self,
      Function.update_self]
  · rw [Function.update_of_ne same]
    cases found : blobPath other with
    | none => simp only [FileTree.objects, found, Option.bind_none]
    | some path =>
        have apart : path ≠ destination := fun equal => same (blobPath_inj found (equal ▸ blob))
        rw [after.objects_read found, tree.objects_read found, fills path ⟨other, found⟩,
          Function.update_of_ne apart]

end

namespace PutStage

variable {digest : Digest} {source : Bytes} {destination : StorePath} {io : Io} {tree : FileTree}
  {stage : PutStage} {good : StorePath → Bytes → Prop}

def renames (io : Io) : PutStage → Bool
  | .publishing _ _ => !(io.fails && !io.effective)
  | .checking | .makingDirs | .creating | .opening _ _ | .copying _ _ _ _ | .syncing _ _
  | .answered _ | .failed => false

inductive Turns (digest : Digest) (source : Bytes) (stage : PutStage) (io : Io)
    (before after : Objects) (next : PutStage) : Prop
  | still (same : after = before)
      (told : ∀ outcome, next = .answered outcome → stage = .answered outcome ∨
        (outcome = .alreadyExists ∧ (before digest).isSome))
  | filled (absent : before digest = none)
      (fills : after = Function.update before digest (some source))
      (renames : stage.renames io = true) (ends : next = .answered .created ∨ next = .failed)

theorem advance_turns (published : tree.disk.Publishes IsBlobPath good)
    (fits : stage.Fits tree.disk source) (blob : blobPath digest = some destination) :
    Turns digest source stage io tree.objects (stage.advance source destination io tree).1.objects
      (stage.advance source destination io tree).2 := by
  have lasting : IsBlobPath destination := ⟨digest, blob⟩
  cases advance_effect destination io fits with
  | careful careful =>
      refine .still (FileTree.objects_same fun path final =>
        careful.read published (fun file own => fits.holds own) final) fun outcome ended => ?_
      rcases advance_answered fits lasting ended with before | ⟨⟨inode, present⟩, fresh⟩
      · exact .inl before
      · have named := careful.added destination inode lasting present
        refine .inr ⟨?_, ?_⟩
        · cases outcome with
          | alreadyExists => rfl
          | created =>
              rw [fresh rfl] at named
              cases named
        · simp only [tree.objects_read blob, Disk.read, named, Option.map_some, Option.isSome_some]
  | publish staging inode ready absent moved =>
      subst ready
      obtain ⟨holds, whole⟩ := fits
      have renamed : tree.disk.rename staging destination =
          .ok (tree.disk.move staging destination inode) :=
        Disk.rename_ok.mpr ⟨inode, holds.named, absent, rfl⟩
      have missing : tree.objects digest = none := by
        simp only [tree.objects_read blob, Disk.read, absent, Option.map_none]
      cases gone : io.fails && !io.effective with
      | true =>
          -- A put that drops its file does not give it a name.
          simp only [advance, gone, if_true] at moved
          have named := (drop_careful tree staging inode io).added destination inode lasting
            (moved ▸ Function.update_self ..)
          rw [absent] at named
          cases named
      | false =>
          refine .filled missing (FileTree.objects_filled blob fun path final => ?_)
            (by simp only [renames, gone, Bool.not_false]) ?_
          · rw [moved, holds.move_read final, whole]
          · simp only [advance, gone, renamed, Bool.false_eq_true, if_false]
            cases io.fails with
            | true => exact .inr rfl
            | false => exact .inl rfl

end PutStage

namespace GetStage

def open? : GetStage → Bool
  | .opening | .sizing _ | .reading _ _ _ | .failed => true
  | .served _ _ | .absent => false

def Tells (found : Option Bytes) : GetStage → Prop
  | .reading _ size collected =>
      ∃ bytes, found = some bytes ∧ size = bytes.length ∧ collected <+: bytes
  | .served size content => found = some content ∧ size = content.length
  | .absent => found = none
  | .opening | .sizing _ | .failed => True

end GetStage

namespace GetCall

variable {tree : FileTree} {given : List (Digest × Bytes)} {call : GetCall}
  {destination : StorePath}

theorem Sees.tells (sees : call.Sees tree.disk given) (going : call.stage.open? = true) :
    call.stage.Tells (tree.objects call.digest) := by
  unfold Sees at sees
  cases stage : call.stage with
  | reading inode size collected =>
      rw [stage] at sees
      obtain ⟨path, blob, named, length, front⟩ := sees
      refine ⟨_, ?_, length, front⟩
      simp only [tree.objects_read blob, Disk.read, named, Option.map_some]
  | served size content =>
      rw [stage] at going
      cases going
  | absent =>
      rw [stage] at going
      cases going
  | _ => trivial

theorem Sees.advance_tells (sees : call.Sees tree.disk given) (going : call.stage.open? = true)
    (blob : blobPath call.digest = some destination) (io : Io) :
    (call.stage.advance destination io tree.disk).Tells (tree.objects call.digest) := by
  rw [tree.objects_read blob]
  unfold Sees at sees
  cases stage : call.stage with
  | opening =>
      simp only [GetStage.advance]
      cases io.fails with
      | true => trivial
      | false =>
          cases named : tree.disk.names destination with
          | none => simp [GetStage.Tells, Disk.read, named]
          | some inode => trivial
  | sizing inode =>
      rw [stage] at sees
      obtain ⟨path, same, named⟩ := sees
      obtain rfl := Option.some.inj (blob.symm.trans same)
      simp only [GetStage.advance]
      cases io.fails with
      | true => trivial
      | false =>
          exact ⟨_, by simp only [Disk.read, named, Option.map_some], rfl, List.nil_prefix⟩
  | reading inode size collected =>
      rw [stage] at sees
      obtain ⟨path, same, named, length, rest, whole⟩ := sees
      obtain rfl := Option.some.inj (blob.symm.trans same)
      have shown : tree.disk.read destination = some (tree.disk.files inode).volatile := by
        simp only [Disk.read, named, Option.map_some]
      have piece : (tree.disk.files inode).volatile.drop collected.length = rest := by
        rw [← whole, List.drop_left]
      simp only [GetStage.advance]
      cases io.fails with
      | true => trivial
      | false =>
          by_cases final : io.cut ≠ 0 ∧ rest.take io.cut = []
          · have ended : rest = [] := (List.take_eq_nil_iff.mp final.2).resolve_left final.1
            rw [ended, List.append_nil] at whole
            simp only [piece, Bool.false_eq_true, if_false, if_pos final, GetStage.Tells, shown]
            exact ⟨by rw [whole], by rw [length, whole]⟩
          · simp only [piece, Bool.false_eq_true, if_false, if_neg final]
            refine ⟨_, shown, length, ?_⟩
            rw [← whole]
            exact List.prefix_append_right_inj _ |>.mpr (List.take_prefix _ _)
  | failed => trivial
  | served size content =>
      rw [stage] at going
      cases going
  | absent =>
      rw [stage] at going
      cases going

end GetCall

namespace FileStore

variable {store : FileStore}

theorem Sound.putStep_turns (sound : store.Sound) {index : Nat} {call : PutCall}
    (found : store.puts[index]? = some call) (io : Io) :
    ∃ next, (store.putStep index call io).puts[index]? = some { call with stage := next } ∧
      PutStage.Turns call.digest call.source call.stage io store.tree.objects
        (store.putStep index call io).tree.objects next := by
  have within := (List.getElem?_eq_some_iff.mp found).1
  unfold putStep
  cases blob : blobPath call.digest with
  | none =>
      exact ⟨.failed, List.getElem?_set_self within, .still rfl fun outcome ended => by cases ended⟩
  | some destination =>
      exact ⟨_, List.getElem?_set_self within, PutStage.advance_turns sound.published
        (sound.fits call (List.mem_of_getElem? found)) blob⟩

theorem Sound.getStep_tells (sound : store.Sound) {index : Nat} {call : GetCall}
    (found : store.gets[index]? = some call) (going : call.stage.open? = true) (io : Io) :
    ∃ next, (store.getStep index call io).gets[index]? = some { call with stage := next } ∧
      next.Tells (store.tree.objects call.digest) ∧
      call.stage.Tells (store.tree.objects call.digest) := by
  have within := (List.getElem?_eq_some_iff.mp found).1
  have sees := sound.sees call (List.mem_of_getElem? found)
  unfold getStep
  cases blob : blobPath call.digest with
  | none => exact ⟨.failed, List.getElem?_set_self within, trivial, sees.tells going⟩
  | some destination =>
      exact ⟨_, List.getElem?_set_self within, sees.advance_tells going blob io, sees.tells going⟩

end FileStore
end MbxCache
