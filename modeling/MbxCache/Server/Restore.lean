import Mathlib.Data.Fintype.EquivFin
import Mathlib.Data.Fintype.Sets
import MbxCache.Server.TreeWalk

namespace MbxCache

open Concurrent

inductive PlacedKind
  | directory
  | file
  | symlink (target : String)
  deriving DecidableEq, Repr

structure Placed where
  path : List String
  mode : UInt32
  kind : PlacedKind
  deriving DecidableEq, Repr

namespace Placed

def under (name : String) (placed : Placed) : Placed := { placed with path := name :: placed.path }

end Placed

/-- What each entry of a directory places, given what lies below a directory digest. -/
def Directory.blocks (directory : Directory) (below : Digest → List Placed) :
    List (String × List Placed) :=
  (directory.directories.map fun node =>
    (node.name, ⟨[node.name], node.mode, .directory⟩ ::
      (below node.digest).map (Placed.under node.name))) ++
  (directory.files.map fun node => (node.name, [⟨[node.name], node.mode, .file⟩])) ++
  (directory.symlinks.map fun node =>
    (node.name, [⟨[node.name], node.mode, .symlink node.target⟩]))

def unfold [Protocol] (objects : Objects) : Nat → Digest → List Placed
  | 0, _ => []
  | depth + 1, digest =>
      match directoryAt objects digest with
      | none => []
      | some directory => (directory.blocks (unfold objects depth)).flatMap Prod.snd

/-- A path component that names something in its directory and nothing else. -/
def SafeName (name : String) : Prop :=
  name ≠ "" ∧ name ≠ "." ∧ name ≠ ".." ∧ '/' ∉ name.toList ∧ '\\' ∉ name.toList ∧
    '\x00' ∉ name.toList

structure SafePlaced (placed : Placed) : Prop where
  path : placed.path ≠ []
  names : ∀ name ∈ placed.path, SafeName name
  mode : placed.mode.toNat ≤ 4095
  target : ∀ target, placed.kind = .symlink target → target ≠ "" ∧ '\x00' ∉ target.toList

/-- Things placed without collision, and none beneath a file or through a symlink. -/
structure Restorable (tree : List Placed) : Prop where
  distinct : (tree.map Placed.path).Nodup
  leaves : ∀ leaf ∈ tree, leaf.kind ≠ .directory → ∀ other ∈ tree,
    leaf.path <+: other.path → other.path = leaf.path
  safe : ∀ placed ∈ tree, SafePlaced placed

def UnfoldsTo [Protocol] (objects : Objects) (root : Digest) (tree : List Placed) : Prop :=
  ∃ depth, ∀ more, depth ≤ more → unfold objects more root = tree

section Entries

theorem validateEntry_ok {names after : List String} {name : String} {mode : UInt32}
    (checked : validateEntry names name mode = .ok after) :
    SafeName name ∧ mode.toNat ≤ 4095 ∧ name ∉ names ∧ after = name :: names := by
  unfold validateEntry at checked
  split at checked
  · cases checked
  · rename_i safe
    split at checked
    · cases checked
    · rename_i fresh
      cases checked
      simp only [Bool.or_eq_true, decide_eq_true_eq, List.contains_iff_mem, not_or,
        Nat.not_lt] at safe
      obtain ⟨⟨⟨⟨⟨⟨empty, dot⟩, dots⟩, slash⟩, backslash⟩, nul⟩, mode⟩ := safe
      exact ⟨⟨empty, dot, dots, slash, backslash, nul⟩, mode, by simpa using fresh, rfl⟩

theorem validateEntries_ok {entries : List (String × UInt32)} {names after : List String}
    (checked : validateEntries entries names = .ok after) :
    after = (entries.map Prod.fst).reverse ++ names ∧ (names.Nodup → after.Nodup) ∧
      ∀ entry ∈ entries, SafeName entry.1 ∧ entry.2.toNat ≤ 4095 := by
  induction entries generalizing names with
  | nil =>
      cases checked
      exact ⟨rfl, fun distinct => distinct, fun entry member => by cases member⟩
  | cons entry rest ih =>
      obtain ⟨name, mode⟩ := entry
      simp only [validateEntries, bind, Except.bind] at checked
      split at checked
      · cases checked
      · rename_i one
        obtain ⟨safe, permitted, fresh, rfl⟩ := validateEntry_ok one
        obtain ⟨same, distinct, others⟩ := ih checked
        refine ⟨by simp [same], fun before => distinct (List.nodup_cons.mpr ⟨fresh, before⟩), ?_⟩
        intro other member
        rcases List.mem_cons.mp member with rfl | later
        · exact ⟨safe, permitted⟩
        · exact others other later

theorem validateSymlinks_ok {symlinks : List SymlinkNode} {names : List String}
    (checked : validateSymlinks symlinks names = .ok ()) (distinct : names.Nodup) :
    ((symlinks.map (·.name)).reverse ++ names).Nodup ∧
      ∀ node ∈ symlinks, SafeName node.name ∧ node.mode.toNat ≤ 4095 ∧ node.target ≠ "" ∧
        '\x00' ∉ node.target.toList := by
  induction symlinks generalizing names with
  | nil => exact ⟨distinct, fun node member => by cases member⟩
  | cons node rest ih =>
      simp only [validateSymlinks, bind, Except.bind] at checked
      split at checked
      · cases checked
      · rename_i one
        split at checked
        · cases checked
        · rename_i target
          obtain ⟨safe, permitted, fresh, rfl⟩ := validateEntry_ok one
          obtain ⟨all, others⟩ := ih checked (List.nodup_cons.mpr ⟨fresh, distinct⟩)
          refine ⟨by simpa using all, ?_⟩
          intro other member
          rcases List.mem_cons.mp member with rfl | later
          · simp only [Bool.or_eq_true, decide_eq_true_eq, List.contains_iff_mem, not_or] at target
            exact ⟨safe, permitted, target⟩
          · exact others other later

def Directory.names (directory : Directory) : List String :=
  directory.directories.map (·.name) ++ directory.files.map (·.name) ++
    directory.symlinks.map (·.name)

structure SafeDirectory (directory : Directory) : Prop where
  distinct : directory.names.Nodup
  directories : ∀ node ∈ directory.directories, SafeName node.name ∧ node.mode.toNat ≤ 4095
  files : ∀ node ∈ directory.files, SafeName node.name ∧ node.mode.toNat ≤ 4095
  symlinks : ∀ node ∈ directory.symlinks, SafeName node.name ∧ node.mode.toNat ≤ 4095 ∧
    node.target ≠ "" ∧ '\x00' ∉ node.target.toList

theorem validateDirectoryEntries_ok {directory : Directory}
    (checked : validateDirectoryEntries directory = .ok ()) : SafeDirectory directory := by
  simp only [validateDirectoryEntries, bind, Except.bind] at checked
  split at checked
  · cases checked
  · rename_i first one
    split at checked
    · cases checked
    · rename_i second other
      obtain ⟨rfl, distinct, directories⟩ := validateEntries_ok one
      obtain ⟨rfl, distinct', files⟩ := validateEntries_ok other
      obtain ⟨all, symlinks⟩ := validateSymlinks_ok checked (distinct' (distinct List.nodup_nil))
      simp only [List.map_map, List.append_nil, List.forall_mem_map] at all directories files
      refine ⟨?_, directories, files, symlinks⟩
      have reversed := List.nodup_reverse.mpr all
      simpa [Directory.names, Function.comp_def] using reversed

end Entries

section Blocks
variable {blocks : List (String × List Placed)}

def Rooted (blocks : List (String × List Placed)) : Prop :=
  ∀ block ∈ blocks, ∀ placed ∈ block.2, placed.path.head? = some block.1

theorem mem_block {placed : Placed} (member : placed ∈ blocks.flatMap Prod.snd) :
    ∃ block ∈ blocks, placed ∈ block.2 := List.mem_flatMap.mp member

theorem same_block (names : (blocks.map Prod.fst).Nodup) {one other : String × List Placed}
    (first : one ∈ blocks) (second : other ∈ blocks) (same : one.1 = other.1) : one = other :=
  List.inj_on_of_nodup_map names first second same

theorem blocks_distinct (names : (blocks.map Prod.fst).Nodup) (rooted : Rooted blocks)
    (each : ∀ block ∈ blocks, (block.2.map Placed.path).Nodup) :
    ((blocks.flatMap Prod.snd).map Placed.path).Nodup := by
  induction blocks with
  | nil => exact List.nodup_nil
  | cons block rest ih =>
      rw [List.map_cons, List.nodup_cons] at names
      rw [List.flatMap_cons, List.map_append]
      refine List.Nodup.append (each block List.mem_cons_self)
        (ih names.2 (fun other member => rooted other (List.mem_cons_of_mem _ member))
          fun other member => each other (List.mem_cons_of_mem _ member)) ?_
      intro path here there
      obtain ⟨placed, member, rfl⟩ := List.mem_map.mp here
      obtain ⟨other, elsewhere, same⟩ := List.mem_map.mp there
      obtain ⟨block', member', inside⟩ := mem_block elsewhere
      have head := rooted block List.mem_cons_self placed member
      have head' := rooted block' (List.mem_cons_of_mem _ member') other inside
      rw [same, head] at head'
      exact names.1 (Option.some.inj head' ▸ List.mem_map_of_mem member')

/-- Things of distinct names do not lie beneath each other, so what holds within each
block holds of all of them. -/
theorem blocks_restorable (names : (blocks.map Prod.fst).Nodup) (rooted : Rooted blocks)
    (each : ∀ block ∈ blocks, Restorable block.2) : Restorable (blocks.flatMap Prod.snd) where
  distinct := blocks_distinct names rooted fun block member => (each block member).distinct
  leaves leaf member file other member' beneath := by
    obtain ⟨block, first, inside⟩ := mem_block member
    obtain ⟨block', second, inside'⟩ := mem_block member'
    have head := rooted block first leaf inside
    have head' := rooted block' second other inside'
    obtain ⟨rest, spelled⟩ := beneath
    have same : block.1 = block'.1 := by
      rw [← spelled, List.head?_append_of_ne_nil, head] at head'
      · exact Option.some.inj head'
      · exact fun empty => by simp [empty] at head
    obtain rfl := same_block names first second same
    exact (each block first).leaves leaf inside file other inside' ⟨rest, spelled⟩
  safe placed member := by
    obtain ⟨block, first, inside⟩ := mem_block member
    exact (each block first).safe placed inside

theorem single_restorable {placed : Placed} (safe : SafePlaced placed) : Restorable [placed] where
  distinct := List.nodup_singleton _
  leaves leaf member _ other member' _ := by
    rw [List.mem_singleton.mp member, List.mem_singleton.mp member']
  safe other member := List.mem_singleton.mp member ▸ safe

theorem SafePlaced.under {placed : Placed} {name : String} (safe : SafePlaced placed)
    (named : SafeName name) : SafePlaced (placed.under name) where
  path := by simp [Placed.under]
  names other member := by
    rcases List.mem_cons.mp member with rfl | deeper
    · exact named
    · exact safe.names other deeper
  mode := safe.mode
  target := safe.target

theorem directory_restorable {name : String} {mode : UInt32} {below : List Placed}
    (named : SafeName name) (permitted : mode.toNat ≤ 4095) (restorable : Restorable below) :
    Restorable (⟨[name], mode, .directory⟩ :: below.map (Placed.under name)) where
  distinct := by
    have paths : (below.map (Placed.under name)).map Placed.path =
        (below.map Placed.path).map (name :: ·) := by
      simp [Placed.under, Function.comp_def]
    rw [List.map_cons, paths, List.nodup_cons]
    constructor
    · intro member
      obtain ⟨path, found, same⟩ := List.mem_map.mp member
      obtain ⟨placed, deeper, rfl⟩ := List.mem_map.mp found
      exact (restorable.safe placed deeper).path (List.cons.inj same).2
    · exact restorable.distinct.map fun one other same => (List.cons.inj same).2
  leaves leaf member file other member' beneath := by
    rcases List.mem_cons.mp member with rfl | deeper
    · exact absurd rfl file
    · obtain ⟨placed, inside, rfl⟩ := List.mem_map.mp deeper
      rcases List.mem_cons.mp member' with rfl | deeper'
      · have empty := (List.cons_prefix_cons.mp beneath).2
        exact absurd (List.prefix_nil.mp empty) (restorable.safe placed inside).path
      · obtain ⟨placed', inside', rfl⟩ := List.mem_map.mp deeper'
        have same := restorable.leaves placed inside file placed' inside'
          (List.cons_prefix_cons.mp beneath).2
        simp [Placed.under, same]
  safe placed member := by
    rcases List.mem_cons.mp member with rfl | deeper
    · refine ⟨by simp, fun other found => ?_, permitted, fun target wrong => by cases wrong⟩
      rw [List.mem_singleton.mp found]
      exact named
    · obtain ⟨inner, inside, rfl⟩ := List.mem_map.mp deeper
      exact (restorable.safe inner inside).under named

end Blocks

section Directories
variable {directory : Directory}

theorem blocks_names (directory : Directory) (below : Digest → List Placed) :
    (directory.blocks below).map Prod.fst = directory.names := by
  simp [Directory.blocks, Directory.names, Function.comp_def]

theorem blocks_rooted (directory : Directory) (below : Digest → List Placed) :
    Rooted (directory.blocks below) := by
  intro block member placed inside
  simp only [Directory.blocks, List.mem_append, List.mem_map] at member
  rcases member with (⟨node, _, rfl⟩ | ⟨node, _, rfl⟩) | ⟨node, _, rfl⟩
  · rcases List.mem_cons.mp inside with rfl | deeper
    · rfl
    · obtain ⟨inner, _, rfl⟩ := List.mem_map.mp deeper
      rfl
  · rw [List.mem_singleton.mp inside]
    rfl
  · rw [List.mem_singleton.mp inside]
    rfl

theorem SafeDirectory.restorable (safe : SafeDirectory directory) {below : Digest → List Placed}
    (deeper : ∀ node ∈ directory.directories, Restorable (below node.digest)) :
    Restorable ((directory.blocks below).flatMap Prod.snd) := by
  apply blocks_restorable (by rw [blocks_names]; exact safe.distinct) (blocks_rooted _ _)
  intro block member
  have leaf : ∀ name mode kind, SafeName name → mode.toNat ≤ 4095 →
      (∀ target, kind = PlacedKind.symlink target → target ≠ "" ∧ '\x00' ∉ target.toList) →
      Restorable [⟨[name], mode, kind⟩] := by
    intro name mode kind named permitted target
    refine single_restorable ⟨by simp, fun other found => ?_, permitted, target⟩
    rw [List.mem_singleton.mp found]
    exact named
  simp only [Directory.blocks, List.mem_append, List.mem_map] at member
  rcases member with (⟨node, member, rfl⟩ | ⟨node, member, rfl⟩) | ⟨node, member, rfl⟩
  · obtain ⟨named, permitted⟩ := safe.directories node member
    exact directory_restorable named permitted (deeper node member)
  · obtain ⟨named, permitted⟩ := safe.files node member
    exact leaf node.name node.mode .file named permitted fun target wrong => by cases wrong
  · obtain ⟨named, permitted, given, clean⟩ := safe.symlinks node member
    refine leaf node.name node.mode _ named permitted fun target same => ?_
    cases same
    exact ⟨given, clean⟩

end Directories


theorem blocks_congr {directory : Directory} {below deeper : Digest → List Placed}
    (same : ∀ node ∈ directory.directories, below node.digest = deeper node.digest) :
    directory.blocks below = directory.blocks deeper := by
  unfold Directory.blocks
  congr 2
  apply List.map_congr_left
  intro node member
  rw [same node member]

theorem common_depth {α : Type} {items : List α} {stable : α → Nat → Prop}
    (each : ∀ item ∈ items, ∃ depth, ∀ more, depth ≤ more → stable item more) :
    ∃ depth, ∀ item ∈ items, ∀ more, depth ≤ more → stable item more := by
  induction items with
  | nil => exact ⟨0, fun item member => by cases member⟩
  | cons item rest ih =>
      obtain ⟨one, first⟩ := each item List.mem_cons_self
      obtain ⟨two, others⟩ := ih fun other member => each other (List.mem_cons_of_mem _ member)
      refine ⟨max one two, fun other member more deep => ?_⟩
      rcases List.mem_cons.mp member with rfl | later
      · exact first more ((Nat.le_max_left one two).trans deep)
      · exact others other later more ((Nat.le_max_right one two).trans deep)

section Trees
variable [Protocol] {M : Type} [MetadataStore M] {state : ServerState M} {ns : String}
  {root : Digest}

theorem unfold_restorable (tree : ValidTree state ns root) (depth : Nat) (digest : Digest)
    (reached : Reaches state.blobs root digest) : Restorable (unfold state.blobs depth digest) := by
  induction depth generalizing digest with
  | zero => exact ⟨List.nodup_nil, by simp [unfold], by simp [unfold]⟩
  | succ depth ih =>
      obtain ⟨directory, good⟩ := tree.good digest reached
      simp only [unfold, good.at]
      apply (validateDirectoryEntries_ok good.entries).restorable
      intro node member
      exact ih node.digest (.child reached good.at member)

/-- An unfolding without cycles ends. -/
theorem unfold_ends {objects : Objects} {digest : Digest}
    (settled : Acc (fun child parent => Child objects parent child) digest) :
    ∃ tree, UnfoldsTo objects digest tree := by
  induction settled with
  | intro digest _ ih =>
      cases stored : directoryAt objects digest with
      | none =>
          refine ⟨[], 0, fun more _ => ?_⟩
          cases more with
          | zero => rfl
          | succ more => simp only [unfold, stored]
      | some directory =>
          have limits : ∀ child, ∃ tree, Child objects digest child →
              UnfoldsTo objects child tree := by
            intro child
            by_cases named : Child objects digest child
            · obtain ⟨tree, ends⟩ := ih child named
              exact ⟨tree, fun _ => ends⟩
            · exact ⟨[], fun wrong => absurd wrong named⟩
          choose limit ends using limits
          have each : ∀ node ∈ directory.directories, ∃ depth, ∀ more, depth ≤ more →
              unfold objects more node.digest = limit node.digest := by
            intro node member
            exact ends node.digest ⟨directory, stored, node, member, rfl⟩
          obtain ⟨depth, all⟩ := common_depth each
          refine ⟨(directory.blocks limit).flatMap Prod.snd, depth + 1, fun more deep => ?_⟩
          cases more with
          | zero => exact absurd deep (by omega)
          | succ more =>
              simp only [unfold, stored]
              rw [blocks_congr fun node member => all node member more (by omega)]

/-- Below a valid root every way down ends: there are finitely many directories and no
way back. -/
theorem ValidTree.settled (tree : ValidTree state ns root) {digest : Digest}
    (reached : Reaches state.blobs root digest) :
    Acc (fun child parent => Child state.blobs parent child) digest := by
  obtain ⟨all, _, inside⟩ := tree.few
  let lower (one other : {digest // digest ∈ all}) : Prop :=
    Relation.TransGen (Child state.blobs) other.1 one.1
  have transitive : IsTrans _ lower := ⟨fun _ _ _ first second => second.trans first⟩
  have irreflexive : Std.Irrefl lower :=
    ⟨fun one cyclic => tree.acyclic one.1 ((inside one.1).mpr one.2) cyclic⟩
  have founded : WellFounded lower := Finite.wellFounded_of_trans_of_irrefl lower
  suffices every : ∀ one : {digest // digest ∈ all},
      Acc (fun child parent => Child state.blobs parent child) one.1 from
    every ⟨digest, (inside digest).mp reached⟩
  intro one
  induction one using founded.induction with
  | _ one ih =>
      refine ⟨_, fun child named => ?_⟩
      have below := ((inside one.1).mpr one.2).step named
      exact ih ⟨child, (inside child).mp below⟩ (.single named)

/-- Whatever the contents of a namespace, a root the walk accepts unfolds to a tree that
restores without collisions and without escaping from itself. -/
theorem validateTree_restorable (M : Type) [MetadataStore M] (state : Working M) (ns : String)
    (root : Digest) :
    (validateTree ns root).Answers (fun result _ => result = .ok () →
      ∃ tree, UnfoldsTo state.1.blobs root tree ∧ Restorable tree) state.1 := by
  apply (visitTree_answers state.2 ns root _ _ _ (Descent.start state.1 ns root)).mono
  intro result after decides accepted
  have valid := decides.mp accepted
  obtain ⟨tree, depth, ends⟩ := unfold_ends (valid.settled .root)
  refine ⟨tree, ⟨depth, ends⟩, ?_⟩
  rw [← ends depth (Nat.le_refl _)]
  exact unfold_restorable valid depth root .root

end Trees
end MbxCache
