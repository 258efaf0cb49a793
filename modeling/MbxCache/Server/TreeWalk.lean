import Mathlib.Data.List.Chain
import MbxCache.Server.Undisturbed

namespace MbxCache

open Concurrent

variable [Protocol] {M : Type} [MetadataStore M]

def Child (objects : Objects) (parent child : Digest) : Prop :=
  ∃ directory, directoryAt objects parent = some directory ∧
    ∃ node ∈ directory.directories, node.digest = child

structure GoodDirectory (state : ServerState M) (ns : String) (digest : Digest)
    (directory : Directory) : Prop where
  size : digest.size.toNat ≤ maxObjectBytes
  seen : state.Sees ns digest
  stored : ∃ bytes, state.blobs digest = some bytes ∧
    Protocol.parseDirectory bytes = some directory ∧ Protocol.writeDirectory directory = bytes
  version : directory.version = 1
  entries : validateDirectoryEntries directory = .ok ()
  files : ∀ file ∈ directory.files, file.digest.validate = true ∧ state.Sees ns file.digest

/-- Everything below a root may be published: no cycles, not too much, and every
directory good. -/
structure ValidTree (state : ServerState M) (ns : String) (root : Digest) : Prop where
  acyclic : ∀ digest, Reaches state.blobs root digest →
    ¬ Relation.TransGen (Child state.blobs) digest digest
  few : ∃ all : Finset Digest, all.card ≤ maxDirectories ∧
    ∀ digest, Reaches state.blobs root digest ↔ digest ∈ all
  good : ∀ digest, Reaches state.blobs root digest →
    ∃ directory, GoodDirectory state ns digest directory

section Directories
variable {ns : String} {state : ServerState M}

omit [Protocol] in
theorem validateDigests_iff (digests : List Digest) :
    validateDigests digests = .ok () ↔ ∀ digest ∈ digests, digest.validate = true := by
  induction digests with
  | nil => simp [validateDigests]
  | cons digest rest ih =>
      rw [List.forall_mem_cons, ← ih]
      cases valid : digest.validate <;>
        simp [validateDigests, validateDigest, valid, bind, Except.bind]

theorem parseDirectory_iff (bytes : Bytes) (directory : Directory) :
    parseDirectory bytes = .ok directory ↔
      Protocol.parseDirectory bytes = some directory ∧
        Protocol.writeDirectory directory = bytes ∧ directory.version = 1 ∧
        validateDirectoryEntries directory = .ok () ∧
        ∀ file ∈ directory.files, file.digest.validate = true := by
  have files : (∀ file ∈ directory.files, file.digest.validate = true) ↔
      validateDigests (directory.files.map (·.digest)) = .ok () := by
    rw [validateDigests_iff, List.forall_mem_map]
  rw [files]
  unfold parseDirectory
  cases parsed : Protocol.parseDirectory bytes with
  | none => simp
  | some found =>
      simp only [Option.some.injEq]
      constructor
      · intro given
        split at given
        · cases given
        · rename_i canonical
          split at given
          · cases given
          · rename_i version
            simp only [bind, Except.bind] at given
            split at given
            · cases given
            · rename_i entries
              split at given
              · cases given
              · rename_i digests
                cases given
                exact ⟨rfl, not_not.mp canonical, not_not.mp version, entries, digests⟩
      · rintro ⟨rfl, canonical, version, entries, digests⟩
        rw [if_neg (not_not.mpr canonical), if_neg (not_not.mpr version), entries]
        simp only [bind, Except.bind, digests]
        rfl

theorem distinctFiles_visible (state : ServerState M) (ns : String) (directory : Directory) :
    ((distinctFiles directory).filter (state.view.visible ns)).length =
        (distinctFiles directory).length ↔
      ∀ file ∈ directory.files, state.Sees ns file.digest := by
  rw [List.length_filter_eq_length_iff]
  simp only [distinctFiles, List.mem_dedup, List.forall_mem_map, ServerState.Sees]

theorem validateDirectory_answers (valid : MetadataStore.valid state.metadata)
    (digest : Digest) :
    (validateDirectory ns digest).Answers (fun result after =>
      match result with
      | .ok children => after = state ∧ ∃ directory, GoodDirectory state ns digest directory ∧
          children = directory.directories.map (·.digest)
      | .error _ => ∀ directory, ¬ GoodDirectory state ns digest directory) state := by
  unfold validateDirectory
  split
  · rename_i large
    exact Handler.Answers.refuse fun directory good => absurd good.size (by omega)
  rename_i small
  apply Handler.Answers.bind (readVisible_answers valid digest _)
  · intro error after unread directory good
    obtain ⟨bytes, stored, _⟩ := good.stored
    exact unread ⟨good.seen, by rw [stored]; rfl⟩
  rintro bytes after ⟨rfl, seen, stored⟩
  have same : ∀ directory, GoodDirectory after ns digest directory →
      parseDirectory bytes = .ok directory := by
    intro directory good
    obtain ⟨found, stored', parsed, canonical⟩ := good.stored
    rw [stored] at stored'
    cases stored'
    exact (parseDirectory_iff bytes directory).mpr ⟨parsed, canonical, good.version, good.entries,
      fun file member => (good.files file member).1⟩
  cases parsed : parseDirectory bytes with
  | error error =>
      refine Handler.Answers.refuse fun directory good => ?_
      rw [same directory good] at parsed
      cases parsed
  | ok directory =>
      obtain ⟨read, canonical, version, entries, digests⟩ := (parseDirectory_iff _ _).mp parsed
      rw [Handler.pureStep_ok]
      apply Handler.Answers.bind (visibleBlobs_asked valid (distinctFiles directory))
      · rintro error last ⟨_, hidden, member, unseen⟩ other good
        have found := same other good
        rw [parsed] at found
        cases found
        obtain ⟨file, listed, rfl⟩ := List.mem_map.mp (List.mem_dedup.mp member)
        exact Bool.eq_false_iff.mp unseen (good.files file listed).2
      rintro visible last ⟨rfl, rfl⟩
      split
      · rename_i hidden
        refine Handler.Answers.refuse fun other good => hidden ?_
        have found := same other good
        rw [parsed] at found
        cases found
        exact (distinctFiles_visible last ns directory).mpr fun file member =>
          (good.files file member).2
      · rename_i all
        have sees := (distinctFiles_visible last ns directory).mp (not_not.mp all)
        exact ⟨rfl, directory, ⟨by omega, seen, ⟨bytes, stored, read, canonical⟩, version, entries,
          fun file member => ⟨digests file member, sees file member⟩⟩, rfl⟩

theorem GoodDirectory.at {digest : Digest} {directory : Directory}
    (good : GoodDirectory state ns digest directory) :
    directoryAt state.blobs digest = some directory := by
  obtain ⟨bytes, stored, parsed, _⟩ := good.stored
  exact Option.bind_eq_some_iff.mpr ⟨bytes, stored, parsed⟩

theorem GoodDirectory.children {digest child : Digest} {directory : Directory}
    (good : GoodDirectory state ns digest directory) :
    Child state.blobs digest child ↔ child ∈ directory.directories.map (·.digest) := by
  rw [List.mem_map]
  constructor
  · rintro ⟨found, stored, node, member, rfl⟩
    rw [good.at] at stored
    cases stored
    exact ⟨node, member, rfl⟩
  · rintro ⟨node, member, rfl⟩
    exact ⟨directory, good.at, node, member, rfl⟩

end Directories

def exits : List Visit → List Digest
  | [] => []
  | .exit digest :: below => digest :: exits below
  | .enter _ :: below => exits below

def Visit.digest : Visit → Digest
  | .enter digest => digest
  | .exit digest => digest

/-- Everything on the stack is named by the innermost directory visited below it. -/
def Hangs (objects : Objects) (root : Digest) : List Visit → Prop
  | [] => True
  | visit :: below =>
      (match (exits below).head? with
        | some parent => Child objects parent visit.digest
        | none => visit.digest = root) ∧ Hangs objects root below

def Awaited (objects : Objects) (seen : Finset Digest) (pending : List Visit) : Prop :=
  ∀ above digest below, pending = above ++ .exit digest :: below → ∀ child,
    Child objects digest child →
    child ∈ seen ∨ Visit.enter child ∈ above ∨ Visit.exit child ∈ above

section Stack
variable {objects : Objects} {root digest : Digest} {seen : Finset Digest}
  {pending below : List Visit} {visit : Visit}

omit [Protocol] in
theorem mem_exits : digest ∈ exits pending ↔ Visit.exit digest ∈ pending := by
  induction pending with
  | nil => simp [exits]
  | cons visit rest ih => cases visit <;> simp [exits, ih]

omit [Protocol] in
theorem exits_enters (children : List Digest) (below : List Visit) :
    exits (children.map .enter ++ below) = exits below := by
  induction children with
  | nil => rfl
  | cons child rest ih => exact ih

theorem Hangs.path {top : Digest} (hangs : Hangs objects root pending)
    (member : digest ∈ exits pending) (innermost : (exits pending).head? = some top) :
    Relation.ReflTransGen (Child objects) digest top := by
  induction pending generalizing top with
  | nil => cases member
  | cons visit below ih =>
      cases visit with
      | enter other => exact ih hangs.2 member innermost
      | exit other =>
          cases innermost
          rcases List.mem_cons.mp member with rfl | deeper
          · exact .refl
          · cases above : (exits below).head? with
            | none =>
                rw [List.head?_eq_none_iff] at above
                rw [above] at deeper
                cases deeper
            | some parent =>
                have named := hangs.1
                rw [above] at named
                exact (ih hangs.2 deeper above).tail named

theorem Reaches.step {parent child : Digest} (above : Reaches objects root parent)
    (named : Child objects parent child) : Reaches objects root child := by
  obtain ⟨directory, stored, node, member, rfl⟩ := named
  exact .child above stored member

theorem Hangs.reached (hangs : Hangs objects root pending) (visit : Visit)
    (member : visit ∈ pending) :
    Reaches objects root visit.digest := by
  induction pending generalizing visit with
  | nil => cases member
  | cons first below ih =>
      rcases List.mem_cons.mp member with rfl | deeper
      · have named := hangs.1
        cases above : (exits below).head? with
        | none =>
            rw [above] at named
            rw [named]
            exact .root
        | some parent =>
            rw [above] at named
            have open_ := mem_exits.mp (List.mem_of_mem_head? (by rw [above]; rfl))
            exact (ih hangs.2 _ open_).step named
      · exact ih hangs.2 _ deeper

theorem Hangs.push {children : List Digest} (hangs : Hangs objects root (.enter digest :: below))
    (named : ∀ child ∈ children, Child objects digest child) :
    Hangs objects root (children.map .enter ++ .exit digest :: below) := by
  induction children with
  | nil => exact hangs
  | cons child rest ih =>
      have rest := ih fun other member => named other (List.mem_cons_of_mem _ member)
      simp only [List.map_cons, List.cons_append, Hangs, exits_enters, exits, List.head?_cons]
      exact ⟨named child List.mem_cons_self, rest⟩

theorem Awaited.exit (awaited : Awaited objects seen (.exit digest :: below)) :
    Awaited objects (insert digest seen) below := by
  intro above other deeper split child named
  rcases awaited (.exit digest :: above) other deeper (by rw [split]; rfl) child named with
    old | entered | left
  · exact .inl (Finset.mem_insert_of_mem old)
  · rcases List.mem_cons.mp entered with same | entered
    · cases same
    · exact .inr (.inl entered)
  · rcases List.mem_cons.mp left with same | left
    · cases same
      exact .inl (Finset.mem_insert_self _ _)
    · exact .inr (.inr left)

theorem Awaited.skip (awaited : Awaited objects seen (.enter digest :: below))
    (known : digest ∈ seen) : Awaited objects seen below := by
  intro above other deeper split child named
  rcases awaited (.enter digest :: above) other deeper (by rw [split]; rfl) child named with
    old | entered | left
  · exact .inl old
  · rcases List.mem_cons.mp entered with same | entered
    · cases same
      exact .inl known
    · exact .inr (.inl entered)
  · rcases List.mem_cons.mp left with same | left
    · cases same
    · exact .inr (.inr left)

theorem Awaited.push {children : List Digest}
    (awaited : Awaited objects seen (.enter digest :: below))
    (all : ∀ child, Child objects digest child → child ∈ children) :
    Awaited objects seen (children.map .enter ++ .exit digest :: below) := by
  intro above other deeper split child named
  rcases List.append_eq_append_iff.mp split with ⟨front, same, rest⟩ | ⟨front, same, rest⟩
  · -- the directory lies at or below the one just entered
    cases front with
    | nil =>
        cases rest
        rw [List.append_nil] at same
        subst same
        exact .inr (.inl (List.mem_map.mpr ⟨child, all child named, rfl⟩))
    | cons first more =>
        obtain ⟨rfl, rfl⟩ := List.cons.inj rest
        subst same
        rcases awaited (.enter digest :: more) other deeper rfl child named with
          old | entered | left
        · exact .inl old
        · rcases List.mem_cons.mp entered with same | entered
          · cases same
            exact .inr (.inr (by simp))
          · exact .inr (.inl (by simp [entered]))
        · rcases List.mem_cons.mp left with same | left
          · cases same
          · exact .inr (.inr (by simp [left]))
  · -- no directory is left among the ones that wait
    cases front with
    | nil =>
        cases rest
        rw [List.append_nil] at same
        subst same
        exact .inr (.inl (List.mem_map.mpr ⟨child, all child named, rfl⟩))
    | cons first more =>
        obtain ⟨rfl, _⟩ := List.cons.inj rest
        have wrong : Visit.exit other ∈ children.map Visit.enter := by
          rw [same]
          exact List.mem_append_right _ List.mem_cons_self
        simp at wrong

end Stack
/-- What the walk knows: the stack leads down from the root, the directories on the way
are those being visited, and below those seen everything has been seen, without a cycle. -/
structure Descent (state : ServerState M) (ns : String) (root : Digest) (pending : List Visit)
    (visiting seen : Finset Digest) : Prop where
  hangs : Hangs state.blobs root pending
  awaited : Awaited state.blobs seen pending
  distinct : (exits pending).Nodup
  path : ∀ digest, digest ∈ visiting ↔ digest ∈ exits pending
  apart : Disjoint seen visiting
  few : seen.card + visiting.card ≤ maxDirectories
  origin : root ∈ seen ∨ Visit.enter root ∈ pending ∨ Visit.exit root ∈ pending
  reached : ∀ digest ∈ seen, Reaches state.blobs root digest
  good : ∀ digest, digest ∈ seen ∨ digest ∈ visiting →
    ∃ directory, GoodDirectory state ns digest directory
  closed : ∀ digest ∈ seen, ∀ child, Child state.blobs digest child → child ∈ seen
  settled : ∀ digest ∈ seen, Acc (fun child parent => Child state.blobs parent child) digest

namespace Descent

variable {state : ServerState M} {ns : String} {root digest : Digest} {rest : List Visit}
  {visiting seen : Finset Digest}

theorem start (state : ServerState M) (ns : String) (root : Digest) :
    Descent state ns root [.enter root] ∅ ∅ where
  hangs := ⟨rfl, trivial⟩
  awaited above digest below split := by
    cases above with
    | nil => cases split
    | cons first more =>
        have ends := (List.cons.inj split).2
        simp at ends
  distinct := List.nodup_nil
  path digest := by simp [exits]
  apart := Finset.disjoint_empty_left _
  few := Nat.zero_le _
  origin := .inr (.inl List.mem_cons_self)
  reached digest member := by simp at member
  good digest member := by simp at member
  closed digest member := by simp at member
  settled digest member := by simp at member

theorem exit (descent : Descent state ns root (.exit digest :: rest) visiting seen) :
    Descent state ns root rest (visiting.erase digest) (insert digest seen) := by
  have open_ : digest ∈ visiting := (descent.path digest).mpr List.mem_cons_self
  have unseen : digest ∉ seen := fun old =>
    Finset.disjoint_left.mp descent.apart old open_
  have below : ∀ child, Child state.blobs digest child → child ∈ seen := by
    intro child named
    rcases descent.awaited [] digest rest rfl child named with old | wrong | wrong
    · exact old
    · cases wrong
    · cases wrong
  have distinct := List.nodup_cons.mp descent.distinct
  refine ⟨descent.hangs.2, descent.awaited.exit, distinct.2, ?_, ?_, ?_, ?_, ?_, ?_, ?_, ?_⟩
  · intro other
    rw [Finset.mem_erase, descent.path other]
    constructor
    · rintro ⟨different, member⟩
      exact (List.mem_cons.mp member).resolve_left different
    · exact fun member => ⟨fun same => distinct.1 (same ▸ member), List.mem_cons_of_mem _ member⟩
  · rw [Finset.disjoint_insert_left]
    exact ⟨Finset.notMem_erase _ _, descent.apart.mono_right (Finset.erase_subset _ _)⟩
  · have positive := Finset.card_pos.mpr ⟨digest, open_⟩
    have few := descent.few
    rw [Finset.card_insert_of_notMem unseen, Finset.card_erase_of_mem open_]
    omega
  · rcases descent.origin with old | entered | left
    · exact .inl (Finset.mem_insert_of_mem old)
    · rcases List.mem_cons.mp entered with same | entered
      · cases same
      · exact .inr (.inl entered)
    · rcases List.mem_cons.mp left with same | left
      · cases same
        exact .inl (Finset.mem_insert_self _ _)
      · exact .inr (.inr left)
  · intro other member
    rcases Finset.mem_insert.mp member with rfl | old
    · exact descent.hangs.reached (.exit other) List.mem_cons_self
    · exact descent.reached other old
  · intro other member
    rw [Finset.mem_insert, Finset.mem_erase] at member
    rcases member with (rfl | old) | ⟨_, still⟩
    · exact descent.good other (.inr open_)
    · exact descent.good other (.inl old)
    · exact descent.good other (.inr still)
  · intro other member child named
    rcases Finset.mem_insert.mp member with rfl | old
    · exact Finset.mem_insert_of_mem (below child named)
    · exact Finset.mem_insert_of_mem (descent.closed other old child named)
  · intro other member
    rcases Finset.mem_insert.mp member with rfl | old
    · exact ⟨_, fun child named => descent.settled child (below child named)⟩
    · exact descent.settled other old

theorem skip (descent : Descent state ns root (.enter digest :: rest) visiting seen)
    (known : digest ∈ seen) : Descent state ns root rest visiting seen := by
  refine { descent with
    hangs := descent.hangs.2
    awaited := descent.awaited.skip known
    origin := ?_ }
  rcases descent.origin with old | entered | left
  · exact .inl old
  · rcases List.mem_cons.mp entered with same | entered
    · cases same
      exact .inl known
    · exact .inr (.inl entered)
  · rcases List.mem_cons.mp left with same | left
    · cases same
    · exact .inr (.inr left)

theorem enter {directory : Directory}
    (descent : Descent state ns root (.enter digest :: rest) visiting seen)
    (unseen : digest ∉ seen) (fresh : digest ∉ visiting)
    (room : ¬ maxDirectories < seen.card + (insert digest visiting).card)
    (good : GoodDirectory state ns digest directory) :
    Descent state ns root
      ((directory.directories.map (·.digest)).reverse.map .enter ++ .exit digest :: rest)
      (insert digest visiting) seen := by
  have children : ∀ child, Child state.blobs digest child ↔
      child ∈ (directory.directories.map (·.digest)).reverse := by
    intro child
    rw [List.mem_reverse]
    exact good.children
  have outside : digest ∉ exits rest := fun member => fresh ((descent.path digest).mpr member)
  refine ⟨descent.hangs.push fun child member => (children child).mpr member,
    descent.awaited.push fun child named => (children child).mp named, ?_, ?_, ?_,
    Nat.le_of_not_lt room, ?_, descent.reached, ?_, descent.closed, descent.settled⟩
  · rw [exits_enters]
    exact List.nodup_cons.mpr ⟨outside, descent.distinct⟩
  · intro other
    rw [exits_enters, Finset.mem_insert, descent.path other]
    exact List.mem_cons.symm
  · rw [Finset.disjoint_insert_right]
    exact ⟨unseen, descent.apart⟩
  · rcases descent.origin with old | entered | left
    · exact .inl old
    · rcases List.mem_cons.mp entered with same | entered
      · cases same
        exact .inr (.inr (by simp))
      · exact .inr (.inl (by simp [entered]))
    · rcases List.mem_cons.mp left with same | left
      · cases same
      · exact .inr (.inr (by simp [left]))
  · intro other member
    rcases member with old | open_
    · exact descent.good other (.inl old)
    · rcases Finset.mem_insert.mp open_ with rfl | open_
      · exact ⟨directory, good⟩
      · exact descent.good other (.inr open_)

/-- A directory entered while it is being visited lies on a cycle. -/
theorem cycle (descent : Descent state ns root (.enter digest :: rest) visiting seen)
    (open_ : digest ∈ visiting) : Relation.TransGen (Child state.blobs) digest digest := by
  have member : digest ∈ exits rest := (descent.path digest).mp open_
  have named := descent.hangs.1
  cases above : (exits rest).head? with
  | none =>
      rw [List.head?_eq_none_iff] at above
      rw [above] at member
      cases member
  | some parent =>
      rw [above] at named
      exact Relation.TransGen.tail' (descent.hangs.2.path member above) named

theorem entered (descent : Descent state ns root (.enter digest :: rest) visiting seen) :
    Reaches state.blobs root digest :=
  descent.hangs.reached (.enter digest) List.mem_cons_self

theorem visited (descent : Descent state ns root (.enter digest :: rest) visiting seen)
    {other : Digest} (member : other ∈ seen ∪ insert digest visiting) :
    Reaches state.blobs root other := by
  rw [Finset.mem_union, Finset.mem_insert] at member
  rcases member with old | rfl | open_
  · exact descent.reached other old
  · exact descent.entered
  · have left := mem_exits.mp ((descent.path other).mp open_)
    exact descent.hangs.reached _ left

theorem crowded (descent : Descent state ns root (.enter digest :: rest) visiting seen)
    (unseen : digest ∉ seen) (full : maxDirectories < seen.card + (insert digest visiting).card) :
    ¬ ValidTree state ns root := by
  intro tree
  obtain ⟨all, few, reached⟩ := tree.few
  have apart : Disjoint seen (insert digest visiting) :=
    Finset.disjoint_insert_right.mpr ⟨unseen, descent.apart⟩
  have within : seen ∪ insert digest visiting ⊆ all :=
    fun other member => (reached other).mp (descent.visited member)
  have bound := Finset.card_le_card within
  rw [Finset.card_union_of_disjoint apart] at bound
  omega

omit [Protocol] in
theorem not_cyclic {relation : Digest → Digest → Prop} {digest : Digest}
    (settled : Acc (fun child parent => relation parent child) digest) :
    ¬ Relation.TransGen relation digest digest := by
  induction settled with
  | intro digest _ ih =>
      intro cyclic
      obtain ⟨next, first, back⟩ := Relation.TransGen.head'_iff.mp cyclic
      exact ih next first (Relation.TransGen.tail' back first)

/-- A finished walk has seen everything below the root, and all of it is valid. -/
theorem complete (descent : Descent state ns root [] visiting seen) : ValidTree state ns root := by
  have seen_root : root ∈ seen := by
    rcases descent.origin with old | wrong | wrong
    · exact old
    · cases wrong
    · cases wrong
  have all : ∀ digest, Reaches state.blobs root digest → digest ∈ seen := by
    intro digest reached
    induction reached with
    | root => exact seen_root
    | child above stored member ih => exact descent.closed _ ih _ ⟨_, stored, _, member, rfl⟩
  refine ⟨?_, ⟨seen, ?_, ?_⟩, ?_⟩
  · exact fun digest reached => not_cyclic (descent.settled digest (all digest reached))
  · have few := descent.few
    omega
  · exact fun digest => ⟨all digest, descent.reached digest⟩
  · exact fun digest reached => descent.good digest (.inl (all digest reached))

end Descent

/-- By the recursion of the walk: each turn keeps what it knows, and it stops early only
at a directory that is not good, on a cycle or one too many. -/
theorem visitTree_answers {state : ServerState M} (valid : MetadataStore.valid state.metadata)
    (ns : String) (root : Digest) (pending : List Visit) (visiting seen : Finset Digest)
    (descent : Descent state ns root pending visiting seen) :
    (visitTree ns pending visiting seen).Answers (fun result _ =>
      result = .ok () ↔ ValidTree state ns root) state := by
  fun_induction visitTree ns pending visiting seen with
  | case1 visiting seen => exact iff_of_true rfl descent.complete
  | case2 visiting seen digest rest ih => exact ih descent.exit
  | case3 visiting seen digest rest known ih => exact ih (descent.skip known)
  | case4 visiting seen digest rest unseen open_ =>
      exact iff_of_false (by simp) fun tree =>
        tree.acyclic digest descent.entered (descent.cycle open_)
  | case5 visiting seen digest rest unseen fresh full =>
      exact iff_of_false (by simp) (descent.crowded unseen full)
  | case6 visiting seen digest rest unseen fresh room ih =>
      apply Handler.Answers.bind (validateDirectory_answers valid digest)
      · intro error after bad
        refine iff_of_false (by simp) fun tree => ?_
        obtain ⟨directory, good⟩ := tree.good digest descent.entered
        exact bad directory good
      · rintro children after ⟨rfl, directory, good, rfl⟩
        exact ih _ (descent.enter unseen fresh room good)

/-- Over any contents of a namespace and from any root, the walk ends, and accepts
exactly the valid trees. -/
theorem validateTree_decides (M : Type) [MetadataStore M] (state : Working M) (ns : String)
    (root : Digest) :
    (validateTree ns root).Answers (fun result _ =>
      result = .ok () ↔ ValidTree state.1 ns root) state.1 :=
  visitTree_answers state.2 ns root _ _ _ (Descent.start state.1 ns root)

end MbxCache
