import MbxCache.Server.Publishing

namespace MbxCache

open Concurrent

variable [Protocol] {M : Type} [MetadataStore M] {ns : String} {state : Shared M}

def ServerState.Found (state : ServerState M) (ns : String) (digest : Digest)
    (known : Digest → Prop) : Prop :=
  state.Sees ns digest ∧ ∃ directory, directoryAt state.blobs digest = some directory ∧
    (∀ file ∈ directory.files, state.Sees ns file.digest) ∧
    ∀ node ∈ directory.directories, known node.digest

theorem ServerState.Found.later {before after : ServerState M} {digest : Digest}
    {known wider : Digest → Prop} (found : before.Found ns digest known)
    (grows : ServerState.Grows before after) (wide : ∀ child, known child → wider child) :
    after.Found ns digest wider := by
  obtain ⟨seen, directory, stored, files, children⟩ := found
  exact ⟨grows.rows ns digest seen, directory, ServerState.directoryAt_grows grows stored,
    fun file member => grows.rows ns file.digest (files file member),
    fun node member => wide node.digest (children node member)⟩

theorem distinctFiles_seen {directory : Directory} {found : List Digest}
    (sublist : found.Sublist (distinctFiles directory))
    (all : found.length = (distinctFiles directory).length)
    (seen : ∀ digest ∈ found, state.1.Sees ns digest) :
    ∀ file ∈ directory.files, state.1.Sees ns file.digest := by
  have same := sublist.eq_of_length all
  intro file member
  apply seen
  rw [same, distinctFiles, List.mem_dedup]
  exact List.mem_map.mpr ⟨file, member, rfl⟩

theorem validateDirectory_ensures (digest : Digest) :
    (validateDirectory ns digest).Ensures ns
      (fun children after => after.Found ns digest (· ∈ children)) state := by
  unfold validateDirectory
  split
  · exact .refuse
  · apply Handler.Ensures.bind (readVisible_ensures digest _)
    rintro bytes read _ ⟨seen, stored⟩
    apply Handler.Ensures.bind Handler.Ensures.pureStep
    intro directory parsed grows given
    apply Handler.Ensures.bind (visibleBlobs_ensures (distinctFiles directory))
    rintro found asked more ⟨sublist, visible⟩
    split
    · exact .refuse
    · rename_i all
      apply Handler.Ensures.pure
      intro after last
      have whole := grows.trans (more.trans last)
      refine ⟨whole.rows ns digest seen, directory, ?_, ?_, ?_⟩
      · exact Option.bind_eq_some_iff.mpr ⟨bytes, whole.blobs digest bytes stored,
          parseDirectory_parsed given⟩
      · intro file member
        exact last.rows ns file.digest
          (distinctFiles_seen sublist (not_not.mp all) visible file member)
      · intro node member
        exact List.mem_map.mpr ⟨node, member, rfl⟩

def Covered (pending : List Visit) (visiting seen : Finset Digest) (digest : Digest) : Prop :=
  (digest ∈ seen ∨ digest ∈ visiting) ∨ Visit.enter digest ∈ pending

/-- What the walk keeps: whatever was visited was found, and all its children are
covered. Only a directory already visited is left. -/
structure Walk (state : ServerState M) (ns : String) (root : Digest) (pending : List Visit)
    (visiting seen : Finset Digest) : Prop where
  root : Covered pending visiting seen root
  leaves : ∀ digest, Visit.exit digest ∈ pending → digest ∈ seen ∨ digest ∈ visiting
  visited : ∀ digest, digest ∈ seen ∨ digest ∈ visiting →
    state.Found ns digest (Covered pending visiting seen)

namespace Walk

variable {root digest : Digest} {rest : List Visit} {pending : List Visit}
  {visiting seen : Finset Digest}

theorem later {before after : ServerState M} (walk : Walk before ns root pending visiting seen)
    (grows : ServerState.Grows before after) : Walk after ns root pending visiting seen :=
  ⟨walk.root, walk.leaves, fun digest visited =>
    (walk.visited digest visited).later grows fun _ covered => covered⟩

theorem start (state : ServerState M) (root : Digest) : Walk state ns root [.enter root] ∅ ∅ where
  root := .inr (List.mem_singleton.mpr rfl)
  leaves digest left := by simp at left
  visited digest visited := by simp at visited

theorem exit {state : ServerState M}
    (walk : Walk state ns root (.exit digest :: rest) visiting seen) :
    Walk state ns root rest (visiting.erase digest) (insert digest seen) := by
  have moved : ∀ other, other ∈ seen ∨ other ∈ visiting →
      other ∈ insert digest seen ∨ other ∈ visiting.erase digest := by
    intro other visited
    simp only [Finset.mem_insert, Finset.mem_erase]
    tauto
  have covers : ∀ other, Covered (.exit digest :: rest) visiting seen other →
      Covered rest (visiting.erase digest) (insert digest seen) other := by
    rintro other (visited | waits)
    · exact .inl (moved other visited)
    · rcases List.mem_cons.mp waits with same | waits
      · cases same
      · exact .inr waits
  refine ⟨covers root walk.root, ?_, ?_⟩
  · intro other left
    exact moved other (walk.leaves other (List.mem_cons_of_mem _ left))
  · intro other visited
    have before : other ∈ seen ∨ other ∈ visiting := by
      simp only [Finset.mem_insert, Finset.mem_erase] at visited
      rcases visited with (same | old) | open_
      · exact same ▸ walk.leaves digest List.mem_cons_self
      · exact .inl old
      · exact .inr open_.2
    exact (walk.visited other before).later (.refl state) covers

theorem skip {state : ServerState M}
    (walk : Walk state ns root (.enter digest :: rest) visiting seen) (known : digest ∈ seen) :
    Walk state ns root rest visiting seen := by
  have covers : ∀ other, Covered (.enter digest :: rest) visiting seen other →
      Covered rest visiting seen other := by
    rintro other (visited | waits)
    · exact .inl visited
    · rcases List.mem_cons.mp waits with same | waits
      · cases same
        exact .inl (.inl known)
      · exact .inr waits
  exact ⟨covers root walk.root,
    fun other left => walk.leaves other (List.mem_cons_of_mem _ left),
    fun other visited => (walk.visited other visited).later (.refl state) covers⟩

theorem enter {state : ServerState M} {children : List Digest}
    (walk : Walk state ns root (.enter digest :: rest) visiting seen)
    (found : state.Found ns digest (· ∈ children)) :
    Walk state ns root ((children.reverse.map .enter) ++ .exit digest :: rest)
      (insert digest visiting) seen := by
  have covers : ∀ other, Covered (.enter digest :: rest) visiting seen other →
      Covered ((children.reverse.map .enter) ++ .exit digest :: rest) (insert digest visiting)
        seen other := by
    rintro other ((old | open_) | waits)
    · exact .inl (.inl old)
    · exact .inl (.inr (Finset.mem_insert_of_mem open_))
    · rcases List.mem_cons.mp waits with same | waits
      · cases same
        exact .inl (.inr (Finset.mem_insert_self digest visiting))
      · exact .inr (List.mem_append_right _ (List.mem_cons_of_mem _ waits))
  refine ⟨covers root walk.root, ?_, ?_⟩
  · intro other left
    simp only [List.mem_append, List.mem_map, List.mem_cons] at left
    rcases left with ⟨_, _, wrong⟩ | same | left
    · cases wrong
    · cases same
      exact .inr (Finset.mem_insert_self digest visiting)
    · rcases walk.leaves other (List.mem_cons_of_mem _ left) with old | open_
      · exact .inl old
      · exact .inr (Finset.mem_insert_of_mem open_)
  · intro other visited
    by_cases same : other = digest
    · subst same
      refine found.later (.refl state) fun child member => .inr (List.mem_append_left _ ?_)
      exact List.mem_map.mpr ⟨child, List.mem_reverse.mpr member, rfl⟩
    · have before : other ∈ seen ∨ other ∈ visiting := by
        simpa [Finset.mem_insert, same] using visited
      exact (walk.visited other before).later (.refl state) covers

/-- A finished walk has been everywhere below the root. -/
theorem complete {state : ServerState M} (walk : Walk state ns root [] visiting seen) :
    state.SeesTree ns root := by
  have visited : ∀ digest, Covered [] visiting seen digest → digest ∈ seen ∨ digest ∈ visiting := by
    rintro digest (visited | waits)
    · exact visited
    · cases waits
  intro digest reached
  suffices present : digest ∈ seen ∨ digest ∈ visiting by
    obtain ⟨sees, directory, stored, files, _⟩ := walk.visited digest present
    exact ⟨sees, directory, stored, files⟩
  induction reached with
  | root => exact visited root walk.root
  | child above stored member ih =>
      obtain ⟨_, directory, held, _, children⟩ := walk.visited _ ih
      rw [stored] at held
      cases held
      exact visited _ (children _ member)

end Walk

/-- By the recursion of the walk: each turn keeps what is covered, and the walk ends
only when nothing waits. -/
theorem visitTree_ensures (root : Digest) (pending : List Visit) (visiting seen : Finset Digest)
    (walk : Walk state.1 ns root pending visiting seen) :
    (visitTree ns pending visiting seen).Ensures ns (fun _ after => after.SeesTree ns root)
      state := by
  fun_induction visitTree ns pending visiting seen generalizing state with
  | case1 => exact .pure fun after grows => (walk.later grows).complete
  | case2 visiting seen digest rest ih => exact ih walk.exit
  | case3 visiting seen digest rest known ih => exact ih (walk.skip known)
  | case4 => exact .refuse
  | case5 => exact .refuse
  | case6 visiting seen digest rest unseen fresh room ih =>
      apply Handler.Ensures.bind (validateDirectory_ensures digest)
      intro children after grows found
      exact ih children ((walk.later grows).enter found)

theorem validateTree_ensures (root : Digest) :
    (validateTree ns root).Ensures ns (fun _ after => after.SeesTree ns root) state :=
  visitTree_ensures root _ _ _ (Walk.start _ root)

end MbxCache
