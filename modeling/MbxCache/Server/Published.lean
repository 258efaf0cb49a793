import MbxCache.Server.Actions

namespace MbxCache

variable [Protocol]

namespace ServerState

variable {M : Type} [MetadataStore M]

def initial (M : Type) [MetadataStore M] : ServerState M := ⟨fun _ => none, freshStore M⟩

def view (state : ServerState M) : View := MetadataStore.view state.metadata

def Sees (state : ServerState M) (ns : String) (digest : Digest) : Prop :=
  state.view.visible ns digest = true

structure Grows (before after : ServerState M) : Prop where
  blobs : Objects.Within before.blobs after.blobs
  rows : ∀ ns digest, before.Sees ns digest → after.Sees ns digest
  results : ∀ ns action result, before.view.result ns action = some result →
    after.view.result ns action = some result

theorem Grows.refl (state : ServerState M) : Grows state state :=
  ⟨.refl _, fun _ _ seen => seen, fun _ _ _ held => held⟩

theorem Grows.trans {first second third : ServerState M} (one : Grows first second)
    (other : Grows second third) : Grows first third where
  blobs := one.blobs.trans other.blobs
  rows ns digest seen := other.rows ns digest (one.rows ns digest seen)
  results ns action result held := other.results ns action result (one.results ns action result held)

end ServerState

def declaredKind (value : Json) : Option String :=
  value.asObject.bind fun fields => (fields.lookup "kind").bind Json.asStr

def objectAt (objects : Objects) (digest : Digest) : Option Json :=
  (objects digest).bind Protocol.parseValue

def directoryAt (objects : Objects) (digest : Digest) : Option Directory :=
  (objects digest).bind Protocol.parseDirectory

/-- The directories below a root, through the entries of stored directories. -/
inductive Reaches (objects : Objects) (root : Digest) : Digest → Prop
  | root : Reaches objects root root
  | child {digest : Digest} {directory : Directory} {node : DirectoryNode}
      (above : Reaches objects root digest) (stored : directoryAt objects digest = some directory)
      (member : node ∈ directory.directories) : Reaches objects root node.digest

def outputBlobs (kind : ActionKind) (value : Json) : Option (Digest × Digest) :=
  match kind with
  | .task => none
  | .buildScript => (Protocol.buildScriptMetadata value).toOption.map fun metadata =>
      (metadata.stdout, metadata.stderr)
  | .cc => (Protocol.ccMetadata value).toOption.map fun metadata =>
      (metadata.stdout, metadata.stderr)
  | .rustc => (Protocol.rustcMetadata value).toOption.map fun metadata =>
      (metadata.stdout, metadata.stderr)

namespace ServerState

variable {M : Type} [MetadataStore M]

def SeesDirectory (state : ServerState M) (ns : String) (digest : Digest) : Prop :=
  state.Sees ns digest ∧ ∃ directory, directoryAt state.blobs digest = some directory ∧
    ∀ file ∈ directory.files, state.Sees ns file.digest

def SeesTree (state : ServerState M) (ns : String) (root : Digest) : Prop :=
  ∀ digest, Reaches state.blobs root digest → state.SeesDirectory ns digest

def SeesMetadata (state : ServerState M) (ns : String) (kind : ActionKind) (digest : Digest) :
    Prop :=
  state.Sees ns digest ∧ ∃ value, objectAt state.blobs digest = some value ∧
    declaredKind value = some kind.name ∧
    (kind ≠ .task → ∃ stdout stderr, outputBlobs kind value = some (stdout, stderr) ∧
      state.Sees ns stdout ∧ state.Sees ns stderr)

def SeesDescriptor (state : ServerState M) (ns : String) (kind : ActionKind) (action : Digest) :
    Prop :=
  state.Sees ns action ∧ ∃ value, objectAt state.blobs action = some value ∧
    declaredKind value = some kind.name

/-- A result is stored under its own action, and all it refers to can be had. -/
structure Published (state : ServerState M) (ns : String) (action : Digest) (kind : ActionKind)
    (result : ActionResult) : Prop where
  key : result.action = action
  descriptor : state.SeesDescriptor ns kind action
  complete : kind ≠ .task → result.metadata.isSome ∧ result.outputRoot.isSome
  metadata : ∀ digest, result.metadata = some digest → state.SeesMetadata ns kind digest
  tree : ∀ root, result.outputRoot = some root → state.SeesTree ns root

section
variable {before after : ServerState M} (grows : Grows before after)
include grows

theorem objectAt_grows {digest : Digest} {value : Json}
    (stored : objectAt before.blobs digest = some value) :
    objectAt after.blobs digest = some value := by
  obtain ⟨bytes, present, parsed⟩ := Option.bind_eq_some_iff.mp stored
  exact Option.bind_eq_some_iff.mpr ⟨bytes, grows.blobs digest bytes present, parsed⟩

theorem directoryAt_grows {digest : Digest} {directory : Directory}
    (stored : directoryAt before.blobs digest = some directory) :
    directoryAt after.blobs digest = some directory := by
  obtain ⟨bytes, present, parsed⟩ := Option.bind_eq_some_iff.mp stored
  exact Option.bind_eq_some_iff.mpr ⟨bytes, grows.blobs digest bytes present, parsed⟩

theorem SeesDirectory.later {ns : String} {digest : Digest}
    (seen : before.SeesDirectory ns digest) : after.SeesDirectory ns digest := by
  obtain ⟨visible, directory, stored, files⟩ := seen
  exact ⟨grows.rows ns digest visible, directory, directoryAt_grows grows stored,
    fun file member => grows.rows ns file.digest (files file member)⟩

theorem Reaches.shrinks {ns : String} {root digest : Digest} (tree : before.SeesTree ns root)
    (reached : Reaches after.blobs root digest) : Reaches before.blobs root digest := by
  induction reached with
  | root => exact .root
  | child above stored member ih =>
      obtain ⟨_, directory, held, _⟩ := tree _ ih
      have same := directoryAt_grows grows held
      rw [stored] at same
      cases same
      exact .child ih held member

theorem SeesTree.later {ns : String} {root : Digest} (tree : before.SeesTree ns root) :
    after.SeesTree ns root :=
  fun digest reached => (tree digest (Reaches.shrinks grows tree reached)).later grows

theorem SeesMetadata.later {ns : String} {kind : ActionKind} {digest : Digest}
    (seen : before.SeesMetadata ns kind digest) : after.SeesMetadata ns kind digest := by
  obtain ⟨visible, value, stored, declared, outputs⟩ := seen
  refine ⟨grows.rows ns digest visible, value, objectAt_grows grows stored, declared, ?_⟩
  intro compiler
  obtain ⟨stdout, stderr, named, first, second⟩ := outputs compiler
  exact ⟨stdout, stderr, named, grows.rows ns stdout first, grows.rows ns stderr second⟩

theorem SeesDescriptor.later {ns : String} {kind : ActionKind} {action : Digest}
    (seen : before.SeesDescriptor ns kind action) : after.SeesDescriptor ns kind action := by
  obtain ⟨visible, value, stored, declared⟩ := seen
  exact ⟨grows.rows ns action visible, value, objectAt_grows grows stored, declared⟩

theorem Published.later {ns : String} {action : Digest} {kind : ActionKind}
    {result : ActionResult} (published : before.Published ns action kind result) :
    after.Published ns action kind result where
  key := published.key
  descriptor := published.descriptor.later grows
  complete := published.complete
  metadata digest named := (published.metadata digest named).later grows
  tree root named := (published.tree root named).later grows

end

end ServerState
end MbxCache
