import Mathlib.Logic.Function.Basic
import Mathlib.Order.Basic
import Mathlib.Order.Nat

/-! A disk with a volatile and a durable state. The data of a file becomes durable by a sync,
a name at any time after it changes, and a crash leaves what is durable. -/

namespace MbxCache.Durable

structure File (β : Type) where
  volatile : List β
  durable : List β
  deriving DecidableEq, Repr

structure Disk (Path β : Type) where
  files : Nat → File β
  next : Nat
  names : Path → Option Nat
  durable : Path → Option Nat

inductive RenameError
  | missing
  | taken
  deriving DecidableEq, Repr

namespace Disk

variable {Path β : Type}

def empty : Disk Path β := ⟨fun _ => ⟨[], []⟩, 0, fun _ => none, fun _ => none⟩

def make [DecidableEq Path] (disk : Disk Path β) (path : Path) : Disk Path β :=
  { disk with
    files := Function.update disk.files disk.next ⟨[], []⟩
    next := disk.next + 1
    names := Function.update disk.names path (some disk.next) }

def create [DecidableEq Path] (disk : Disk Path β) (path : Path) : Option (Disk Path β × Nat) :=
  match disk.names path with
  | some _ => none
  | none => some (disk.make path, disk.next)

def write (disk : Disk Path β) (inode : Nat) (bytes : List β) : Disk Path β :=
  { disk with
    files := Function.update disk.files inode { disk.files inode with volatile := bytes } }

def overwrite [DecidableEq Path] (disk : Disk Path β) (path : Path) : Disk Path β × Nat :=
  match disk.names path with
  | some inode => (disk.write inode [], inode)
  | none => (disk.make path, disk.next)

def append (disk : Disk Path β) (inode : Nat) (bytes : List β) : Disk Path β :=
  disk.write inode ((disk.files inode).volatile ++ bytes)

def sync (disk : Disk Path β) (inode : Nat) : Disk Path β :=
  { disk with
    files := Function.update disk.files inode
      { disk.files inode with durable := (disk.files inode).volatile } }

def move [DecidableEq Path] (disk : Disk Path β) (source target : Path) (inode : Nat) : Disk Path β :=
  { disk with
    names := Function.update (Function.update disk.names source none) target (some inode) }

def rename [DecidableEq Path] (disk : Disk Path β) (source target : Path) : Except RenameError (Disk Path β) :=
  match disk.names source, disk.names target with
  | none, _ => .error .missing
  | some _, some _ => .error .taken
  | some inode, none => .ok (disk.move source target inode)

def remove [DecidableEq Path] (disk : Disk Path β) (path : Path) : Disk Path β :=
  { disk with names := Function.update disk.names path none }

def settle [DecidableEq Path] (disk : Disk Path β) (path : Path) : Disk Path β :=
  { disk with durable := Function.update disk.durable path (disk.names path) }

/-- A crash leaves durable names and data, and may lose further names. -/
def crash (disk : Disk Path β) (lost : Path → Bool) : Disk Path β :=
  let names (path : Path) : Option Nat := if lost path then none else disk.durable path
  { disk with
    files := fun inode => ⟨(disk.files inode).durable, (disk.files inode).durable⟩
    names := names
    durable := names }

def read (disk : Disk Path β) (path : Path) : Option (List β) :=
  (disk.names path).map fun inode => (disk.files inode).volatile

def Reaches (disk : Disk Path β) (final : Path → Prop) (inode : Nat) : Prop :=
  ∃ path, final path ∧ (disk.names path = some inode ∨ disk.durable path = some inode)

/-- Every file under a final name holds durable data that is good for the name. -/
structure Publishes (disk : Disk Path β) (final : Path → Prop) (good : Path → List β → Prop) :
    Prop where
  sealed : ∀ path inode, final path →
    (disk.names path = some inode ∨ disk.durable path = some inode) →
    inode < disk.next ∧ ∃ bytes, disk.files inode = ⟨bytes, bytes⟩ ∧ good path bytes

structure Holds (disk : Disk Path β) (final : Path → Prop) (path : Path) (inode : Nat) :
    Prop where
  named : disk.names path = some inode
  staged : ¬ final path
  below : inode < disk.next
  unreached : ¬ disk.Reaches final inode

/-- A change that leaves alone all final names, and all files but the writer's own and its
name. -/
structure Careful (final : Path → Prop) (own : Option (Path × Nat))
    (before after : Disk Path β) : Prop where
  next : before.next ≤ after.next
  durable : after.durable = before.durable
  kept : ∀ path inode, before.names path = some inode → (∀ file, own = some file → file.1 ≠ path) →
    after.names path = some inode
  files : ∀ inode, inode < before.next → (∀ file, own = some file → file.2 ≠ inode) →
    after.files inode = before.files inode
  added : ∀ path inode, final path → after.names path = some inode →
    before.names path = some inode

/-- Final names that exist stay, with the file they had. -/
def Keeps (final : Path → Prop) (before after : Disk Path β) : Prop :=
  ∀ path inode, final path → before.names path = some inode →
    after.names path = some inode ∧ after.files inode = before.files inode

variable {final : Path → Prop} {good : Path → List β → Prop} {own : Option (Path × Nat)}
  {before between after disk : Disk Path β} {path : Path} {inode : Nat}

namespace Careful

theorem refl (disk : Disk Path β) : Careful final own disk disk where
  next := le_rfl
  durable := rfl
  kept _ _ named _ := named
  files _ _ _ := rfl
  added _ _ _ named := named

theorem trans (one : Careful final own before between) (other : Careful final own between after) :
    Careful final own before after where
  next := one.next.trans other.next
  durable := other.durable.trans one.durable
  kept path inode named another := other.kept path inode (one.kept path inode named another) another
  files inode below another := by
    rw [other.files inode (below.trans_le one.next) another, one.files inode below another]
  added path inode finished named :=
    one.added path inode finished (other.added path inode finished named)

theorem write (bytes : List β) : Careful final (some (path, inode)) disk (disk.write inode bytes) where
  next := le_rfl
  durable := rfl
  kept _ _ named _ := named
  files _ _ another := Function.update_of_ne (another _ rfl).symm _ _
  added _ _ _ named := named

theorem sync : Careful final (some (path, inode)) disk (disk.sync inode) where
  next := le_rfl
  durable := rfl
  kept _ _ named _ := named
  files _ _ another := Function.update_of_ne (another _ rfl).symm _ _
  added _ _ _ named := named

end Careful

theorem Holds.write (holds : disk.Holds final path inode) (other : Nat) (bytes : List β) :
    (disk.write other bytes).Holds final path inode :=
  ⟨holds.named, holds.staged, holds.below, holds.unreached⟩

theorem Holds.sync (holds : disk.Holds final path inode) (other : Nat) :
    (disk.sync other).Holds final path inode :=
  ⟨holds.named, holds.staged, holds.below, holds.unreached⟩

theorem Holds.careful (holds : before.Holds final path inode)
    (careful : Careful final own before after)
    (another : ∀ file, own = some file → file.1 ≠ path ∧ file.2 ≠ inode) :
    after.Holds final path inode where
  named := careful.kept path inode holds.named fun file mine => (another file mine).1
  staged := holds.staged
  below := holds.below.trans_le careful.next
  unreached := by
    rintro ⟨other, published, named | durable⟩
    · exact holds.unreached ⟨other, published, .inl (careful.added other inode published named)⟩
    · exact holds.unreached ⟨other, published, .inr (careful.durable ▸ durable)⟩

theorem Publishes.careful (published : before.Publishes final good)
    (careful : Careful final own before after)
    (unreached : ∀ file, own = some file → ¬ before.Reaches final file.2) :
    after.Publishes final good where
  sealed path inode finished reached := by
    have held : before.names path = some inode ∨ before.durable path = some inode := by
      rcases reached with named | durable
      · exact .inl (careful.added path inode finished named)
      · exact .inr (careful.durable ▸ durable)
    obtain ⟨below, bytes, whole, fine⟩ := published.sealed path inode finished held
    have untouched := careful.files inode below fun file mine same =>
      unreached file mine (same ▸ ⟨path, finished, held⟩)
    exact ⟨below.trans_le careful.next, bytes, untouched.trans whole, fine⟩

theorem Careful.keeps (careful : Careful final own before after)
    (published : before.Publishes final good)
    (holds : ∀ file, own = some file → before.Holds final file.1 file.2) :
    Keeps final before after := by
  intro path inode finished named
  constructor
  · refine careful.kept path inode named fun file mine same => ?_
    exact (holds file mine).staged (same ▸ finished)
  · refine careful.files inode (published.sealed path inode finished (.inl named)).1 ?_
    intro file mine same
    exact (holds file mine).unreached ⟨path, finished, .inl (same ▸ named)⟩

theorem Careful.read (careful : Careful final own before after)
    (published : before.Publishes final good)
    (holds : ∀ file, own = some file → before.Holds final file.1 file.2) (finished : final path) :
    after.read path = before.read path := by
  cases named : before.names path with
  | none =>
      have still : after.names path = none := by
        by_contra present
        obtain ⟨inode, held⟩ := Option.ne_none_iff_exists'.mp present
        rw [careful.added path inode finished held] at named
        cases named
      simp only [Disk.read, named, still, Option.map_none]
  | some inode =>
      obtain ⟨still, same⟩ := careful.keeps published holds path inode finished named
      simp only [Disk.read, named, still, Option.map_some, same]

/-- After a crash a published file is whole or gone. -/
theorem Publishes.crash (published : disk.Publishes final good) (lost : Path → Bool) :
    (disk.crash lost).Publishes final good where
  sealed path inode finished reached := by
    have durable : disk.durable path = some inode := by
      simp only [Disk.crash, or_self] at reached
      split at reached
      next => cases reached
      next => exact reached
    obtain ⟨below, bytes, whole, fine⟩ := published.sealed path inode finished (.inr durable)
    exact ⟨below, bytes, by simp only [Disk.crash, whole], fine⟩

variable [DecidableEq Path]

namespace Careful

theorem make (own : Option (Path × Nat)) (absent : disk.names path = none) (staged : ¬ final path) :
    Careful final own disk (disk.make path) where
  next := Nat.le_succ _
  durable := rfl
  kept other inode named _ := by
    have different : other ≠ path := by
      rintro rfl
      rw [absent] at named
      cases named
    exact (Function.update_of_ne different _ _).trans named
  files inode below _ := Function.update_of_ne below.ne _ _
  added other inode finished named := by
    have different : other ≠ path := by
      rintro rfl
      exact staged finished
    exact (Function.update_of_ne different _ _).symm.trans named

theorem remove (path : Path) (inode : Nat) : Careful final (some (path, inode)) disk (disk.remove path) where
  next := le_rfl
  durable := rfl
  kept other _ named another := (Function.update_of_ne (another _ rfl).symm _ _).trans named
  files _ _ _ := rfl
  added other _ _ named := by
    by_cases same : other = path
    · subst same
      have gone : (disk.remove other).names other = none := Function.update_self ..
      rw [gone] at named
      cases named
    · exact (Function.update_of_ne same _ _).symm.trans named

theorem make_remove (absent : disk.names path = none) (staged : ¬ final path) :
    Careful final own disk ((disk.make path).remove path) where
  next := Nat.le_succ _
  durable := rfl
  kept other inode named _ := by
    have different : other ≠ path := by
      rintro rfl
      rw [absent] at named
      cases named
    exact (Function.update_of_ne different _ _).trans
      ((Function.update_of_ne different _ _).trans named)
  files inode below _ := Function.update_of_ne below.ne _ _
  added other inode finished named :=
    (make own absent staged).added other inode finished
      ((remove path 0).added other inode finished named)

end Careful

theorem rename_taken {target : Path} (refused : disk.rename path target = .error .taken) :
    ∃ inode, disk.names target = some inode := by
  unfold rename at refused
  split at refused
  next => cases refused
  next inode held => exact ⟨_, held⟩
  next => cases refused

theorem create_ok {made : Nat} : disk.create path = some (after, made) ↔
    disk.names path = none ∧ after = disk.make path ∧ made = disk.next := by
  unfold create
  cases disk.names path <;> simp [eq_comm]

theorem rename_ok {target : Path} : disk.rename path target = .ok after ↔
    ∃ inode, disk.names path = some inode ∧ disk.names target = none ∧
      after = disk.move path target inode := by
  unfold rename
  cases disk.names path with
  | none => simp
  | some inode =>
      cases disk.names target with
      | some other => simp
      | none => simp [eq_comm]

theorem Holds.make (published : disk.Publishes final good) (staged : ¬ final path) :
    (disk.make path).Holds final path disk.next where
  named := Function.update_self ..
  staged := staged
  below := Nat.lt_succ_self _
  unreached := by
    rintro ⟨other, final', reached⟩
    have different : other ≠ path := by
      rintro rfl
      exact staged final'
    rw [show (disk.make path).names other = disk.names other from
      Function.update_of_ne different _ _] at reached
    exact lt_irrefl _ (published.sealed other disk.next final' reached).1

theorem Holds.settle (holds : disk.Holds final path inode) (other : Path) :
    (disk.settle other).Holds final path inode where
  named := holds.named
  staged := holds.staged
  below := holds.below
  unreached := by
    rintro ⟨name, finished, named | durable⟩
    · exact holds.unreached ⟨name, finished, .inl named⟩
    · simp only [Disk.settle, Function.update_apply] at durable
      split at durable
      next same => exact holds.unreached ⟨other, same ▸ finished, .inl durable⟩
      next => exact holds.unreached ⟨name, finished, .inr durable⟩

/-- A writer publishes a file it has sealed. -/
theorem Publishes.move {target : Path} {bytes : List β} (published : disk.Publishes final good)
    (holds : disk.Holds final path inode) (whole : disk.files inode = ⟨bytes, bytes⟩)
    (fine : good target bytes) : (disk.move path target inode).Publishes final good where
  sealed other held finished reached := by
    simp only [Disk.move, Function.update_apply] at reached
    rcases reached with named | durable
    · split at named
      next same =>
        cases named
        exact ⟨holds.below, bytes, whole, same ▸ fine⟩
      next =>
        split at named
        next => cases named
        next => exact published.sealed other held finished (.inl named)
    · exact published.sealed other held finished (.inr durable)

theorem Holds.move {target source : Path} {own : Nat} (holds : disk.Holds final path inode)
    (absent : disk.names target = none) (another : source ≠ path) (apart : own ≠ inode) :
    (disk.move source target own).Holds final path inode where
  named := by
    have different : path ≠ target := by
      rintro rfl
      cases absent.symm.trans holds.named
    exact (Function.update_of_ne different _ _).trans
      ((Function.update_of_ne another.symm _ _).trans holds.named)
  staged := holds.staged
  below := holds.below
  unreached := by
    rintro ⟨other, finished, named | durable⟩
    · simp only [Disk.move, Function.update_apply] at named
      split at named
      next => exact apart (Option.some.inj named)
      next =>
        split at named
        next => cases named
        next => exact holds.unreached ⟨other, finished, .inl named⟩
    · exact holds.unreached ⟨other, finished, .inr durable⟩

theorem Holds.move_keeps {target : Path} (holds : disk.Holds final path inode)
    (absent : disk.names target = none) : Keeps final disk (disk.move path target inode) := by
  intro other held finished named
  have different : other ≠ target := by
    rintro rfl
    cases absent.symm.trans named
  have another : other ≠ path := by
    rintro rfl
    exact holds.staged finished
  exact ⟨(Function.update_of_ne different _ _).trans
    ((Function.update_of_ne another _ _).trans named), rfl⟩

/-- A file is read under the name it is given, and all other final names read as before. -/
theorem Holds.move_read {target other : Path} (holds : disk.Holds final path inode)
    (finished : final other) :
    (disk.move path target inode).read other =
      Function.update disk.read target (some (disk.files inode).volatile) other := by
  by_cases same : other = target
  · subst same
    simp only [Disk.read, Disk.move, Function.update_self, Option.map_some]
  · have another : other ≠ path := fun wrong => holds.staged (wrong ▸ finished)
    simp only [Disk.read, Disk.move, Function.update_of_ne same, Function.update_of_ne another]

theorem Publishes.settle (published : disk.Publishes final good) (path : Path) :
    (disk.settle path).Publishes final good where
  sealed other inode finished reached := by
    refine published.sealed other inode finished ?_
    rcases reached with named | durable
    · exact .inl named
    · simp only [Disk.settle, Function.update_apply] at durable
      split at durable
      next same => exact .inl (same ▸ durable)
      next => exact .inr durable

end Disk
end MbxCache.Durable
