import Mathlib.Logic.Function.Basic
import MbxCache.Concurrent.Program
import MbxCache.Digest

/-! Object storage as the handlers see it (`storage/mod.rs`). -/

namespace MbxCache

inductive PutOutcome
  | created
  | alreadyExists
  deriving DecidableEq, Repr

structure ByteStream where
  chunks : List Bytes
  broken : Bool
  deriving DecidableEq, Repr

structure Blob where
  size : UInt64
  stream : ByteStream
  deriving DecidableEq, Repr

namespace ByteStream

def split : List Nat → Bytes → List Bytes
  | [], bytes => [bytes]
  | cut :: cuts, bytes => bytes.take cut :: split cuts (bytes.drop cut)

theorem split_flatten (cuts : List Nat) (bytes : Bytes) : (split cuts bytes).flatten = bytes := by
  induction cuts generalizing bytes with
  | nil => simp [split]
  | cons cut cuts ih => simp [split, ih]

/-- An open object read in some pieces. A failing read loses the last of them. -/
def opened (bytes : Bytes) (cuts : List Nat) (broken : Bool) : ByteStream :=
  ⟨if broken then (split cuts bytes).dropLast else split cuts bytes, broken⟩

def read (stream : ByteStream) : Except Unit Bytes :=
  if stream.broken then .error () else .ok stream.chunks.flatten

theorem opened_read {bytes content : Bytes} {cuts : List Nat} {broken : Bool}
    (given : (opened bytes cuts broken).read = .ok content) : content = bytes := by
  cases broken with
  | true => cases given
  | false =>
      simp only [opened, read, Bool.false_eq_true, if_false, Except.ok.injEq] at given
      rw [← given, split_flatten]

end ByteStream

abbrev Objects := Digest → Option Bytes

namespace Objects

/-- Storage is create-only: an object that exists is left as it is. -/
def put (objects : Objects) (digest : Digest) (bytes : Bytes) : Objects × PutOutcome :=
  match objects digest with
  | some _ => (objects, .alreadyExists)
  | none => (Function.update objects digest (some bytes), .created)

def get (objects : Objects) (digest : Digest) (cuts : List Nat) (broken : Bool) : Option Blob :=
  (objects digest).map fun bytes =>
    ⟨UInt64.ofNat bytes.length, ByteStream.opened bytes cuts broken⟩

def Within (before after : Objects) : Prop :=
  ∀ digest bytes, before digest = some bytes → after digest = some bytes

theorem Within.refl (objects : Objects) : Within objects objects := fun _ _ present => present

theorem Within.trans {first second third : Objects} (one : Within first second)
    (other : Within second third) : Within first third :=
  fun digest bytes present => other digest bytes (one digest bytes present)

theorem put_within (objects : Objects) (digest : Digest) (bytes : Bytes) :
    Within objects (objects.put digest bytes).1 := by
  intro other content present
  unfold put
  split
  · exact present
  · rename_i absent
    simp only [Function.update_apply]
    split
    · rename_i same
      rw [same, absent] at present
      cases present
    · exact present

theorem put_present (objects : Objects) (digest : Digest) (bytes : Bytes) :
    (objects.put digest bytes).1 digest = some ((objects digest).getD bytes) := by
  unfold put
  split <;> rename_i found <;> simp [found]

theorem put_other (objects : Objects) {digest other : Digest} (bytes : Bytes)
    (different : other ≠ digest) : (objects.put digest bytes).1 other = objects other := by
  unfold put
  split
  · rfl
  · exact Function.update_of_ne different _ _

theorem put_cases {objects : Objects} {digest other : Digest} {bytes content : Bytes}
    (present : (objects.put digest bytes).1 other = some content) :
    objects other = some content ∨ (other = digest ∧ content = bytes) := by
  by_cases same : other = digest
  · subst same
    rw [put_present] at present
    cases found : objects other with
    | none =>
        rw [found] at present
        exact .inr ⟨rfl, (Option.some.inj present).symm⟩
    | some held =>
        rw [found] at present
        exact .inl present
  · rw [put_other objects bytes same] at present
    exact .inl present

end Objects
section calls

theorem set_cases {α : Type} {list : List α} {index other : Nat} {value found : α}
    (present : (list.set index value)[other]? = some found) :
    (other = index ∧ found = value) ∨ (other ≠ index ∧ list[other]? = some found) := by
  rw [List.getElem?_set] at present
  split at present
  next same =>
    split at present
    · exact .inl ⟨same.symm, (Option.some.inj present).symm⟩
    · cases present
  next different => exact .inr ⟨fun same => different same.symm, present⟩

end calls

end MbxCache
