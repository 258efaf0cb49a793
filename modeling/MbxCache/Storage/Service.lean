import MbxCache.Concurrent.Linear
import MbxCache.Storage.GcsRuns

/-! Object storage as many calls use it at once. -/

namespace MbxCache

open Concurrent SerialObject

abbrev ValidDigest := { digest : Digest // digest.validate = true }

inductive BlobCall
  | put (digest : ValidDigest) (bytes : Bytes)
  | get (digest : ValidDigest)
  deriving DecidableEq, Repr

inductive BlobAnswer
  | stored (outcome : PutOutcome)
  | found (content : Option Bytes)
  deriving DecidableEq, Repr

/-- What a service may do besides what is asked: tell a put of the object it has created
itself, and create an object before it fills it. -/
structure Manners where
  repeats : Bool
  unfilled : Bool
  deriving DecidableEq, Repr

abbrev Blobs := ValidDigest → Option Bytes

section Create

variable {objects : Blobs} {digest other : ValidDigest} {bytes content : Bytes}

theorem createOnly_present (objects : Blobs) (digest : ValidDigest) (bytes : Bytes) :
    (createOnly objects digest bytes).1 digest = some ((objects digest).getD bytes) := by
  cases held : objects digest <;> simp [createOnly, held]

theorem createOnly_origin
    (held : (createOnly objects digest bytes).1 other = some content) :
    objects other = some content ∨ (other = digest ∧ content = bytes) := by
  by_cases same : other = digest
  · subst same
    rw [createOnly_present] at held
    cases known : objects other with
    | none =>
        rw [known] at held
        exact .inr ⟨rfl, (Option.some.inj held).symm⟩
    | some old =>
        rw [known] at held
        exact .inl held
  · rw [createOnly_other same] at held
    exact .inl held

end Create

/-- The stored objects, and those that are there but not filled yet. -/
@[ext]
structure StoredObjects where
  blobs : Blobs
  unfilled : Set ValidDigest
  apart : ∀ digest ∈ unfilled, blobs digest = none

namespace StoredObjects

def whole (blobs : Blobs) : StoredObjects := ⟨blobs, ∅, by simp⟩

def create (objects : StoredObjects) (digest : ValidDigest) (bytes : Bytes) : StoredObjects where
  blobs := (createOnly objects.blobs digest bytes).1
  unfilled := objects.unfilled \ {digest}
  apart other member := by
    rw [createOnly_other member.2]
    exact objects.apart other member.1

theorem create_present {objects : StoredObjects} {digest : ValidDigest} {content : Bytes}
    (held : objects.blobs digest = some content) (bytes : Bytes) :
    objects.create digest bytes = objects := by
  have filled : digest ∉ objects.unfilled := by
    intro unfilled
    cases held.symm.trans (objects.apart digest unfilled)
  refine StoredObjects.ext ?_ (Set.sdiff_singleton_eq_self filled)
  simp only [create, createOnly, held]

def reserve (objects : StoredObjects) (digest : ValidDigest)
    (absent : objects.blobs digest = none) : StoredObjects where
  blobs := objects.blobs
  unfilled := insert digest objects.unfilled
  apart other member := by
    rcases member with rfl | known
    · exact absent
    · exact objects.apart other known

end StoredObjects

/-- What a call does to the stored objects, and its answer. An object that is not filled yet is
served as an empty one. -/
inductive Stores (manners : Manners) (objects : StoredObjects) :
    BlobCall → StoredObjects → BlobAnswer → Prop
  | put {digest : ValidDigest} {bytes : Bytes} {outcome : PutOutcome}
      (told : outcome = (createOnly objects.blobs digest bytes).2 ∨
        (manners.repeats = true ∧ outcome = .alreadyExists)) :
      Stores manners objects (.put digest bytes) (objects.create digest bytes) (.stored outcome)
  | get {digest : ValidDigest} (filled : digest ∉ objects.unfilled) :
      Stores manners objects (.get digest) objects (.found (objects.blobs digest))
  | early {digest : ValidDigest} (unfilled : digest ∈ objects.unfilled) :
      Stores manners objects (.get digest) objects (.found (some []))

/-- Only a put leaves something before it acts, and only its own object. -/
inductive Reserves (manners : Manners) (objects : StoredObjects) : BlobCall → StoredObjects → Prop
  | put {digest : ValidDigest} {bytes : Bytes} (late : manners.unfilled = true)
      (absent : objects.blobs digest = none) :
      Reserves manners objects (.put digest bytes) (objects.reserve digest absent)

def storage (manners : Manners) : SerialObject where
  State := StoredObjects
  Call := BlobCall
  Answer := BlobAnswer
  Does := Stores manners
  Begins := Reserves manners

section Order

variable {manners : Manners} {start objects after : StoredObjects} {call : BlobCall}
  {answer : BlobAnswer} {digest : ValidDigest} {bytes content : Bytes}
  {deed : (storage manners).Deed} {order : List (storage manners).Deed}

theorem Stores.present (stores : Stores manners objects (.put digest bytes) after answer) :
    ∃ content, after.blobs digest = some content := by
  cases stores
  exact ⟨_, createOnly_present objects.blobs digest bytes⟩

theorem Stores.created (stores : Stores manners objects (.put digest bytes) after
    (.stored .created)) : objects.blobs digest = none := by
  cases stores with
  | put told =>
      rcases told with same | ⟨-, wrong⟩
      · cases held : objects.blobs digest with
        | none => rfl
        | some content =>
            simp only [createOnly, held] at same
            cases same
      · cases wrong

theorem Stores.found {found : Option Bytes}
    (stores : Stores manners objects (.get digest) after (.found found))
    (held : objects.blobs digest = some bytes) : found = some bytes := by
  cases stores with
  | get filled => exact held
  | early unfilled => cases held.symm.trans (objects.apart digest unfilled)

theorem deed_within (does : deed.Does objects after) (held : objects.blobs digest = some bytes) :
    after.blobs digest = some bytes := by
  obtain ⟨_, call, answer⟩ := deed
  cases answer with
  | none =>
      have reserves : Reserves manners objects call after := does
      cases reserves
      exact held
  | some answer =>
      have stores : Stores manners objects call after answer := does
      cases stores with
      | put told => exact createOnly_kept held
      | get filled => exact held
      | early unfilled => exact held

theorem deed_origin (does : deed.Does objects after) (held : after.blobs digest = some bytes) :
    objects.blobs digest = some bytes ∨ deed.call = .put digest bytes := by
  obtain ⟨_, call, answer⟩ := deed
  cases answer with
  | none =>
      have reserves : Reserves manners objects call after := does
      cases reserves
      exact .inl held
  | some answer =>
      have stores : Stores manners objects call after answer := does
      cases stores with
      | put told =>
          rcases createOnly_origin held with old | ⟨rfl, rfl⟩
          · exact .inl old
          · exact .inr rfl
      | get filled => exact .inl held
      | early unfilled => exact .inl held

theorem deed_unfilled (does : deed.Does objects after) (unfilled : digest ∈ after.unfilled) :
    digest ∈ objects.unfilled ∨
      (manners.unfilled = true ∧ ∃ bytes, deed.call = .put digest bytes) := by
  obtain ⟨_, call, answer⟩ := deed
  cases answer with
  | none =>
      have reserves : Reserves manners objects call after := does
      cases reserves with
      | @put _ bytes late absent =>
          rcases unfilled with rfl | known
          · exact .inr ⟨late, bytes, rfl⟩
          · exact .inl known
  | some answer =>
      have stores : Stores manners objects call after answer := does
      cases stores with
      | put told => exact .inl unfilled.1
      | get filled => exact .inl unfilled
      | early early => exact .inl unfilled

theorem replays_within (replays : Replays (O := storage manners) start order after)
    (held : start.blobs digest = some bytes) : after.blobs digest = some bytes := by
  induction replays with
  | none => exact held
  | more first does ih => exact deed_within does ih

theorem replays_origin (replays : Replays (O := storage manners) start order after)
    (held : after.blobs digest = some bytes) : start.blobs digest = some bytes ∨
      ∃ deed ∈ order, deed.call = .put digest bytes := by
  induction replays with
  | none => exact .inl held
  | more first does ih =>
      rcases deed_origin does held with old | put
      · rcases ih old with known | ⟨deed, member, call⟩
        · exact .inl known
        · exact .inr ⟨deed, List.mem_append_left _ member, call⟩
      · exact .inr ⟨_, List.mem_append_right _ List.mem_cons_self, put⟩

theorem replays_unfilled (replays : Replays (O := storage manners) start order after)
    (unfilled : digest ∈ after.unfilled) : digest ∈ start.unfilled ∨
      (manners.unfilled = true ∧ ∃ deed ∈ order, ∃ bytes, deed.call = .put digest bytes) := by
  induction replays with
  | none => exact .inl unfilled
  | more first does ih =>
      rcases deed_unfilled does unfilled with old | ⟨late, bytes, put⟩
      · rcases ih old with known | ⟨late, deed, member, call⟩
        · exact .inl known
        · exact .inr ⟨late, deed, List.mem_append_left _ member, call⟩
      · exact .inr ⟨late, _, List.mem_append_right _ List.mem_cons_self, bytes, put⟩

theorem replays_created_once {one other : (storage manners).Deed} {answer : BlobAnswer}
    (replays : Replays (O := storage manners) start order after)
    (call : one.call = .put digest bytes) (acted : one.answer = some answer)
    (call' : other.call = .put digest content) (created : other.answer = some (.stored .created)) :
    ¬ Precedes one other order := by
  intro precedes
  obtain ⟨front, middle, back, rfl⟩ := precedes_split precedes
  obtain ⟨before, -, rest⟩ := replays.split
  obtain ⟨between, does, rest⟩ := rest.first
  obtain ⟨late, more, rest⟩ := rest.split
  obtain ⟨last, does', -⟩ := rest.first
  rw [Deed.Does, call, acted] at does
  rw [Deed.Does, call', created] at does'
  obtain ⟨held, present⟩ := Stores.present does
  have absent := Stores.created does'
  rw [replays_within more present] at absent
  cases absent

/-- What is put is found by all that comes after. -/
theorem replays_found {one other : (storage manners).Deed} {answer : BlobAnswer}
    {found : Option Bytes} (replays : Replays (O := storage manners) start order after)
    (call : one.call = .put digest bytes) (acted : one.answer = some answer)
    (call' : other.call = .get digest) (answered : other.answer = some (.found found))
    (precedes : Precedes one other order) :
    found = after.blobs digest ∧ ∃ held, after.blobs digest = some held := by
  obtain ⟨front, middle, back, rfl⟩ := precedes_split precedes
  obtain ⟨before, -, rest⟩ := replays.split
  obtain ⟨between, does, rest⟩ := rest.first
  obtain ⟨late, more, rest⟩ := rest.split
  obtain ⟨last, does', rest⟩ := rest.first
  have gets := does'
  rw [Deed.Does, call, acted] at does
  rw [Deed.Does, call', answered] at gets
  obtain ⟨held, present⟩ := Stores.present does
  have kept := replays_within more present
  have final := replays_within rest (deed_within does' kept)
  exact ⟨(Stores.found gets kept).trans final.symm, held, final⟩

end Order

/-- What callers can rely on: an object is created once at most, what is found was put or was
there, and once a put has been answered every get that comes after finds one same content. An
object is found empty that was put so, or that a put has begun and not filled. -/
structure Dependable (manners : Manners) (start : StoredObjects)
    (history : List (storage manners).Notice) : Prop where
  created_once : ∀ i j digest bytes bytes', .called i (.put digest bytes) ∈ history →
    .called j (.put digest bytes') ∈ history → .answered i (.stored .created) ∈ history →
    .answered j (.stored .created) ∈ history → i = j
  genuine : ∀ i digest bytes, .called i (.get digest) ∈ history →
    .answered i (.found (some bytes)) ∈ history → start.blobs digest = some bytes ∨
      (∃ j, .called j (.put digest bytes) ∈ history) ∨
      (bytes = [] ∧ (digest ∈ start.unfilled ∨
        (manners.unfilled = true ∧ ∃ j content, .called j (.put digest content) ∈ history)))
  lasting : ∃ content : ValidDigest → Bytes, ∀ i j digest bytes outcome found,
    .called i (.put digest bytes) ∈ history →
    Precedes (.answered i (.stored outcome)) (.called j (.get digest)) history →
    .answered j (.found found) ∈ history → found = some (content digest) ∧
      (start.blobs digest = some (content digest) ∨
        ∃ k, .called k (.put digest (content digest)) ∈ history)

/-- A service whose calls act one after another is dependable. -/
theorem dependable {manners : Manners} {start after : StoredObjects}
    {history : List (storage manners).Notice} {order : List (storage manners).Deed}
    (linear : Linearizes start history order)
    (replays : Replays (O := storage manners) start order after) :
    Dependable manners start history where
  created_once i j digest bytes bytes' call call' created created' := by
    obtain ⟨one, member, rfl, answer⟩ := linear.answered i _ created
    obtain ⟨other, member', rfl, answer'⟩ := linear.answered j _ created'
    have called := linear.apart _ _ _ (linear.called one member) call
    have called' := linear.apart _ _ _ (linear.called other member') call'
    by_contra apart
    rcases precedes_or member member' (fun same => apart (congrArg Deed.id same)) with first | last
    · exact replays_created_once replays called answer called' answer' first
    · exact replays_created_once replays called' answer' called answer last
  genuine i digest bytes call answered := by
    obtain ⟨deed, member, rfl, answer⟩ := linear.answered i _ answered
    have called := linear.apart _ _ _ (linear.called deed member) call
    obtain ⟨front, back, rfl⟩ := List.append_of_mem member
    obtain ⟨before, earlier, rest⟩ := replays.split
    obtain ⟨between, does, -⟩ := rest.first
    rw [Deed.Does, called, answer] at does
    generalize told : BlobAnswer.found (some bytes) = answer at does
    cases does with
    | get filled =>
        have held : before.blobs digest = some bytes := (BlobAnswer.found.inj told).symm
        rcases replays_origin earlier held with known | ⟨put, listed, same⟩
        · exact .inl known
        · refine .inr (.inl ⟨put.id, ?_⟩)
          exact same ▸ linear.called put (List.mem_append_left _ listed)
    | early unfilled =>
        have empty : bytes = [] := Option.some.inj (BlobAnswer.found.inj told)
        refine .inr (.inr ⟨empty, ?_⟩)
        rcases replays_unfilled earlier unfilled with known | ⟨late, put, listed, content, same⟩
        · exact .inl known
        · refine .inr ⟨late, put.id, content, ?_⟩
          exact same ▸ linear.called put (List.mem_append_left _ listed)
  lasting := by
    refine ⟨fun digest => (after.blobs digest).getD [], ?_⟩
    intro i j digest bytes outcome found call before answered
    have stored := List.Sublist.subset before List.mem_cons_self
    have asked := List.Sublist.subset before (List.mem_cons_of_mem _ List.mem_cons_self)
    obtain ⟨one, member, rfl, acted⟩ := linear.answered i _ stored
    obtain ⟨other, member', rfl, answer⟩ := linear.answered j _ answered
    have called := linear.apart _ _ _ (linear.called one member) call
    have called' := linear.apart _ _ _ (linear.called other member') asked
    have precedes := linear.ordered one member other member' _ _ before
    obtain ⟨same, held, final⟩ := replays_found replays called acted called' answer precedes
    have content : (after.blobs digest).getD [] = held := by rw [final, Option.getD_some]
    simp only [content]
    refine ⟨same.trans final, ?_⟩
    rcases replays_origin replays final with known | ⟨put, listed, put'⟩
    · exact .inl known
    · exact .inr ⟨put.id, put' ▸ linear.called put listed⟩

/-- All that callers see of a run is explained by an order in which their calls act one after
another, and what they can rely on holds. -/
structure Serialized {manners : Manners} (I : Implementation (storage manners))
    (view : I.State → StoredObjects) (start : I.State) (moves : List I.Move) : Prop where
  order : ∃ order, Linearizes (view start) (I.history start moves) order ∧
    Replays (O := storage manners) (view start) order (view (I.run start moves))
  dependable : Dependable manners (view start) (I.history start moves)

theorem Serialized.of_refines {manners : Manners} {I : Implementation (storage manners)}
    {sound : I.State → Prop} {atomic : I.State → (storage manners).Atomic}
    (refines : I.Refines sound atomic) {start : I.State} (holds : sound start)
    (unused : ∀ id, (atomic start).stage id = .idle) (moves : List I.Move) :
    Serialized I (fun state => (atomic state).state) start moves := by
  obtain ⟨order, linear, replays⟩ := refines.linearizes holds unused moves
  exact ⟨⟨order, linear, replays⟩, MbxCache.dependable linear replays⟩

end MbxCache
