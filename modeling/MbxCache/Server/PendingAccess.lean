import Mathlib.Algebra.Group.Action.Defs
import Mathlib.Algebra.Order.BigOperators.Group.Multiset
import Mathlib.Data.Finmap
import MbxCache.ApiError
import MbxCache.Concurrent.Footprint
import MbxCache.Digest
import MbxCache.Mailbox

/-! Blob accesses that were served but not yet written (`server.rs`). -/

namespace MbxCache

open Concurrent

/-- `MAX_PENDING_ACCESSES` -/
def maxPendingAccesses : Nat := 100000

abbrev AccessSets := Finmap fun _ : String => Finset Digest

structure PendingAccess where
  namespaces : AccessSets
  /-- Digests across all namespaces. -/
  len : Nat

namespace PendingAccess

def empty : PendingAccess := ⟨∅, 0⟩

/-- The loop of `record`, over the set of one namespace and the total. -/
def note : List Digest → Finset Digest → Nat → Finset Digest × Nat
  | [], held, len => (held, len)
  | digest :: rest, held, len =>
      if maxPendingAccesses ≤ len then (held, len)
      else if digest ∈ held then note rest held len
      else note rest (insert digest held) (len + 1)

/-- `PendingAccess::record` -/
def record (pending : PendingAccess) (ns : String) (digests : List Digest) : PendingAccess :=
  if digests = [] ∨ maxPendingAccesses ≤ pending.len then pending
  else
    let namespaces :=
      if ns ∈ pending.namespaces then pending.namespaces else pending.namespaces.insert ns ∅
    match namespaces.lookup ns with
    -- It was inserted above.
    | none => pending
    | some held =>
        let (held, len) := note digests held pending.len
        ⟨namespaces.insert ns held, len⟩

def entries (pending : PendingAccess) : Set (String × Digest) :=
  {entry | ∃ held, pending.namespaces.lookup entry.1 = some held ∧ entry.2 ∈ held}

def total (pending : PendingAccess) : Nat :=
  (pending.namespaces.entries.map fun set => set.2.card).sum

/-- The total is that of the sets, within the limit, and no set is empty. -/
structure Consistent (pending : PendingAccess) : Prop where
  counted : pending.len = pending.total
  bounded : pending.len ≤ maxPendingAccesses
  filled : ∀ ns, pending.namespaces.lookup ns ≠ some ∅

end PendingAccess

structure Iteration where
  namespaces : AccessSets → List (Σ _ : String, Finset Digest)
  digests : String → Finset Digest → List Digest
  namespaces_all : ∀ sets, (namespaces sets : Multiset (Σ _ : String, Finset Digest)) = sets.entries
  digests_all : ∀ ns held, (digests ns held : Multiset Digest) = held.val

noncomputable instance : Inhabited Iteration where
  default :=
    { namespaces := fun sets => sets.entries.toList
      digests := fun _ held => held.toList
      namespaces_all := fun sets => sets.entries.coe_toList
      digests_all := fun _ held => held.val.coe_toList }

inductive AccessOp
  | record (ns : String) (digests : List Digest)
  | take
  | touchBlobs (ns : String) (digests : List Digest)

def AccessOp.Value : AccessOp → Type
  | .record _ _ => Unit
  | .take => PendingAccess
  | .touchBlobs _ _ => Except Failure Unit

abbrev Accessing : Interface := ⟨AccessOp, AccessOp.Value, Empty, Empty⟩

structure FlushReport where
  failed : Nat
  lastError : Option (String × Failure)
  deriving DecidableEq, Repr

namespace FlushReport

def note (report : FlushReport) (ns : String) : Except Failure Unit → FlushReport
  | .ok () => report
  | .error error => ⟨report.failed + 1, some (ns, error)⟩

def warning (report : FlushReport) : Option (String × Failure × Nat) :=
  report.lastError.map fun (ns, error) => (ns, error, report.failed)

end FlushReport

abbrev FlushWarning := Option (String × Failure × Nat)

def touchChunks (ns : String) : List (List Digest) → FlushReport → Program Accessing FlushReport
  | [], report => .done report
  | chunk :: rest, report =>
      .call (.touchBlobs ns chunk) fun result => touchChunks ns rest (report.note ns result)

def touchNamespaces (order : Iteration) :
    List (Σ _ : String, Finset Digest) → FlushReport → Program Accessing FlushReport
  | [], report => .done report
  | ⟨ns, held⟩ :: rest, report =>
      (touchChunks ns (Mailbox.chunks maxBatchItems (order.digests ns held)) report).bind
        (touchNamespaces order rest)

/-- `PendingAccess::flush` -/
def flush (order : Iteration) : Program Accessing FlushWarning :=
  .call .take fun pending : PendingAccess =>
    (touchNamespaces order (order.namespaces pending.namespaces) ⟨0, none⟩).bind fun report =>
      .done report.warning

inductive AccessRequest
  | record (ns : String) (digests : List Digest)
  | flush (order : Iteration)

def AccessRequest.program : AccessRequest → Program Accessing FlushWarning
  | .record ns digests => .call (.record ns digests) fun _ => .done none
  | .flush order => MbxCache.flush order

/-- Noting and taking happen under the lock. What a write comes to is up to the metadata store. -/
def accessExec (fault : Option Failure) :
    (op : AccessOp) → PendingAccess → PendingAccess × op.Value
  | .record ns digests, pending => (pending.record ns digests, ())
  | .take, pending => (PendingAccess.empty, pending)
  | .touchBlobs _ _, pending =>
      (pending, match fault with
        | none => .ok ()
        | some failure => .error failure)

abbrev accessMachine : Machine Accessing where
  State := PendingAccess
  Choice := Option Failure
  exec := accessExec
  pick _ := 0
  body := nofun
  detached := nofun

namespace PendingAccess

theorem same_sets {one other : AccessSets} (ns : String) (here : one.lookup ns = other.lookup ns)
    (elsewhere : ∀ name ≠ ns, one.lookup name = other.lookup name) : one = other := by
  apply Finmap.ext_lookup
  intro name
  by_cases same : name = ns
  · rw [same, here]
  · exact elsewhere name same

theorem erase_insert (sets : AccessSets) (ns : String) (held : Finset Digest) :
    (sets.erase ns).insert ns held = sets.insert ns held := by
  apply same_sets ns
  · rw [Finmap.lookup_insert, Finmap.lookup_insert]
  · intro other different
    rw [Finmap.lookup_insert_of_ne _ different, Finmap.lookup_insert_of_ne _ different,
      Finmap.lookup_erase_ne different]

theorem sum_insert (sets : AccessSets) (ns : String) (held : Finset Digest) :
    ((sets.insert ns held).entries.map fun set => set.2.card).sum =
      held.card + ((sets.erase ns).entries.map fun set => set.2.card).sum := by
  rw [← erase_insert, Finmap.entries_insert_of_notMem Finmap.notMem_erase_self, Multiset.map_cons,
    Multiset.sum_cons]

def held (pending : PendingAccess) (ns : String) : Finset Digest :=
  (pending.namespaces.lookup ns).getD ∅

theorem mem_entries {pending : PendingAccess} {ns : String} {digest : Digest} :
    (ns, digest) ∈ pending.entries ↔ digest ∈ pending.held ns := by
  unfold held
  cases found : pending.namespaces.lookup ns with
  | none => simp [entries, found]
  | some held => simp [entries, found]

theorem total_held (pending : PendingAccess) (ns : String) :
    pending.total = (pending.held ns).card +
      ((pending.namespaces.erase ns).entries.map fun set => set.2.card).sum := by
  unfold total held
  cases found : pending.namespaces.lookup ns with
  | none =>
      have same : pending.namespaces.erase ns = pending.namespaces := by
        apply same_sets ns
        · rw [Finmap.lookup_erase, found]
        · exact fun other different => Finmap.lookup_erase_ne different
      rw [same]
      simp
  | some held =>
      have same : pending.namespaces.insert ns held = pending.namespaces := by
        apply same_sets ns
        · rw [Finmap.lookup_insert, found]
        · exact fun other different => Finmap.lookup_insert_of_ne _ different
      have parts := sum_insert pending.namespaces ns held
      rw [same] at parts
      exact parts

section note
variable {digests : List Digest} {held : Finset Digest} {len : Nat}

theorem note_grows : held ⊆ (note digests held len).1 := by
  fun_induction note digests held len with
  | case1 => exact Finset.Subset.refl _
  | case2 => exact Finset.Subset.refl _
  | case3 digest rest held len room present ih => exact ih
  | case4 digest rest held len room absent ih => exact (Finset.subset_insert _ _).trans ih

theorem note_counts :
    (note digests held len).2 + held.card = len + (note digests held len).1.card := by
  fun_induction note digests held len with
  | case1 => rfl
  | case2 => rfl
  | case3 digest rest held len room present ih => exact ih
  | case4 digest rest held len room absent ih =>
      rw [Finset.card_insert_of_notMem absent] at ih
      omega

theorem note_within (bounded : len ≤ maxPendingAccesses) :
    (note digests held len).2 ≤ maxPendingAccesses := by
  fun_induction note digests held len with
  | case1 => exact bounded
  | case2 => exact bounded
  | case3 digest rest held len room present ih => exact ih bounded
  | case4 digest rest held len room absent ih => exact ih (by omega)

theorem note_given {digest : Digest} (member : digest ∈ (note digests held len).1) :
    digest ∈ held ∨ digest ∈ digests := by
  fun_induction note digests held len with
  | case1 => exact .inl member
  | case2 => exact .inl member
  | case3 first rest held len room present ih =>
      exact (ih member).imp_right (List.mem_cons_of_mem first)
  | case4 first rest held len room absent ih =>
      rcases ih member with before | later
      · rcases Finset.mem_insert.mp before with rfl | already
        · exact .inr List.mem_cons_self
        · exact .inl already
      · exact .inr (List.mem_cons_of_mem first later)

/-- Something is left out only when the limit is reached. -/
theorem note_all : (∀ digest ∈ digests, digest ∈ (note digests held len).1) ∨
    maxPendingAccesses ≤ (note digests held len).2 := by
  fun_induction note digests held len with
  | case1 => exact .inl (List.forall_mem_nil _)
  | case2 digest rest held len full => exact .inr full
  | case3 first rest held len room present ih =>
      exact ih.imp_left fun all => List.forall_mem_cons.mpr ⟨note_grows present, all⟩
  | case4 first rest held len room absent ih =>
      exact ih.imp_left fun all =>
        List.forall_mem_cons.mpr ⟨note_grows (Finset.mem_insert_self first held), all⟩

theorem note_nonempty (given : digests ≠ []) (room : len < maxPendingAccesses) :
    (note digests held len).1 ≠ ∅ := by
  cases digests with
  | nil => exact absurd rfl given
  | cons first rest =>
      rw [note, if_neg (by omega)]
      split
      next present => exact Finset.ne_empty_of_mem (note_grows present)
      next => exact Finset.ne_empty_of_mem (note_grows (Finset.mem_insert_self first held))

end note

section record
variable {pending : PendingAccess} {ns : String} {digests : List Digest}

theorem record_cases (pending : PendingAccess) (ns : String) (digests : List Digest) :
    ((digests = [] ∨ maxPendingAccesses ≤ pending.len) ∧ pending.record ns digests = pending) ∨
      (digests ≠ [] ∧ pending.len < maxPendingAccesses) := by
  by_cases nothing : digests = [] ∨ maxPendingAccesses ≤ pending.len
  · exact .inl ⟨nothing, if_pos nothing⟩
  · obtain ⟨given, room⟩ := not_or.mp nothing
    exact .inr ⟨given, Nat.not_le.mp room⟩

theorem record_some (given : digests ≠ []) (room : pending.len < maxPendingAccesses) :
    pending.record ns digests =
      ⟨pending.namespaces.insert ns (note digests (pending.held ns) pending.len).1,
        (note digests (pending.held ns) pending.len).2⟩ := by
  unfold record
  rw [if_neg (not_or.mpr ⟨given, Nat.not_le.mpr room⟩)]
  by_cases present : ns ∈ pending.namespaces
  · obtain ⟨held, found⟩ := Finmap.mem_iff.mp present
    simp only [if_pos present, found, PendingAccess.held, Option.getD_some]
  · have absent := Finmap.lookup_eq_none.mpr present
    simp only [if_neg present, Finmap.lookup_insert, Finmap.insert_insert, PendingAccess.held,
      absent, Option.getD_none]

theorem record_held (given : digests ≠ []) (room : pending.len < maxPendingAccesses)
    (other : String) : (pending.record ns digests).held other =
      if other = ns then (note digests (pending.held ns) pending.len).1
      else pending.held other := by
  rw [record_some given room]
  unfold PendingAccess.held
  split
  next same => rw [same, Finmap.lookup_insert, Option.getD_some]
  next different => rw [Finmap.lookup_insert_of_ne _ different]

theorem Consistent.empty : empty.Consistent :=
  ⟨rfl, Nat.zero_le _, fun ns => by simp [PendingAccess.empty]⟩

theorem Consistent.record (consistent : pending.Consistent) :
    (pending.record ns digests).Consistent := by
  rcases record_cases pending ns digests with ⟨_, same⟩ | ⟨given, room⟩
  · rwa [same]
  · rw [record_some given room]
    constructor
    · have grown : (note digests (pending.held ns) pending.len).2 + (pending.held ns).card =
          pending.len + (note digests (pending.held ns) pending.len).1.card := note_counts
      have before := consistent.counted.trans (pending.total_held ns)
      have after := sum_insert pending.namespaces ns (note digests (pending.held ns) pending.len).1
      change (note digests (pending.held ns) pending.len).2 = Multiset.sum _
      rw [after]
      omega
    · exact note_within consistent.bounded
    · intro other
      by_cases same : other = ns
      · rw [same, Finmap.lookup_insert]
        exact fun empty => note_nonempty given room (Option.some.inj empty)
      · rw [Finmap.lookup_insert_of_ne _ same]
        exact consistent.filled other

/-- No more namespaces are held than digests. -/
theorem Consistent.few (consistent : pending.Consistent) :
    pending.namespaces.keys.card ≤ pending.len := by
  have sized : ∀ set ∈ pending.namespaces.entries, 1 ≤ set.2.card := by
    intro set member
    rw [Nat.one_le_iff_ne_zero, ne_eq, Finset.card_eq_zero]
    intro empty
    obtain ⟨ns, held⟩ := set
    have found := Finmap.mem_lookup_iff.mpr member
    exact consistent.filled ns (found.trans (congrArg some empty))
  calc pending.namespaces.keys.card
      = (pending.namespaces.entries.map fun set => set.2.card).card • 1 := by
        rw [Multiset.card_map, smul_eq_mul, mul_one]
        exact Multiset.card_map _ _
    _ ≤ pending.total := by
        apply Multiset.card_nsmul_le_sum
        intro size member
        obtain ⟨set, present, rfl⟩ := Multiset.mem_map.mp member
        exact sized set present
    _ = pending.len := consistent.counted.symm

theorem record_grows : pending.entries ⊆ (pending.record ns digests).entries := by
  rintro ⟨other, digest⟩ member
  rcases record_cases pending ns digests with ⟨_, same⟩ | ⟨given, room⟩
  · rwa [same]
  · rw [mem_entries] at member ⊢
    rw [record_held given room]
    split
    next same => exact note_grows (same ▸ member)
    next => exact member

theorem record_added {other : String} {digest : Digest}
    (member : (other, digest) ∈ (pending.record ns digests).entries)
    (absent : (other, digest) ∉ pending.entries) : other = ns ∧ digest ∈ digests := by
  rcases record_cases pending ns digests with ⟨_, same⟩ | ⟨given, room⟩
  · rw [same] at member
    exact absurd member absent
  · rw [mem_entries] at member absent
    rw [record_held given room] at member
    split at member
    next same =>
      refine ⟨same, (note_given member).resolve_left fun before => absent ?_⟩
      rwa [same]
    next => exact absurd member absent

/-- Every digest of a call is pending afterwards, unless the limit is reached. -/
theorem record_all : (∀ digest ∈ digests, (ns, digest) ∈ (pending.record ns digests).entries) ∨
    maxPendingAccesses ≤ (pending.record ns digests).len := by
  rcases record_cases pending ns digests with ⟨nothing, same⟩ | ⟨given, room⟩
  · rw [same]
    refine nothing.imp_left fun empty digest member => ?_
    rw [empty] at member
    cases member
  · have held : (pending.record ns digests).held ns =
        (note digests (pending.held ns) pending.len).1 := by
      rw [record_held given room, if_pos rfl]
    simp only [mem_entries, held]
    rw [record_some given room]
    exact note_all

end record
end PendingAccess

def touched (calls : List (String × List Digest)) : List (String × Digest) :=
  calls.flatMap fun call => call.2.map (call.1, ·)

namespace Iteration

variable (order : Iteration)

def callsFor (ns : String) (held : Finset Digest) : List (String × List Digest) :=
  (Mailbox.chunks maxBatchItems (order.digests ns held)).map (ns, ·)

def calls (sets : AccessSets) : List (String × List Digest) :=
  (order.namespaces sets).flatMap fun set => order.callsFor set.1 set.2

theorem touched_callsFor (ns : String) (held : Finset Digest) :
    touched (order.callsFor ns held) = (order.digests ns held).map (ns, ·) := by
  have whole : (Mailbox.chunks maxBatchItems (order.digests ns held)).flatten =
      order.digests ns held := Mailbox.chunks_flatten (by decide) _
  calc touched (order.callsFor ns held)
      = ((Mailbox.chunks maxBatchItems (order.digests ns held)).map
          (List.map (ns, ·))).flatten := by
        rw [touched, callsFor, List.flatMap_map]
        rfl
    _ = (order.digests ns held).map (ns, ·) := by rw [← List.map_flatten, whole]

theorem touched_calls (sets : AccessSets) : touched (order.calls sets) =
    (order.namespaces sets).flatMap fun set => (order.digests set.1 set.2).map (set.1, ·) := by
  unfold calls touched
  rw [List.flatMap_assoc]
  exact List.flatMap_congr fun set _ => order.touched_callsFor set.1 set.2

theorem mem_namespaces {sets : AccessSets} {set : Σ _ : String, Finset Digest} :
    set ∈ order.namespaces sets ↔ sets.lookup set.1 = some set.2 := by
  rw [← Multiset.mem_coe, order.namespaces_all]
  exact Finmap.mem_lookup_iff.symm

theorem mem_digests {ns : String} {held : Finset Digest} {digest : Digest} :
    digest ∈ order.digests ns held ↔ digest ∈ held := by
  rw [← Multiset.mem_coe, order.digests_all]
  rfl

theorem calls_sized {sets : AccessSets} {call : String × List Digest}
    (member : call ∈ order.calls sets) : call.2 ≠ [] ∧ call.2.length ≤ maxBatchItems := by
  obtain ⟨set, _, within⟩ := List.mem_flatMap.mp member
  obtain ⟨chunk, piece, rfl⟩ := List.mem_map.mp within
  exact Mailbox.chunks_sized piece

theorem mem_touched {pending : PendingAccess} {entry : String × Digest} :
    entry ∈ touched (order.calls pending.namespaces) ↔ entry ∈ pending.entries := by
  rw [touched_calls, List.mem_flatMap]
  constructor
  · rintro ⟨set, present, within⟩
    obtain ⟨digest, member, rfl⟩ := List.mem_map.mp within
    exact ⟨set.2, order.mem_namespaces.mp present, order.mem_digests.mp member⟩
  · rintro ⟨held, found, member⟩
    exact ⟨⟨entry.1, held⟩, order.mem_namespaces.mpr found,
      List.mem_map.mpr ⟨entry.2, order.mem_digests.mpr member, rfl⟩⟩

/-- A flush writes nothing twice. -/
theorem touched_nodup (sets : AccessSets) : (touched (order.calls sets)).Nodup := by
  rw [touched_calls, List.nodup_flatMap]
  constructor
  · intro set _
    have once : (order.digests set.1 set.2).Nodup := by
      rw [← Multiset.coe_nodup, order.digests_all]
      exact set.2.nodup
    exact once.map fun _ _ same => (Prod.mk.inj same).2
  · have keys : (order.namespaces sets).NodupKeys := by
      rw [← Multiset.coe_nodupKeys, order.namespaces_all]
      exact sets.nodupKeys
    refine (List.nodupKeys_iff_pairwise.mp keys).imp fun {one other} differ entry first second => ?_
    obtain ⟨_, _, rfl⟩ := List.mem_map.mp first
    obtain ⟨_, _, same⟩ := List.mem_map.mp second
    exact differ (Prod.mk.inj same).1.symm

end Iteration
end MbxCache
