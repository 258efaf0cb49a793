import MbxCache.Concurrent.Pledge
import MbxCache.Server.Delivers
import MbxCache.Server.PackLoop

namespace MbxCache

open Concurrent Pack

variable [Protocol] {M : Type} [MetadataStore M] {A B : Type} {ns : String}

/-- What a job that came to a result has done: a stored frame can be seen, and a blob that was
opened is the stored object. -/
def Pledged (state : ServerState M) : Job → Out → Prop
  | .store ns digest _, .stored (.ok _) => state.Sees ns digest
  | .read _ digest, .opened (some blob) => OpensTo state digest blob
  | _, _ => True

theorem Pledged.later {before after : ServerState M} (grows : ServerState.Grows before after)
    {job : Job} {out : Out} (pledged : Pledged before job out) : Pledged after job out := by
  cases job with
  | store ns digest bytes =>
      cases out with
      | stored result =>
          cases result with
          | error error => trivial
          | ok outcome => exact grows.rows ns digest pledged
      | opened blob => trivial
  | read ns digest =>
      cases out with
      | stored result => trivial
      | opened blob =>
          cases blob with
          | none => trivial
          | some blob => exact OpensTo.later pledged grows

def pledge (M : Type) [MetadataStore M] : Pledge (sharing M) where
  Holds job out state := Pledged state job out
  stable pledged grows := pledged.later grows

theorem Handler.Delivers.lift {handler : Handler A} {post : A → ServerState M → Prop}
    {state : Shared M} (delivers : handler.Delivers ns post state) (jobs : List Job) :
    (pledge M).Safe ns handler (fun result after => Handler.OkOrInternal post result after.1.1)
      (state, jobs) := Pledge.Safe.lift delivers jobs

theorem Handler.Ensures.lift {handler : Handler A} {post : A → ServerState M → Prop}
    {state : Shared M} (ensures : handler.Ensures ns post state) (jobs : List Job) :
    (pledge M).Safe ns handler
      (fun result after => ∀ value, result = .ok value → post value after.1.1) (state, jobs) :=
  Pledge.Safe.lift ensures jobs

theorem storeFrame_pledged {digest : Digest} {bytes : Bytes} {state : Shared M}
    (names : digest.Names bytes) :
    (sharing M).Safe ns (storeFrame ns digest bytes)
      (fun out after => Pledged after.1 (.store ns digest bytes) out) state := by
  apply safe_call
  · exact fun _ _ => names
  · exact fun _ _ => Discipline.Safe.done fun _ _ => trivial
  · intro _ before after outcome _ performed
    have put : (before.1.blobs.put digest bytes).1 = after.1.blobs :=
      congrArg ServerState.blobs (Prod.mk.inj (Except.ok.inj performed)).1
    have stored := Objects.put_present before.1.blobs digest bytes
    rw [put] at stored
    apply safe_call
    · intro last grows
      exact ⟨rfl, Option.isSome_iff_exists.mpr ⟨_, grows.blobs digest _ stored⟩⟩
    · exact fun _ _ => Discipline.Safe.done fun _ _ => trivial
    · intro _ early late value _ registered
      exact Discipline.Safe.done fun last grows =>
        grows.rows ns digest (registered_sees early.2.valid registered)

theorem openEntry_pledged {digest : Digest} {state : Shared M} (seen : state.1.Sees ns digest) :
    (sharing M).Safe ns (openEntry ns digest)
      (fun out after => Pledged after.1 (.read ns digest) out) state := by
  apply safe_call
  · exact fun _ grows => grows.rows ns digest seen
  · exact fun _ _ => Discipline.Safe.done fun _ _ => trivial
  · intro choice before after found grows performed
    obtain ⟨blob, rfl, opens⟩ := perform_get (grows.rows ns digest seen) performed
    simp only
    split
    · exact Discipline.Safe.done fun _ _ => trivial
    · exact Discipline.Safe.done fun _ more => opens.later more

theorem pledge_honoured : (pledge M).Honoured := by
  intro ns job state starts
  cases job with
  | store other digest bytes =>
      obtain ⟨rfl, names⟩ := starts
      exact storeFrame_pledged names
  | read other digest =>
      obtain ⟨rfl, seen⟩ := starts
      exact openEntry_pledged seen

abbrev Sight (M : Type) [MetadataStore M] := Pledge.View (sharing M)

/-- Each of some frames can be seen, or a store of it is waited for. -/
def Handed (ns : String) (stores : List Nat) (entries : List Entry) (sight : Sight M) : Prop :=
  ∀ entry ∈ entries, sight.1.1.Sees ns entry.digest ∨
    ∃ id ∈ stores, ∃ payload, sight.2[id]? = some (.store ns entry.digest payload)

theorem Handed.later {stores : List Nat} {entries : List Entry} {sight after : Sight M}
    (handed : Handed ns stores entries sight) (reaches : Pledge.Reaches sight after) :
    Handed ns stores entries after := by
  intro entry member
  rcases handed entry member with seen | ⟨id, waited, payload, started⟩
  · exact .inl (reaches.1.rows ns entry.digest seen)
  · exact .inr ⟨id, waited, payload, reaches.job started⟩

theorem Handed.taken {stores : List Nat} {entries : List Entry} {sight : Sight M} {id : Nat}
    {job : Job} {outcome : PutOutcome} (handed : Handed ns stores entries sight)
    (started : sight.2[id]? = some job)
    (pledged : Pledged sight.1.1 job (.stored (.ok outcome))) :
    Handed ns (stores.erase id) entries sight := by
  intro entry member
  rcases handed entry member with seen | ⟨other, waited, payload, begun⟩
  · exact .inl seen
  · by_cases same : other = id
    · subst same
      rw [started] at begun
      cases begun
      exact .inl pledged
    · exact .inr ⟨other, (List.mem_erase_of_ne same).mpr waited, payload, begun⟩

theorem Handed.started {stores : List Nat} {entries : List Entry} {sight : Sight M} {id : Nat}
    {entry : Entry} {payload : Bytes} (handed : Handed ns stores entries sight)
    (begun : sight.2[id]? = some (.store ns entry.digest payload)) :
    Handed ns (stores ++ [id]) (entries ++ [entry]) sight := by
  intro other member
  rcases List.mem_append.mp member with old | new
  · rcases handed other old with seen | ⟨one, waited, rest⟩
    · exact .inl seen
    · exact .inr ⟨one, List.mem_append_left _ waited, rest⟩
  · rw [List.mem_singleton.mp new]
    exact .inr ⟨id, List.mem_append_right _ (List.mem_singleton_self id), payload, begun⟩

def Reads.Gives (ns : String) (reads : Reads A) (aim : A → Uploading → Sight M → Prop)
    (sight : Sight M) : Prop :=
  (pledge M).Safe ns reads (fun result after =>
    ∀ value, result.2 = .ok value → aim value result.1 after) sight

namespace Uploading

variable {up : Uploading} {sight : Sight M}

/-- How far the loop has come: the frames completed so far are stored or being stored, and the
open one is spooled. -/
structure Progress (ns : String) (sum : Assembled) (up : Uploading) (sight : Sight M) : Prop where
  frame : Spools up.frame sum.opened
  handed : Handed ns up.stores sum.entries sight

variable {sum next last : Assembled}

theorem Progress.later {after : Sight M} (progress : Progress ns sum up sight)
    (reaches : Pledge.Reaches sight after) : Progress ns sum up after :=
  ⟨progress.frame, progress.handed.later reaches⟩

end Uploading

structure Packs (entries : List Entry) (bytes : Bytes) : Prop where
  encoded : encode entries = .ok bytes
  valid : ∀ entry ∈ entries, entry.Valid
  limits : ∃ maxBlobBytes maxBlobs maxPayloadBytes,
    WithinLimits entries maxBlobBytes maxBlobs maxPayloadBytes

theorem Packs.same {entries other : List Entry} {bytes : Bytes} (packs : Packs entries bytes)
    (packs' : Packs other bytes) : entries = other := by
  obtain ⟨_, _, _, limits⟩ := packs.limits
  obtain ⟨_, _, _, limits'⟩ := packs'.limits
  exact encode_inj packs.encoded packs'.encoded packs.valid packs'.valid limits limits'

end MbxCache
