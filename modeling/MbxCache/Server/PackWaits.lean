import MbxCache.Concurrent.Ending
import MbxCache.Server.PackUpload

namespace MbxCache

open Concurrent Pack

variable [Protocol] {A B : Type} {ns : String} {up : Uploading} {left : List Nat} {count : Nat}

def Op.Local (op : Op) : Prop := op = .localIo ∨ ∃ permits, op = .acquire permits

def Job.Stores (ns : String) (job : Job) : Prop := ∃ digest bytes, job = .store ns digest bytes

/-- A part of the loop that starts from an upload with these stores under way, and knows at its
end which are. -/
def Reads.Tracks (ns : String) (reads : Reads A) (left : List Nat) (count : Nat) : Prop :=
  reads.Gathers Op.Local (Job.Stores ns) (fun result left _ => result.1.stores = left) left count

namespace Uploading

theorem refuse_tracks (error : ApiError) :
    (up.refuse error : Reads A).Tracks ns up.stores count := rfl

theorem proceed_tracks {first : Reads A} {next : Uploading × Except ApiError A → Reads B}
    (tracks : first.Tracks ns left count)
    (rest : ∀ result count, (next result).Tracks ns result.1.stores count) :
    Reads.Tracks ns (first.bind next) left count := by
  apply Program.Gathers.bind tracks
  rintro result _ count rfl
  exact rest result count

theorem handle_tracks {handler : Handler A} {next : A → Reads B}
    (only : Program.Only Op.Local handler)
    (rest : ∀ value, (next value).Tracks ns up.stores count) :
    (up.handle handler next).Tracks ns up.stores count := by
  apply Program.Gathers.bind (only.gathers (Job.Stores ns) up.stores count)
  rintro result _ _ ⟨rfl, rfl⟩
  cases result with
  | error error => exact refuse_tracks error
  | ok value => exact rest value

omit [Protocol] in
theorem localIo_only : Program.Only Op.Local localIo := ⟨.inl rfl, fun _ => trivial⟩

omit [Protocol] in
theorem reserve_only (config : ServerConfig) (bytes : UInt64) :
    Program.Only Op.Local (reserve config bytes) := by
  unfold reserve
  simp only
  split
  · trivial
  · split
    · trivial
    · refine ⟨.inr ⟨_, rfl⟩, fun granted => ?_⟩
      cases granted with
      | error failure => trivial
      | ok granted => cases granted <;> trivial

theorem new_only (digest : Digest) : Program.Only Op.Local (PackFrame.new digest) :=
  .bindOk localIo_only fun _ => trivial

theorem write_only (frame : PackFrame) (payload : Bytes) :
    Program.Only Op.Local (frame.write payload) := by
  unfold PackFrame.write
  cases algorithmOf frame.digest with
  | error error => trivial
  | ok algorithm =>
      rw [Handler.pureStep_ok]
      exact .bindOk localIo_only fun _ => trivial

theorem verify_only (frame : PackFrame) : Program.Only Op.Local frame.verify :=
  .bindOk localIo_only fun _ => trivial

theorem next_gathers (some : up.stores ≠ []) :
    up.next.Gathers Op.Local (Job.Stores ns) (fun result left _ => result.1.stores = left ∧
      left.length + 1 = up.stores.length) up.stores count := by
  refine ⟨List.exists_mem_of_ne_nil _ some, fun _ member => member, ?_⟩
  intro id member out
  have fewer : (up.stores.erase id).length + 1 = up.stores.length := by
    rw [List.length_erase_of_mem member]
    exact Nat.succ_pred_eq_of_pos (List.length_pos_of_mem member)
  simp only
  split
  · exact ⟨rfl, fewer⟩
  · exact ⟨rfl, fewer⟩

theorem makeRoom_tracks (config : ServerConfig) :
    (up.makeRoom config).Tracks ns up.stores count := by
  unfold makeRoom
  split
  · rename_i full
    have some : up.stores ≠ [] := by
      intro none
      rw [none] at full
      simp at full
    exact (next_gathers some).mono fun _ _ _ holds => holds.1
  · rfl

theorem event_tracks (config : ServerConfig) (event : PackEvent) :
    (up.event config ns event).Tracks ns up.stores count := by
  cases event with
  | started digest =>
      apply handle_tracks (reserve_only config digest.size)
      intro _
      apply handle_tracks (new_only digest)
      exact fun frame => rfl
  | payload bytes =>
      cases held : up.frame with
      | none =>
          simp only [event, held]
          exact refuse_tracks _
      | some frame =>
          simp only [event, held]
          apply handle_tracks (write_only frame bytes)
          exact fun frame => rfl
  | complete =>
      cases held : up.frame with
      | none =>
          simp only [event, held]
          exact refuse_tracks _
      | some frame =>
          simp only [event, held]
          change Reads.Tracks ns _ ({ up with frame := none } : Uploading).stores count
          apply handle_tracks (verify_only frame)
          intro _
          apply proceed_tracks (makeRoom_tracks config)
          rintro ⟨up, error | _⟩ later
          · exact refuse_tracks error
          · exact ⟨⟨_, _, rfl⟩, rfl⟩

theorem events_tracks (config : ServerConfig) (events : List PackEvent) :
    (up.events config ns events).Tracks ns up.stores count := by
  induction events generalizing up count with
  | nil => rfl
  | cons first rest ih =>
      apply proceed_tracks (event_tracks config first)
      rintro ⟨up, error | _⟩ later
      · exact refuse_tracks error
      · exact ih

theorem chunks_tracks (config : ServerConfig) (reader : PackReader) (chunks : List Bytes) :
    (up.chunks config ns reader chunks).Tracks ns up.stores count := by
  induction chunks generalizing up reader count with
  | nil => rfl
  | cons chunk rest ih =>
      unfold Uploading.chunks
      split
      · exact refuse_tracks _
      · rename_i next events _
        apply proceed_tracks (events_tracks config events)
        rintro ⟨up, error | _⟩ later
        · exact refuse_tracks error
        · exact ih next

theorem collect_gathers (many : Nat) (length : up.stores.length = many) :
    (up.collect many).Gathers Op.Local (Job.Stores ns) (fun result left _ =>
      result.1.stores = left ∧ (result.2 = .ok () → left = [])) up.stores count := by
  induction many generalizing up count with
  | zero => exact ⟨rfl, fun _ => List.length_eq_zero_iff.mp length⟩
  | succ many ih =>
      have some : up.stores ≠ [] := List.ne_nil_of_length_eq_add_one length
      apply Program.Gathers.bind (next_gathers some)
      rintro ⟨up, error | _⟩ _ later ⟨rfl, fewer⟩
      · exact ⟨rfl, fun wrong => by cases wrong⟩
      · exact ih (Nat.succ_injective (fewer.trans length))

omit [Protocol] in
theorem drain_gathers (stores : List Nat) (many : Nat) (length : stores.length = many) :
    (drain stores many).Gathers Op.Local (Job.Stores ns) (fun _ left _ => left = []) stores
      count := by
  induction many generalizing stores with
  | zero => exact List.length_eq_zero_iff.mp length
  | succ many ih =>
      refine ⟨List.exists_mem_of_ne_nil _ (List.ne_nil_of_length_eq_add_one length),
        fun _ member => member, ?_⟩
      intro id member out
      apply ih
      rw [List.length_erase_of_mem member, length]
      rfl

variable (up) in
theorem read_gathers (config : ServerConfig) (reader : PackReader) (body : Body) :
    (read config ns up reader body).Gathers Op.Local (Job.Stores ns) (fun result left _ =>
      result.1.stores = left ∧ ∀ last, result.2 = .ok last → left = []) up.stores count := by
  have stops : ∀ (up : Uploading) (error : ApiError) count,
      (up.refuse error : Reads PackReader).Gathers Op.Local (Job.Stores ns)
        (fun result left _ => result.1.stores = left ∧ ∀ last, result.2 = .ok last → left = [])
        up.stores count :=
    fun _ _ _ => ⟨rfl, fun _ wrong => by cases wrong⟩
  apply Program.Gathers.bind (chunks_tracks config reader body.chunks)
  rintro ⟨up, error | last⟩ _ later rfl
  · exact stops up error later
  · simp only
    split
    · exact stops up _ later
    · apply Program.Gathers.bind (collect_gathers _ rfl)
      rintro ⟨up, error | _⟩ _ last ⟨rfl, none⟩
      · exact stops up error last
      · exact ⟨rfl, fun _ _ => none rfl⟩

end Uploading

/-- When a pack upload answers, it has taken every store it started. -/
theorem uploadPack_gathers (config : ServerConfig) (ns : String) (blobs bytes : UInt64)
    (body : Body) : Program.Gathers Op.Local (Job.Stores ns) (fun _ left _ => left = [])
      (uploadPack config ns blobs bytes body) [] 0 := by
  apply Program.Gathers.bind
    (Uploading.read_gathers ⟨none, [], ⟨0, 0⟩⟩ config _ body)
  rintro ⟨up, error | last⟩ _ later ⟨rfl, none⟩
  · apply Program.Gathers.bind (Uploading.drain_gathers up.stores _ rfl)
    exact fun _ _ _ empty => empty
  · simp only
    split <;> exact none last rfl

theorem uploadPack_waits (config : ServerConfig) (ns : String) (blobs bytes : UInt64)
    (body : Body) :
    Program.Waits (fun _ _ => True) (uploadPack config ns blobs bytes body) 0 :=
  (uploadPack_gathers config ns blobs bytes body).waits fun _ member => by cases member

end MbxCache
