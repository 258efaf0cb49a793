import MbxCache.Server.Awaits
import MbxCache.Server.PackUpload

namespace MbxCache

open Concurrent Pack

variable [Protocol]

def Hashing.Fed (hashing : Hashing) (algorithm : Algorithm) (content : Bytes) : Prop :=
  match algorithm with
  | .blake3 => hashing.blake3 = Protocol.blake3.update Protocol.blake3.new content
  | .sha256 => hashing.sha256 = Protocol.sha256.update Protocol.sha256.new content

namespace Hashing

theorem fed_new (algorithm : Algorithm) : Hashing.new.Fed algorithm [] := by
  cases algorithm with
  | blake3 => exact (Protocol.blake3.update_nil _).symm
  | sha256 => exact (Protocol.sha256.update_nil _).symm

theorem fed_update {hashing : Hashing} {algorithm : Algorithm} {content : Bytes}
    (fed : hashing.Fed algorithm content) (chunk : Bytes) :
    (hashing.update algorithm chunk).Fed algorithm (content ++ chunk) := by
  cases algorithm with
  | blake3 =>
      simp only [Fed, update] at fed ⊢
      rw [fed, Protocol.blake3.update_append]
  | sha256 =>
      simp only [Fed, update] at fed ⊢
      rw [fed, Protocol.sha256.update_append]

theorem fed_finalize {hashing : Hashing} {algorithm : Algorithm} {content : Bytes}
    (fed : hashing.Fed algorithm content) :
    hashing.finalize algorithm = contentHash algorithm content := by
  cases algorithm with
  | blake3 =>
      simp only [Fed] at fed
      simp [finalize, contentHash, Algorithm.hasher, Hasher.hash, fed]
  | sha256 =>
      simp only [Fed] at fed
      simp [finalize, contentHash, Algorithm.hasher, Hasher.hash, fed]

end Hashing

structure Spooled (digest : Digest) (size : Nat) (hashing : Hashing) (file : Bytes) : Prop where
  size : size = file.length
  fed : ∀ algorithm, digest.algorithmKind = some algorithm → hashing.Fed algorithm file

namespace Spooled

variable {digest : Digest} {size : Nat} {hashing : Hashing} {file : Bytes}

theorem start (digest : Digest) : Spooled digest 0 Hashing.new [] :=
  ⟨rfl, fun algorithm _ => Hashing.fed_new algorithm⟩

theorem algorithmOf_ok {digest : Digest} {algorithm : Algorithm}
    (found : algorithmOf digest = .ok algorithm) : digest.algorithmKind = some algorithm := by
  unfold algorithmOf at found
  split at found
  · rename_i known
    cases found
    exact known
  · cases found

theorem write (spooled : Spooled digest size hashing file) {algorithm : Algorithm}
    (found : algorithmOf digest = .ok algorithm) (chunk : Bytes) :
    Spooled digest (size + chunk.length) (hashing.update algorithm chunk) (file ++ chunk) := by
  refine ⟨by simp [spooled.size], fun other known => ?_⟩
  rw [algorithmOf_ok found] at known
  cases known
  exact Hashing.fed_update (spooled.fed algorithm (algorithmOf_ok found)) chunk

theorem names (spooled : Spooled digest size hashing file) {algorithm : Algorithm}
    (found : algorithmOf digest = .ok algorithm) (length : size = digest.size.toNat)
    (hash : hashing.finalize algorithm = digest.hash) : digest.Names file := by
  have known := algorithmOf_ok found
  refine ⟨spooled.size.symm.trans length, algorithm, known, ?_⟩
  rw [← hash, Hashing.fed_finalize (spooled.fed algorithm known)]

end Spooled

def Upload.Tracks (upload : Upload) (digest : Digest) : Prop :=
  Spooled digest upload.size upload.hashing upload.file

def PackFrame.Tracks (frame : PackFrame) : Prop :=
  Spooled frame.digest frame.size frame.hashing frame.file

theorem checkUpload_names {digest : Digest} {upload : Upload} (tracks : upload.Tracks digest)
    (checked : checkUpload digest upload = .ok ()) : digest.Names upload.file := by
  simp only [checkUpload, bind, Except.bind] at checked
  split at checked
  · cases checked
  · rename_i algorithm found
    split at checked
    · cases checked
    · rename_i agrees
      simp only [Bool.or_eq_true, decide_eq_true_eq, ne_eq, not_or, not_not] at agrees
      exact tracks.names found agrees.1 agrees.2

theorem PackFrame.check_names {frame : PackFrame} (tracks : frame.Tracks)
    (checked : frame.check = .ok ()) : frame.digest.Names frame.file := by
  simp only [PackFrame.check, bind, Except.bind] at checked
  split at checked
  · cases checked
  · rename_i algorithm found
    split at checked
    · cases checked
    · rename_i agrees
      simp only [Bool.or_eq_true, decide_eq_true_eq, ne_eq, not_or, not_not] at agrees
      exact tracks.names found agrees.1 agrees.2

theorem PackFrame.names_check {frame : PackFrame} (tracks : frame.Tracks)
    (names : frame.digest.Names frame.file) : frame.check = .ok () := by
  obtain ⟨length, algorithm, known, hash⟩ := names
  have found : algorithmOf frame.digest = .ok algorithm := by
    rw [algorithmOf, known]
  have finalized : frame.hashing.finalize algorithm = frame.digest.hash := by
    rw [Hashing.fed_finalize (tracks.fed algorithm known), hash]
  have size : frame.size = frame.digest.size.toNat := tracks.size.trans length
  simp [PackFrame.check, found, finalized, size, bind, Except.bind]

section Safety
variable {M : Type} [MetadataStore M] {ns : String} {state : Shared M}

theorem receive_ensures (config : ServerConfig) (digest : Digest) (chunks : List Bytes)
    {upload : Upload} (tracks : upload.Tracks digest) :
    (receive config digest chunks upload).Ensures ns (fun received _ => received.Tracks digest)
      state := by
  induction chunks generalizing upload state with
  | nil => exact .pure fun _ _ => tracks
  | cons chunk rest ih =>
      simp only [receive]
      split
      · exact .refuse
      · split
        · exact .refuse
        · apply Handler.Ensures.bind Handler.Ensures.pureStep
          intro algorithm after _ found
          apply Handler.Ensures.bind localIo_ensures
          intro _ last _ _
          exact ih (tracks.write found chunk)

theorem putBlob_ensures (config : ServerConfig) (headers : Headers)
    (parts : String × String × UInt64) (body : Body)
    (authorized : headers.authorize .write = .ok ns) :
    (putBlob config headers parts body).Ensures ns (fun _ _ => True) state := by
  apply Handler.Ensures.bind Handler.Ensures.pureStep
  intro found _ _ same
  rw [authorized] at same
  cases same
  apply Handler.Ensures.bind Handler.Ensures.pureStep
  intro _ _ _ _
  apply Handler.Ensures.bind Handler.Ensures.pureStep
  intro digest _ _ _
  split
  · exact .refuse
  · apply Handler.Ensures.bind (reserve_ensures config digest.size)
    intro _ _ _ _
    apply Handler.Ensures.bind localIo_ensures
    intro _ _ _ _
    apply Handler.Ensures.bind (receive_ensures config digest body.chunks
      (show Upload.Tracks ⟨0, Hashing.new, []⟩ digest from Spooled.start digest))
    intro upload _ _ tracks
    apply Handler.Ensures.bind Handler.Ensures.pureStep
    intro _ _ _ _
    apply Handler.Ensures.bind localIo_ensures
    intro _ _ _ _
    apply Handler.Ensures.bind Handler.Ensures.pureStep
    intro _ _ _ checked
    apply Handler.Ensures.bind (store_ensures (checkUpload_names tracks checked))
    intro outcome _ _ present
    apply Handler.Ensures.bind (register_ensures present)
    intro _ _ _ _
    exact .pure fun _ _ => trivial

/-- Storing a verified frame: the object goes before its row. -/
theorem storeFrame_safe {digest : Digest} {bytes : Bytes} (names : digest.Names bytes) :
    (sharing M).Safe ns (storeFrame ns digest bytes) (fun _ _ => True) state := by
  apply safe_call
  · exact fun _ _ => names
  · exact fun _ _ => Discipline.Safe.done fun _ _ => trivial
  · intro _ before after outcome _ performed
    have put : (before.1.blobs.put digest bytes).1 = after.1.blobs :=
      congrArg ServerState.blobs (Prod.mk.inj (Except.ok.inj performed)).1
    have stored := Objects.put_present before.1.blobs digest bytes
    rw [put] at stored
    apply safe_call
    · intro last grows
      exact ⟨rfl, Option.isSome_iff_exists.mpr ⟨_, grows.blobs digest _ stored⟩⟩
    · exact fun _ _ => Discipline.Safe.done fun _ _ => trivial
    · exact fun _ _ _ _ _ _ => Discipline.Safe.done fun _ _ => trivial

def Uploading.Tracks (up : Uploading) : Prop := ∀ frame, up.frame = some frame → frame.Tracks

def Reads.Keeps {A : Type} (ns : String) (reads : Reads A) (state : Shared M) : Prop :=
  (sharing M).Safe ns reads (fun result _ => result.1.Tracks) state

namespace Uploading

variable {A B : Type} {up : Uploading}

theorem refuse_keeps {error : ApiError} (tracks : up.Tracks) :
    (up.refuse error : Reads A).Keeps ns state := Discipline.Safe.done fun _ _ => tracks

theorem done_keeps {result : Except ApiError A} (tracks : up.Tracks) :
    Reads.Keeps ns (.done (up, result)) state := Discipline.Safe.done fun _ _ => tracks

theorem handle_keeps {handler : Handler A} {next : A → Reads B} {mid : A → ServerState M → Prop}
    (tracks : up.Tracks) (ensures : handler.Ensures ns mid state)
    (rest : ∀ value (after : Shared M), mid value after.1 → (next value).Keeps ns after) :
    (up.handle handler next).Keeps ns state := by
  apply Discipline.Safe.bind ensures
  intro result after _ known
  cases result with
  | error error => exact refuse_keeps tracks
  | ok value => exact rest value after (known value rfl)

theorem proceed_keeps {first : Reads A} {next : Uploading × Except ApiError A → Reads B}
    (keeps : first.Keeps ns state)
    (failed : ∀ up error, next (up, .error error) = Uploading.refuse up error)
    (rest : ∀ up value (after : Shared M), up.Tracks → (next (up, .ok value)).Keeps ns after) :
    Reads.Keeps ns (first.bind next) state := by
  apply Discipline.Safe.bind keeps
  intro (up, result) after _ tracks
  cases result with
  | error error =>
      rw [failed]
      exact refuse_keeps tracks
  | ok value => exact rest up value after tracks

theorem next_keeps (tracks : up.Tracks) : up.next.Keeps ns state := by
  apply Discipline.Safe.join
  intro id out after _
  simp only
  split
  · exact refuse_keeps tracks
  · exact done_keeps tracks

theorem makeRoom_keeps (config : ServerConfig) (tracks : up.Tracks) :
    (up.makeRoom config).Keeps ns state := by
  unfold makeRoom
  split
  · exact next_keeps tracks
  · exact done_keeps tracks

theorem new_ensures (digest : Digest) :
    (PackFrame.new digest).Ensures ns (fun frame _ => frame.Tracks) state := by
  apply Handler.Ensures.bind localIo_ensures
  intro _ _ _ _
  exact .pure fun _ _ => Spooled.start digest

theorem write_ensures {frame : PackFrame} (tracks : frame.Tracks) (payload : Bytes) :
    (frame.write payload).Ensures ns (fun frame _ => frame.Tracks) state := by
  apply Handler.Ensures.bind Handler.Ensures.pureStep
  intro algorithm _ _ found
  apply Handler.Ensures.bind localIo_ensures
  intro _ _ _ _
  exact .pure fun _ _ => tracks.write found payload

theorem verify_ensures (frame : PackFrame) :
    frame.verify.Ensures ns (fun _ _ => frame.check = .ok ()) state := by
  apply Handler.Ensures.bind localIo_ensures
  intro _ _ _ _
  exact .pureStep

theorem event_keeps (config : ServerConfig) (event : PackEvent) (tracks : up.Tracks) :
    (up.event config ns event).Keeps ns state := by
  cases event with
  | started digest =>
      apply handle_keeps tracks (reserve_ensures config digest.size)
      intro _ _ _
      apply handle_keeps tracks (new_ensures digest)
      intro frame _ fresh
      apply done_keeps
      intro other same
      cases same
      exact fresh
  | payload bytes =>
      cases open_ : up.frame with
      | none =>
          simp only [Uploading.event, open_]
          exact refuse_keeps tracks
      | some frame =>
          simp only [Uploading.event, open_]
          apply handle_keeps tracks (write_ensures (tracks frame open_) bytes)
          intro written _ still
          apply done_keeps
          intro other same
          cases same
          exact still
  | complete =>
      cases open_ : up.frame with
      | none =>
          simp only [Uploading.event, open_]
          exact refuse_keeps tracks
      | some finished =>
          simp only [Uploading.event, open_]
          have taken : ({ up with frame := none } : Uploading).Tracks := fun _ none => by cases none
          apply handle_keeps taken (verify_ensures finished)
          intro _ _ checked
          apply proceed_keeps (makeRoom_keeps config taken)
          · exact fun _ _ => rfl
          · intro up _ _ tracks'
            apply Discipline.Safe.spawn
            · exact fun _ _ => ⟨rfl, PackFrame.check_names (tracks finished open_) checked⟩
            · exact fun _ _ _ => done_keeps tracks'

theorem events_keeps (config : ServerConfig) (events : List PackEvent) (tracks : up.Tracks) :
    (up.events config ns events).Keeps ns state := by
  induction events generalizing up state with
  | nil => exact done_keeps tracks
  | cons first rest ih =>
      apply proceed_keeps (event_keeps config first tracks)
      · exact fun _ _ => rfl
      · exact fun _ _ _ still => ih still

theorem chunks_keeps (config : ServerConfig) (reader : PackReader) (chunks : List Bytes)
    (tracks : up.Tracks) : (up.chunks config ns reader chunks).Keeps ns state := by
  induction chunks generalizing up reader state with
  | nil => exact done_keeps tracks
  | cons chunk rest ih =>
      simp only [Uploading.chunks]
      split
      · exact refuse_keeps tracks
      · apply proceed_keeps (events_keeps config _ tracks)
        · exact fun _ _ => rfl
        · exact fun _ _ _ still => ih _ still

theorem collect_keeps (left : Nat) (tracks : up.Tracks) : (up.collect left).Keeps ns state := by
  induction left generalizing up state with
  | zero => exact done_keeps tracks
  | succ left ih =>
      apply proceed_keeps (next_keeps tracks)
      · exact fun _ _ => rfl
      · exact fun _ _ _ still => ih still

theorem drain_safe (stores : List Nat) (left : Nat) :
    (sharing M).Safe ns (drain stores left) (fun _ _ => True) state := by
  induction left generalizing stores state with
  | zero => exact Discipline.Safe.done fun _ _ => trivial
  | succ left ih => exact Discipline.Safe.join fun _ _ _ _ => ih _

theorem read_keeps (config : ServerConfig) (reader : PackReader) (body : Body)
    (tracks : up.Tracks) : (up.read config ns reader body).Keeps ns state := by
  apply proceed_keeps (chunks_keeps config reader body.chunks tracks)
  · exact fun _ _ => rfl
  · intro up reader after still
    simp only
    split
    · exact refuse_keeps still
    · apply proceed_keeps (collect_keeps _ still)
      · exact fun _ _ => rfl
      · exact fun _ _ _ last => done_keeps last

end Uploading

theorem putBlobPack_ensures (config : ServerConfig) (headers : Headers) (body : Body)
    (authorized : headers.authorize .write = .ok ns) :
    (putBlobPack config headers body).Ensures ns (fun _ _ => True) state := by
  apply Handler.Ensures.bind Handler.Ensures.pureStep
  intro found _ _ same
  rw [authorized] at same
  cases same
  apply Handler.Ensures.bind Handler.Ensures.pureStep
  intro (blobs, bytes) _ _ _
  apply Discipline.Safe.bind (Uploading.read_keeps config _ body fun _ none => by cases none)
  intro (up, result) _ _ _
  cases result with
  | error error =>
      apply Discipline.Safe.bind (Uploading.drain_safe up.stores up.stores.length)
      exact fun _ _ _ _ => Discipline.Ensures.error
  | ok reader =>
      simp only
      split
      · exact Discipline.Ensures.error
      · exact Discipline.Ensures.answer fun _ _ _ _ => trivial

end Safety
end MbxCache
