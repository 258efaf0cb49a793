import MbxCache.Server.Spool

/-! Uploads with their spool files and permits made explicit are the uploads they stand for. -/

namespace MbxCache.Spool

open Concurrent Pack

variable {A B : Type}

/-- Forget about files and permits: what is dropped is dropped without an await, every file
operation is local disk, and a bounded spool is asked for permits. -/
def erase (bounded : Bool) : Program Spooling A → Program Api A
  | .done result => .done result
  | .call (.reserve bytes) next =>
      if !bounded then erase bounded (next (.ok ()))
      else if 2 ^ 32 ≤ permitsFor bytes then
        erase bounded (next (.error (.tooLarge "blob exceeds the upload spool")))
      else .call (.acquire (permitsFor bytes)) fun granted : Except Failure Bool =>
        match granted with
        | .ok true => erase bounded (next (.ok ()))
        | .ok false =>
            erase bounded (next (.error (.unavailable "upload spool is full, retry later")))
        | .error failure => erase bounded (next (.error (.internal failure)))
  | .call .create next => .call .localIo fun result => erase bounded (next result)
  | .call (.write _) next => .call .localIo fun result => erase bounded (next result)
  | .call .flush next => .call .localIo fun result => erase bounded (next result)
  | .call (.remove _) next => erase bounded (next ())
  | .call (.release _) next => erase bounded (next ())
  | .call (.base op) next => .call op fun value => erase bounded (next value)
  | .spawn job next => .spawn job fun id => erase bounded (next id)
  | .join ids next => .join ids fun id out => erase bounded (next id out)

variable {bounded : Bool}

@[simp] theorem erase_done (result : A) : erase bounded (.done result) = .done result := rfl

theorem erase_bind (p : Program Spooling A) (next : A → Program Spooling B) :
    erase bounded (p.bind next) = (erase bounded p).bind fun result => erase bounded (next result) := by
  induction p with
  | done result => rfl
  | call op more ih =>
      cases op with
      | reserve bytes =>
          simp only [Program.bind, erase]
          split
          · exact ih _
          · split
            · exact ih _
            · simp only [Program.bind]
              congr 1
              funext granted
              rcases granted with failure | (_ | _) <;> exact ih _
      | create => exact congrArg (Program.call Op.localIo) (funext fun value => ih value)
      | write bytes => exact congrArg (Program.call Op.localIo) (funext fun value => ih value)
      | flush => exact congrArg (Program.call Op.localIo) (funext fun value => ih value)
      | remove place => exact ih ()
      | release place => exact ih ()
      | base op => exact congrArg (Program.call op) (funext fun value => ih value)
  | spawn job more ih => simp only [Program.bind, erase, ih]
  | join ids more ih => simp only [Program.bind, erase, ih]

/-- An upload program stands for a handler. -/
def Stands (bounded : Bool) (spooler : Spooler A) (handler : Handler A) : Prop :=
  erase bounded spooler = handler

namespace Stands

theorem bind {spooler : Spooler A} {handler : Handler A} {next : A → Spooler B}
    {next' : A → Handler B} (first : Stands bounded spooler handler)
    (rest : ∀ value, Stands bounded (next value) (next' value)) :
    Stands bounded (spooler >>= next) (handler >>= next') := by
  refine (erase_bind spooler _).trans ?_
  unfold Stands at first
  rw [first]
  refine congrArg (Program.bind handler) (funext fun result => ?_)
  cases result with
  | error error => rfl
  | ok value => exact rest value

theorem pureStep (result : Except ApiError A) :
    Stands bounded (Spooler.pureStep result) (Handler.pureStep result) := rfl

theorem refuse (error : ApiError) :
    Stands bounded (Spooler.refuse error : Spooler A) (Handler.refuse error) := rfl

theorem done (value : A) : Stands bounded (pure value : Spooler A) (pure value : Handler A) := rfl

theorem base (op : Op) : Stands bounded (Spool.base op) (.call op Handler.internally) := rfl

theorem create : Stands bounded Spool.create localIo := rfl

theorem writeAll (bytes : Bytes) : Stands bounded (Spool.writeAll bytes) localIo := rfl

theorem flush : Stands bounded Spool.flush localIo := rfl

theorem reserve (config : ServerConfig) (bytes : UInt64) :
    Stands config.spoolBudget (Spool.reserve bytes) (MbxCache.reserve config bytes) := by
  unfold Stands Spool.reserve MbxCache.reserve
  simp only [erase]
  congr 2

theorem holding {scope : Spooler A} {handler : Handler A} (stands : Stands bounded scope handler) :
    Stands bounded (Spool.holding scope) handler := by
  refine (erase_bind scope _).trans ?_
  unfold Stands at stands
  rw [stands]
  exact Program.bind_pure handler

end Stands

section Uploads
variable [Protocol]

theorem receive_stands (config : ServerConfig) (digest : Digest) (chunks : List Bytes)
    (upload : Upload) :
    Stands bounded (receive config digest chunks upload)
      (MbxCache.receive config digest chunks upload) := by
  induction chunks generalizing upload with
  | nil => exact .done upload
  | cons chunk rest ih =>
      unfold receive MbxCache.receive
      simp only
      split
      · exact .refuse _
      · split
        · exact .refuse _
        · apply Stands.bind (.pureStep _)
          intro algorithm
          exact .bind (.writeAll chunk) fun _ => ih _

/-- A single upload is the upload it stands for. -/
theorem putBlob_stands (config : ServerConfig) (headers : Headers)
    (parts : String × String × UInt64) (body : Body) :
    Stands config.spoolBudget (putBlob config headers parts body)
      (MbxCache.putBlob config headers parts body) := by
  apply Stands.bind (.pureStep _)
  intro ns
  apply Stands.bind (.pureStep _)
  intro _
  apply Stands.bind (.pureStep _)
  intro digest
  split
  · exact .refuse _
  · apply Stands.bind (.reserve config digest.size)
    intro _
    apply Stands.holding
    apply Stands.bind .create
    intro _
    apply Stands.bind (receive_stands config digest body.chunks _)
    intro upload
    apply Stands.bind (.pureStep _)
    intro _
    apply Stands.bind .flush
    intro _
    apply Stands.bind (.pureStep _)
    intro _
    apply Stands.bind (.base (.put digest upload.file))
    intro outcome
    apply Stands.bind (.base (.registerBlob ns digest outcome))
    intro _
    exact .done _

def Follows (bounded : Bool) (reads : Reads A) (handled : MbxCache.Reads A) : Prop :=
  erase bounded reads = handled

theorem refuse_follows (up : Uploading) (error : ApiError) :
    Follows bounded (refuse up error : Reads A) (up.refuse error) := rfl

theorem dropping_follows (place : Nat) {rest : Reads A} {handled : MbxCache.Reads A}
    (follows : Follows bounded rest handled) :
    Follows bounded (dropping place rest) handled := follows

theorem bind_follows {p : Program Spooling A} {p' : Program Api A} {next : A → Reads B}
    {next' : A → MbxCache.Reads B} (first : erase bounded p = p')
    (rest : ∀ result, Follows bounded (next result) (next' result)) :
    Follows bounded (Program.bind p next) (Program.bind p' next') := by
  refine (erase_bind p next).trans ?_
  rw [first]
  exact congrArg (Program.bind p') (funext rest)

theorem handle_follows (up : Uploading) {spooler : Spooler A} {handler : Handler A}
    {next : A → Reads B} {next' : A → MbxCache.Reads B}
    (first : Stands bounded spooler handler)
    (rest : ∀ value, Follows bounded (next value) (next' value)) :
    Follows bounded (handle up spooler next) (up.handle handler next') := by
  apply bind_follows first
  intro result
  cases result with
  | error error => exact refuse_follows up error
  | ok value => exact rest value

theorem next_follows (up : Uploading) : Follows bounded (next up) up.next := by
  refine congrArg (Program.join up.stores) (funext fun id => funext fun out => ?_)
  simp only
  cases up.receipt.count out <;> rfl

theorem makeRoom_follows (config : ServerConfig) (up : Uploading) :
    Follows bounded (makeRoom config up) (up.makeRoom config) := by
  unfold makeRoom Uploading.makeRoom
  split
  · exact next_follows up
  · rfl

theorem new_stands (digest : Digest) :
    Stands bounded (PackFrame.new digest) (MbxCache.PackFrame.new digest) :=
  .bind .create fun _ => .done _

theorem write_stands (frame : MbxCache.PackFrame) (payload : Bytes) :
    Stands bounded (PackFrame.write frame payload) (frame.write payload) := by
  apply Stands.bind (.pureStep _)
  intro algorithm
  exact .bind (.writeAll payload) fun _ => .done _

theorem verify_stands (frame : MbxCache.PackFrame) :
    Stands bounded (PackFrame.verify frame) frame.verify :=
  .bind .flush fun _ => .pureStep _

theorem event_follows (config : ServerConfig) (ns : String) (up : Uploading) (event : PackEvent) :
    Follows config.spoolBudget (Spool.event config ns up event) (up.event config ns event) := by
  cases event with
  | started digest =>
      apply handle_follows up (.reserve config digest.size)
      intro _
      refine bind_follows (new_stands digest) ?_
      rintro (error | frame)
      · exact dropping_follows 0 (refuse_follows up error)
      · simp only [replacing]
        cases up.frame <;> rfl
  | payload bytes =>
      simp only [Spool.event, Uploading.event]
      cases up.frame with
      | none => exact refuse_follows up _
      | some frame => exact handle_follows up (write_stands frame bytes) fun _ => rfl
  | complete =>
      simp only [Spool.event, Uploading.event]
      cases up.frame with
      | none => exact refuse_follows up _
      | some finished =>
          refine bind_follows (verify_stands finished) ?_
          rintro (error | _)
          · exact dropping_follows 0 (refuse_follows _ error)
          · refine bind_follows (makeRoom_follows config _) ?_
            rintro ⟨up, error | _⟩
            · exact dropping_follows 0 (refuse_follows up error)
            · rfl

theorem events_follows (config : ServerConfig) (ns : String) (up : Uploading)
    (read : List PackEvent) :
    Follows config.spoolBudget (events config ns up read) (up.events config ns read) := by
  induction read generalizing up with
  | nil => rfl
  | cons first rest ih =>
      apply bind_follows (event_follows config ns up first)
      rintro ⟨up, error | _⟩
      · exact refuse_follows up error
      · exact ih up

theorem chunks_follows (config : ServerConfig) (ns : String) (up : Uploading)
    (reader : PackReader) (body : List Bytes) :
    Follows config.spoolBudget (chunks config ns up reader body)
      (up.chunks config ns reader body) := by
  induction body generalizing up reader with
  | nil => rfl
  | cons chunk rest ih =>
      simp only [chunks, Uploading.chunks]
      cases reader.push chunk with
      | error error => exact refuse_follows up _
      | ok pushed =>
          apply bind_follows (events_follows config ns up pushed.2)
          rintro ⟨up, error | _⟩
          · exact refuse_follows up error
          · exact ih up pushed.1

theorem collect_follows (up : Uploading) (left : Nat) :
    Follows bounded (collect up left) (up.collect left) := by
  induction left generalizing up with
  | zero => rfl
  | succ left ih =>
      apply bind_follows (next_follows up)
      rintro ⟨up, error | _⟩
      · exact refuse_follows up error
      · exact ih up

omit [Protocol] in
theorem drain_erased (stores : List Nat) (left : Nat) :
    erase bounded (drain stores left) = Uploading.drain stores left := by
  induction left generalizing stores with
  | zero => rfl
  | succ left ih =>
      exact congrArg (Program.join stores) (funext fun id => funext fun _ => ih (stores.erase id))

theorem read_follows (config : ServerConfig) (ns : String) (up : Uploading)
    (reader : PackReader) (body : Body) :
    Follows config.spoolBudget (read config ns up reader body)
      (Uploading.read config ns up reader body) := by
  apply bind_follows (chunks_follows config ns up reader body.chunks)
  rintro ⟨up, error | reader⟩
  · exact refuse_follows up error
  · simp only
    cases transport body with
    | error error => exact refuse_follows up error
    | ok _ =>
        apply bind_follows (collect_follows up up.stores.length)
        rintro ⟨up, error | _⟩
        · exact refuse_follows up error
        · rfl

/-- A pack upload is the upload it stands for. -/
theorem putBlobPack_stands (config : ServerConfig) (headers : Headers) (body : Body) :
    Stands config.spoolBudget (putBlobPack config headers body)
      (MbxCache.putBlobPack config headers body) := by
  apply Stands.bind (.pureStep _)
  intro ns
  apply Stands.bind (.pureStep _)
  rintro ⟨blobs, bytes⟩
  refine (erase_bind _ _).trans ?_
  rw [show erase config.spoolBudget (read config ns ⟨none, [], ⟨0, 0⟩⟩
    (PackReader.new config.maxBlobBytes blobs bytes) body) = _ from read_follows _ _ _ _ _]
  refine congrArg (Program.bind _) (funext fun result => ?_)
  rcases result with ⟨up, error | reader⟩
  · refine (erase_bind _ _).trans ?_
    rw [drain_erased]
    refine congrArg (Program.bind _) (funext fun _ => ?_)
    unfold leaving
    split <;> rfl
  · simp only [leaving]
    split <;> cases checkPack reader blobs bytes <;> rfl

omit [Protocol] in
theorem jobBody_stands (job : Job) : erase bounded (jobBody job) = job.body := by
  cases job with
  | store ns digest bytes =>
      refine congrArg (Program.call (I := Api) (Op.put digest bytes)) (funext fun put => ?_)
      cases put with
      | error failure => rfl
      | ok outcome =>
          refine congrArg (Program.call (I := Api) (Op.registerBlob ns digest outcome))
            (funext fun registered => ?_)
          cases registered <;> rfl
  | read ns digest =>
      refine congrArg (Program.call (I := Api) (Op.get digest)) (funext fun found => ?_)
      rcases found with failure | (_ | blob)
      · rfl
      · rfl
      · simp only
        split <;> rfl

end Uploads

end MbxCache.Spool
