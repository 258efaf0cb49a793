import MbxCache.Server.Undisturbed
import MbxCache.Server.Uploads

namespace MbxCache

open Concurrent Pack

variable [Protocol]

theorem names_checkUpload {digest : Digest} {upload : Upload} (tracks : upload.Tracks digest)
    (names : digest.Names upload.file) : checkUpload digest upload = .ok () := by
  obtain ⟨length, algorithm, known, hash⟩ := names
  have found : algorithmOf digest = .ok algorithm := by
    rw [algorithmOf, known]
  have finalized : upload.hashing.finalize algorithm = digest.hash := by
    rw [Hashing.fed_finalize (tracks.fed algorithm known), hash]
  have size : upload.size = digest.size.toNat := tracks.size.trans length
  simp [checkUpload, found, finalized, size, bind, Except.bind]

variable {M : Type} [MetadataStore M] {state : ServerState M}

theorem localIo_answers :
    localIo.Answers (fun result after => result = .ok () ∧ after = state) state := by
  apply Handler.Answers.ask .localIo
  exact fun choice _ => ⟨state, (), rfl, rfl, rfl⟩

theorem reserve_answers (config : ServerConfig) {size : UInt64}
    (reservable : config.spoolBudget = true → (size.toNat + 1023) / 1024 < 2 ^ 32) :
    (reserve config size).Answers (fun result after => result = .ok () ∧ after = state) state := by
  unfold reserve
  simp only
  split
  · exact ⟨rfl, rfl⟩
  · rename_i limited
    have small := reservable (by simpa using limited)
    rw [if_neg (Nat.not_le_of_lt small)]
    intro choice clean
    have granted : exec choice (.acquire ((size.toNat + 1023) / 1024)) state =
        (state, .ok true) := by
      rw [exec_clean clean]
      simp [perform, clean.2.2]
    have value : (exec choice (.acquire ((size.toNat + 1023) / 1024)) state).2 = .ok true :=
      congrArg Prod.snd granted
    have kept : (exec choice (.acquire ((size.toNat + 1023) / 1024)) state).1 = state :=
      congrArg Prod.fst granted
    simp only [value, kept]
    exact ⟨rfl, rfl⟩

theorem receive_answers (config : ServerConfig) {digest : Digest} {algorithm : Algorithm}
    (known : algorithmOf digest = .ok algorithm) (within : digest.size ≤ config.maxBlobBytes)
    (chunks : List Bytes) {upload : Upload} (tracks : upload.Tracks digest)
    (fits : upload.size + chunks.flatten.length ≤ digest.size.toNat) :
    (receive config digest chunks upload).Answers (fun result after => after = state ∧
      ∃ received : Upload, result = .ok received ∧ received.Tracks digest ∧
        received.file = upload.file ++ chunks.flatten) state := by
  induction chunks generalizing upload with
  | nil => exact ⟨rfl, upload, rfl, tracks, by simp⟩
  | cons chunk rest ih =>
      rw [List.flatten_cons, List.length_append] at fits
      have limit := UInt64.le_iff_toNat_le.mp within
      have bound := digest.size.toNat_lt
      unfold receive
      simp only
      rw [if_neg (by omega), if_neg (by simp; omega), known, Handler.pureStep_ok]
      apply Handler.Answers.bind localIo_answers
      · rintro error after ⟨wrong, _⟩
        cases wrong
      · rintro _ after ⟨_, rfl⟩
        have grown : (⟨upload.size + chunk.length, upload.hashing.update algorithm chunk,
            upload.file ++ chunk⟩ : Upload).Tracks digest := tracks.write known chunk
        apply Handler.Answers.mono (ih grown (by simp only; omega))
        rintro result last ⟨rfl, received, rfl, tracks, file⟩
        exact ⟨rfl, received, rfl, tracks, by rw [file]; simp⟩

def storeOne (ns : String) (entry : Entry) (shown : Objects × View) : Objects × View :=
  ((shown.1.put entry.digest entry.payload).1, shown.2.register ns entry.digest)

def storeAll (ns : String) (entries : List Entry) (shown : Objects × View) : Objects × View :=
  entries.foldl (fun shown entry => storeOne ns entry shown) shown

structure Uploadable (M : Type) [MetadataStore M] (config : ServerConfig) (ns : String)
    (entry : Entry) : Prop where
  valid : entry.digest.validate = true
  names : entry.digest.Names entry.payload
  within : entry.digest.size ≤ config.maxBlobBytes
  reservable : config.spoolBudget = true → (entry.digest.size.toNat + 1023) / 1024 < 2 ^ 32
  represents : MetadataStore.representsBlob M ns entry.digest = true

/-- A single upload of such a frame is accepted and stores it. -/
theorem putBlob_answers {config : ServerConfig} {headers : Headers} {ns : String} {entry : Entry}
    {body : Body} (working : MetadataStore.valid state.metadata)
    (authorized : headers.authorize .write = .ok ns) (immutable : headers.ifNoneMatch = some "*")
    (uploadable : Uploadable M config ns entry) (content : body.chunks.flatten = entry.payload)
    (ends : body.failure = none) :
    (putBlob config headers (entry.digest.algorithm, entry.digest.hash, entry.digest.size)
      body).Answers (fun result after =>
        result = .ok ⟨putStatus (state.blobs.put entry.digest entry.payload).2, [], .empty⟩ ∧
          MetadataStore.valid after.metadata ∧
          after.shown = storeOne ns entry state.shown) state := by
  obtain ⟨valid, names, within, reservable, represents⟩ := uploadable
  have parsed : parseDigest (entry.digest.algorithm, entry.digest.hash, entry.digest.size) =
      .ok entry.digest := by
    simp [parseDigest, validateDigest, valid, bind, Except.bind, pure, Except.pure]
  have required : requireImmutablePrecondition headers = .ok () := by
    rw [requireImmutablePrecondition, if_pos immutable]
  have ended : transport body = .ok () := by
    rw [transport, ends]
  have small : ¬ config.maxBlobBytes < entry.digest.size := UInt64.not_lt.mpr within
  obtain ⟨length, algorithm, kind, _⟩ := id names
  have known : algorithmOf entry.digest = .ok algorithm := by
    rw [algorithmOf, kind]
  rw [putBlob, authorized, Handler.pureStep_ok, required, Handler.pureStep_ok, parsed,
    Handler.pureStep_ok, if_neg small]
  apply Handler.Answers.bind (reserve_answers config reservable)
  · rintro error after ⟨wrong, _⟩
    cases wrong
  rintro _ after ⟨_, rfl⟩
  apply Handler.Answers.bind localIo_answers
  · rintro error after ⟨wrong, _⟩
    cases wrong
  rintro _ after ⟨_, rfl⟩
  have start : (⟨0, Hashing.new, []⟩ : Upload).Tracks entry.digest := Spooled.start entry.digest
  apply Handler.Answers.bind (receive_answers config known within body.chunks start
    (by rw [content, length]; exact le_of_eq (Nat.zero_add _)))
  · rintro error after ⟨_, received, wrong, _⟩
    cases wrong
  rintro _ after ⟨rfl, upload, same, tracks, file⟩
  cases same
  rw [List.nil_append, content] at file
  have checked := names_checkUpload tracks (by rw [file]; exact names)
  rw [ended, Handler.pureStep_ok]
  apply Handler.Answers.bind localIo_answers
  · rintro error after ⟨wrong, _⟩
    cases wrong
  rintro _ after ⟨_, rfl⟩
  rw [checked, Handler.pureStep_ok, file]
  have stores : (store entry.digest entry.payload).Answers (fun result last =>
      result = .ok (after.blobs.put entry.digest entry.payload).2 ∧
        last = { after with blobs := (after.blobs.put entry.digest entry.payload).1 }) after := by
    apply Handler.Answers.ask (.put entry.digest entry.payload)
    exact fun choice _ => ⟨_, _, rfl, rfl, rfl⟩
  apply Handler.Answers.bind stores
  · rintro error last ⟨wrong, _⟩
    cases wrong
  rintro outcome last ⟨same, rfl⟩
  cases same
  have registers : (register ns entry.digest (after.blobs.put entry.digest entry.payload).2).Answers
      (fun result last => result = .ok () ∧ MetadataStore.valid last.metadata ∧
        last.shown = storeOne ns entry after.shown)
      { after with blobs := (after.blobs.put entry.digest entry.payload).1 } := by
    apply Handler.Answers.ask (.registerBlob ns entry.digest _)
    intro choice _
    obtain ⟨metadata, registered, working', view⟩ := MetadataStore.registerBlob_view choice.now ns
      entry.digest (after.blobs.put entry.digest entry.payload).2 working represents
    refine ⟨⟨(after.blobs.put entry.digest entry.payload).1, metadata⟩, (), ?_, rfl, working', ?_⟩
    · simp only [perform, registered]
      rfl
    · exact congrArg (Prod.mk _) view
  apply Handler.Answers.bind registers
  · rintro error last ⟨wrong, _⟩
    cases wrong
  · rintro _ last ⟨_, working', shown⟩
    exact ⟨rfl, working', shown⟩

section Shown
variable {ns : String}

omit [Protocol] in
theorem storeAll_blobs (entries : List Entry) (shown : Objects × View) (digest : Digest) :
    (storeAll ns entries shown).1 digest = (shown.1 digest).or
      ((entries.find? fun entry => entry.digest == digest).map Entry.payload) := by
  induction entries generalizing shown with
  | nil => simp [storeAll]
  | cons entry rest ih =>
      change (storeAll ns rest (storeOne ns entry shown)).1 digest = _
      rw [ih, List.find?_cons]
      by_cases same : entry.digest = digest
      · subst same
        have present : (storeOne ns entry shown).1 entry.digest =
            some ((shown.1 entry.digest).getD entry.payload) := Objects.put_present _ _ _
        rw [present, Option.some_or]
        cases shown.1 entry.digest <;> simp
      · have other : (storeOne ns entry shown).1 digest = shown.1 digest :=
          Objects.put_other _ _ (Ne.symm same)
        have differs : (entry.digest == digest) = false := beq_false_of_ne same
        rw [other, differs]

omit [Protocol] in
theorem storeAll_view (entries : List Entry) (shown : Objects × View) :
    (storeAll ns entries shown).2.result = shown.2.result ∧
      (storeAll ns entries shown).2.manifest = shown.2.manifest ∧
      ∀ other digest, (storeAll ns entries shown).2.visible other digest = true ↔
        shown.2.visible other digest = true ∨
          other = ns ∧ ∃ entry ∈ entries, entry.digest = digest := by
  induction entries generalizing shown with
  | nil => simp [storeAll]
  | cons entry rest ih =>
      obtain ⟨results, manifests, rows⟩ := ih (storeOne ns entry shown)
      refine ⟨results, manifests, fun other digest => ?_⟩
      refine (rows other digest).trans ?_
      by_cases same : other = ns ∧ digest = entry.digest
      · obtain ⟨rfl, rfl⟩ := same
        have seen : (storeOne other entry shown).2.visible other entry.digest = true :=
          View.assign_same _ _ _ _
        exact iff_of_true (.inl seen) (.inr ⟨rfl, entry, List.mem_cons_self, rfl⟩)
      · have kept : (storeOne ns entry shown).2.visible other digest =
            shown.2.visible other digest := View.assign_other _ _ same
        rw [kept]
        constructor
        · exact Or.imp_right fun ⟨here, found, member, named⟩ =>
            ⟨here, found, List.mem_cons_of_mem _ member, named⟩
        · rintro (old | ⟨here, found, member, named⟩)
          · exact .inl old
          · rcases List.mem_cons.mp member with rfl | later
            · exact (same ⟨here, named.symm⟩).elim
            · exact .inr ⟨here, found, later, named⟩

end Shown

end MbxCache
