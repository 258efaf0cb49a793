import MbxCache.Specimen
import MbxCache.Storage.AzureRuns

namespace MbxCache

open Concurrent

namespace AzureStage

def Past : AzureStage → Prop
  | .waiting _ _ | .answered _ | .failed => True
  | .begun | .creating | .opening _ | .copying _ | .closing _ | .publishing _ | .removing _ _ =>
      False

def Uploaded : AzureStage → Prop
  | .publishing _ | .removing _ _ | .waiting _ _ | .answered _ | .failed => True
  | .begun | .creating | .opening _ | .copying _ | .closing _ => False

theorem Past.uploaded {stage : AzureStage} (past : stage.Past) : stage.Uploaded := by
  cases stage <;> trivial

end AzureStage

/-- No copy is accepted without its put learning so, and the lifecycle of the uploads leaves
those alone that a copy still reads. -/
def AzureMove.Careful (store : AzureStore) (container : Container) : AzureMove → Prop
  | .advance id io => ∀ put uuid, container.calls[id]? = some (.put put) →
      put.stage = .publishing uuid → io.fails = true → io.effective = false
  | .expire uuid => ∀ digest id, container.objects (store.key digest) ≠ some (.pending id uuid)
  | .put _ _ | .get _ | .settle _ => True

namespace Container

variable {store : AzureStore} {container after : Container}

/-- Every copy still has its upload, and none is broken. -/
structure Kept (store : AzureStore) (container : Container) : Prop where
  sources : ∀ digest id uuid, container.objects (store.key digest) = some (.pending id uuid) →
    ∃ put, container.calls[id]? = some (.put put) ∧ put.stage.Past ∧
      container.objects (store.uploadKey uuid) = some (.whole put.source)
  unbroken : ∀ digest, container.objects (store.key digest) ≠ some .broken

section Steps

variable {id : Nat} {put : AzurePut} {io : AzureIo}

theorem advancePut_uploads (uuid : String) (other : put.stage.uuid ≠ some uuid) :
    (container.advancePut store id put io).objects (store.uploadKey uuid) =
      container.objects (store.uploadKey uuid) := by
  have blob (object : Option AzureObject) :
      (container.setObject (store.key put.digest) object).objects (store.uploadKey uuid) =
        container.objects (store.uploadKey uuid) := setObject_upload object uuid
  have upload {mine : String} (object : Option AzureObject) (own : put.stage.uuid = some mine) :
      (container.setObject (store.uploadKey mine) object).objects (store.uploadKey uuid) =
        container.objects (store.uploadKey uuid) := by
    refine Function.update_of_ne (fun same => other ?_) _ _
    rw [own, AzureStore.uploadKey_inj.mp same]
  cases stage : put.stage with
  | begun =>
      simp only [advancePut, stage]
      split
      · rfl
      · split <;> rfl
  | creating =>
      simp only [advancePut, stage, create]
      split
      · split <;> rfl
      · split
        · split
          · exact blob _
          · rfl
        · exact blob _
  | closing mine =>
      simp only [advancePut, stage]
      split
      · rfl
      · exact upload _ (by rw [stage]; rfl)
  | publishing mine =>
      simp only [advancePut, stage, publish]
      split
      · split
        · split
          · exact blob _
          · rfl
        · exact blob _
      · rfl
      · rfl
  | removing mine outcome =>
      simp only [advancePut, stage]
      split
      · rfl
      · exact upload _ (by rw [stage]; rfl)
  | waiting outcome polls =>
      simp only [advancePut, stage]
      split <;> rfl
  | _ => simp only [advancePut, stage, setCall]

variable (store io) in
theorem advancePut_past (found : container.calls[id]? = some (.put put)) (past : put.stage.Past) :
    ∃ next, (container.advancePut store id put io).calls[id]? = some (.put next) ∧
      next.stage.Past ∧ next.source = put.source := by
  have bound := (List.getElem?_eq_some_iff.mp found).1
  cases stage : put.stage with
  | waiting outcome polls =>
      simp only [advancePut, stage]
      split
      · exact ⟨_, List.getElem?_set_self bound, trivial, rfl⟩
      · refine ⟨_, List.getElem?_set_self bound, ?_, rfl⟩
        simp only
        split <;> trivial
  | answered outcome =>
      simp only [advancePut, stage]
      exact ⟨put, found, past, rfl⟩
  | failed =>
      simp only [advancePut, stage]
      exact ⟨put, found, past, rfl⟩
  | _ =>
      rw [stage] at past
      exact past.elim

variable (store io) in
theorem advancePut_uploaded (found : container.calls[id]? = some (.put put))
    (uploaded : put.stage.Uploaded) :
    ∃ next, (container.advancePut store id put io).calls[id]? = some (.put next) ∧
      next.stage.Uploaded := by
  have bound := (List.getElem?_eq_some_iff.mp found).1
  cases stage : put.stage with
  | publishing uuid =>
      have lost : (if io.again then AzureStage.publishing uuid else .removing uuid none).Uploaded := by
        split <;> trivial
      simp only [advancePut, stage, publish]
      split
      · split
        · refine ⟨_, List.getElem?_set_self ?_, lost⟩
          split <;> exact bound
        · exact ⟨_, List.getElem?_set_self bound, trivial⟩
      · refine ⟨_, List.getElem?_set_self bound, ?_⟩
        simp only
        split
        · exact lost
        · trivial
      · refine ⟨_, List.getElem?_set_self bound, ?_⟩
        simp only
        split
        · exact lost
        · trivial
  | removing uuid outcome =>
      simp only [advancePut, stage]
      refine ⟨_, List.getElem?_set_self ?_, ?_⟩
      · split <;> exact bound
      · cases outcome <;> trivial
  | waiting outcome polls =>
      obtain ⟨next, there, past, -⟩ := advancePut_past store io found (by rw [stage]; trivial)
      exact ⟨next, there, past.uploaded⟩
  | answered outcome =>
      simp only [advancePut, stage]
      exact ⟨put, found, uploaded⟩
  | failed =>
      simp only [advancePut, stage]
      exact ⟨put, found, uploaded⟩
  | _ =>
      rw [stage] at uploaded
      exact uploaded.elim

/-- An upload that is gone is written by nobody but a put that has not finished it. -/
theorem advancePut_lost {uuid : String} (lost : container.objects (store.uploadKey uuid) = none)
    (closed : put.stage ≠ .closing uuid) :
    (container.advancePut store id put io).objects (store.uploadKey uuid) = none := by
  by_cases own : put.stage.uuid = some uuid
  · cases stage : put.stage with
    | closing mine =>
        rw [stage] at own closed
        cases own
        exact absurd rfl closed
    | publishing mine =>
        rw [stage] at own
        cases own
        simp only [advancePut, stage, publish, lost, setCall]
    | removing mine outcome =>
        rw [stage] at own
        cases own
        simp only [advancePut, stage]
        split
        · exact lost
        · exact Function.update_self ..
    | opening mine => simpa only [advancePut, stage, setCall] using lost
    | copying mine => simpa only [advancePut, stage, setCall] using lost
    | _ =>
        rw [stage] at own
        cases own
  · exact (advancePut_uploads uuid own).trans lost

/-- A copy is there because it was, or because the put that published its upload has got it. -/
theorem advancePut_pending {digest : ValidDigest} {owner : Nat} {uuid : String}
    (made : (container.advancePut store id put io).objects (store.key digest) =
      some (.pending owner uuid)) :
    container.objects (store.key digest) = some (.pending owner uuid) ∨
      (put.stage = .publishing uuid ∧ owner = id ∧ digest = put.digest ∧
        container.objects (store.uploadKey uuid) ≠ none ∧
        container.objects (store.key digest) = none ∧
        (io.fails = true → io.effective = true)) := by
  have uploaded {mine : String} (object : Option AzureObject)
      (there : (container.setObject (store.uploadKey mine) object).objects (store.key digest) =
        some (.pending owner uuid)) :
      container.objects (store.key digest) = some (.pending owner uuid) :=
    (Function.update_of_ne (AzureStore.key_ne_uploadKey digest mine) _ _).symm.trans there
  have created (there : (container.setObject (store.key put.digest) (some (.whole []))).objects
      (store.key digest) = some (.pending owner uuid)) :
      container.objects (store.key digest) = some (.pending owner uuid) := by
    by_cases same : digest = put.digest
    · subst same
      cases (setObject_self _).symm.trans there
    · exact (setObject_other same).symm.trans there
  cases stage : put.stage with
  | begun =>
      simp only [advancePut, stage] at made
      split at made
      · exact .inl made
      · split at made <;> exact .inl made
  | creating =>
      simp only [advancePut, stage, create] at made
      split at made
      · split at made <;> exact .inl made
      · split at made
        · split at made
          · exact .inl (created made)
          · exact .inl made
        · exact .inl (created made)
  | closing mine =>
      simp only [advancePut, stage] at made
      split at made
      · exact .inl made
      · exact .inl (uploaded _ made)
  | publishing mine =>
      cases upload : container.objects (store.uploadKey mine) with
      | none =>
          simp only [advancePut, stage, publish, upload] at made
          exact .inl made
      | some object =>
          cases held : container.objects (store.key put.digest) with
          | some present =>
              simp only [advancePut, stage, publish, upload, held] at made
              exact .inl made
          | none =>
              have copied (effective : io.fails = true → io.effective = true)
                  (there : (container.setObject (store.key put.digest)
                    (some (.pending id mine))).objects (store.key digest) =
                      some (.pending owner uuid)) :
                  container.objects (store.key digest) = some (.pending owner uuid) ∨
                    (AzureStage.publishing mine = .publishing uuid ∧ owner = id ∧
                      digest = put.digest ∧ container.objects (store.uploadKey uuid) ≠ none ∧
                      container.objects (store.key digest) = none ∧
                      (io.fails = true → io.effective = true)) := by
                by_cases same : digest = put.digest
                · subst same
                  cases (setObject_self _).symm.trans there
                  exact .inr ⟨rfl, rfl, rfl, by simp [upload], held, effective⟩
                · exact .inl ((setObject_other same).symm.trans there)
              cases fails : io.fails with
              | true =>
                  cases effective : io.effective with
                  | true =>
                      simp only [advancePut, stage, publish, upload, held, fails, effective,
                        if_true] at made
                      simpa only [fails, effective] using copied (fun _ => effective) made
                  | false =>
                      simp only [advancePut, stage, publish, upload, held, fails, effective,
                        if_true, Bool.false_eq_true, if_false] at made
                      exact .inl made
              | false =>
                  simp only [advancePut, stage, publish, upload, held, fails, Bool.false_eq_true,
                    if_false] at made
                  simpa only [fails] using copied (fun same => by simp [fails] at same) made
  | removing mine outcome =>
      simp only [advancePut, stage] at made
      split at made
      · exact .inl made
      · exact .inl (uploaded _ made)
  | waiting outcome polls =>
      simp only [advancePut, stage] at made
      split at made <;> exact .inl made
  | _ =>
      simp only [advancePut, stage] at made
      exact .inl made

/-- A copy that is accepted has its upload, and its put learns of it. -/
theorem advancePut_copies (sound : container.Sound store)
    (found : container.calls[id]? = some (.put put))
    (careful : AzureMove.Careful store container (.advance id io)) {digest : ValidDigest}
    {owner : Nat} {uuid : String}
    (made : (container.advancePut store id put io).objects (store.key digest) =
      some (.pending owner uuid)) :
    container.objects (store.key digest) = some (.pending owner uuid) ∨
      ∃ next, (container.advancePut store id put io).calls[owner]? = some (.put next) ∧
        next.stage.Past ∧ (container.advancePut store id put io).objects (store.uploadKey uuid) =
          some (.whole next.source) := by
  rcases advancePut_pending made with old | ⟨stage, rfl, rfl, upload, absent, effective⟩
  · exact .inl old
  · have served : io.fails = false := by
      cases fails : io.fails with
      | false => rfl
      | true => cases (careful put uuid found stage fails).symm.trans (effective fails)
    obtain ⟨own, -⟩ := (sound.puts owner put found).own uuid (by rw [stage]; rfl)
    obtain ⟨object, there⟩ := Option.ne_none_iff_exists'.mp upload
    obtain ⟨put', found', whole⟩ := sound.uploads uuid owner own
    cases found.symm.trans found'
    obtain rfl := whole object there
    right
    simp only [advancePut, stage, publish, there, absent, served, Bool.false_eq_true, if_false]
    refine ⟨_, List.getElem?_set_self (List.getElem?_eq_some_iff.mp found).1, trivial, ?_⟩
    exact (setObject_upload _ uuid).trans there

end Steps

theorem Kept.advancePut (kept : container.Kept store) (sound : container.Sound store) {id : Nat}
    {put : AzurePut} {io : AzureIo} (found : container.calls[id]? = some (.put put))
    (careful : AzureMove.Careful store container (.advance id io)) :
    (container.advancePut store id put io).Kept store := by
  obtain ⟨next, proceeds⟩ := advancePut_proceeds sound found io
  refine ⟨fun digest owner uuid made => ?_, fun digest broken => ?_⟩
  · rcases advancePut_copies sound found careful made with old | new
    · obtain ⟨holder, present, past, source⟩ := kept.sources digest owner uuid old
      have uploads (other : put.stage.uuid ≠ some uuid) :
          (container.advancePut store id put io).objects (store.uploadKey uuid) =
            some (.whole holder.source) := (advancePut_uploads uuid other).trans source
      by_cases mine : owner = id
      · subst mine
        cases found.symm.trans present
        obtain ⟨after, there, past', same⟩ := advancePut_past store io found past
        refine ⟨after, there, past', ?_⟩
        rw [same]
        refine uploads fun own => ?_
        cases stage : put.stage <;> rw [stage] at past own <;> first | exact past | cases own
      · refine ⟨holder, ?_, past, uploads fun own => mine ?_⟩
        · rw [proceeds.calls]
          exact (List.getElem?_set_ne (Ne.symm mine)).trans present
        · obtain ⟨member, -⟩ := sound.copies digest owner uuid old
          exact sound.drawn_once member ((sound.puts id put found).own uuid own).1
    · exact new
  · rcases proceeds.made digest _ broken with old | ⟨-, ⟨wrong, -⟩ | ⟨_, wrong, -⟩⟩
    · exact kept.unbroken digest old
    · cases wrong
    · cases wrong

/-- Unless it advances a put, a move makes no copy and leaves the puts of all that are pending. -/
theorem step_pending (sound : container.Sound store) {move : AzureMove}
    (quiet : ∀ id io put, move = .advance id io → container.calls[id]? ≠ some (.put put))
    {digest : ValidDigest} {owner : Nat} {uuid : String}
    (made : (container.step store move).objects (store.key digest) =
      some (.pending owner uuid)) :
    container.objects (store.key digest) = some (.pending owner uuid) ∧
      ∀ put, container.calls[owner]? = some (.put put) →
        (container.step store move).calls[owner]? = some (.put put) := by
  cases move with
  | put other source =>
      refine ⟨made, fun put present => ?_⟩
      exact (List.getElem?_append_left (List.getElem?_eq_some_iff.mp present).1).trans present
  | get other =>
      refine ⟨made, fun put present => ?_⟩
      exact (List.getElem?_append_left (List.getElem?_eq_some_iff.mp present).1).trans present
  | advance id io =>
      simp only [Container.step] at made ⊢
      cases found : container.calls[id]? with
      | none =>
          simp only [found] at made
          exact ⟨made, fun put present => present⟩
      | some call =>
          cases call with
          | put put => exact absurd found (quiet id io put rfl)
          | get get =>
              simp only [found, advanceGet] at made ⊢
              split at made
              · refine ⟨made, fun put present => (List.getElem?_set_ne ?_).trans present⟩
                rintro rfl
                cases found.symm.trans present
              · exact ⟨made, fun put present => present⟩
              · exact ⟨made, fun put present => present⟩
  | settle other =>
      simp only [Container.step] at made ⊢
      rcases settle_cases sound other with same | ⟨-, same⟩ | ⟨id, put, fills⟩
      · rw [same] at made ⊢
        exact ⟨made, fun put present => present⟩
      · rw [same] at made ⊢
        by_cases mine : digest = other
        · subst mine
          cases (setObject_self _).symm.trans made
        · exact ⟨(setObject_other mine).symm.trans made, fun put present => present⟩
      · obtain ⟨⟨uuid', pending⟩, found, -, -, after⟩ := fills
        rw [after] at made ⊢
        by_cases mine : digest = other
        · subst mine
          cases (setObject_self _).symm.trans made
        · have old := (setObject_other mine).symm.trans made
          refine ⟨old, fun held present => (List.getElem?_set_ne ?_).trans present⟩
          -- A put has one object, and this one is another's.
          rintro rfl
          obtain ⟨-, one, present', here, -⟩ := sound.copies other id uuid' pending
          obtain ⟨-, two, present'', there, -⟩ := sound.copies digest id uuid old
          cases present'.symm.trans present''
          exact mine (there.symm.trans here)
  | expire uuid' =>
      exact ⟨(Function.update_of_ne (AzureStore.key_ne_uploadKey digest uuid') _ _).symm.trans made,
        fun put present => present⟩

theorem settle_upload (digest : ValidDigest) (uuid : String) :
    (container.settle store digest).objects (store.uploadKey uuid) =
      container.objects (store.uploadKey uuid) := by
  unfold Container.settle
  split
  · split <;> exact setObject_upload _ uuid
  · rfl

theorem Kept.settles (kept : container.Kept store) {digest : ValidDigest} {id : Nat}
    {uuid : String} (pending : container.objects (store.key digest) = some (.pending id uuid)) :
    ∃ put, container.calls[id]? = some (.put put) ∧ container.settle store digest =
      (container.setObject (store.key digest) (some (.whole put.source))).setCall id
        (.put { put with created := some put.owed }) := by
  obtain ⟨put, found, -, source⟩ := kept.sources digest id uuid pending
  exact ⟨put, found, by simp only [settle, pending, source, found]⟩

theorem Kept.settle (kept : container.Kept store) (sound : container.Sound store)
    (digest : ValidDigest) : (container.settle store digest).Kept store := by
  refine ⟨fun other owner upload held => ?_, fun other broken => ?_⟩
  · have made : (container.step store (.settle digest)).objects (store.key other) =
        some (.pending owner upload) := held
    obtain ⟨old, later⟩ := step_pending sound (fun _ _ _ same => by cases same) made
    obtain ⟨holder, present, past, source⟩ := kept.sources other owner upload old
    exact ⟨holder, later holder present, past, (settle_upload digest upload).trans source⟩
  · by_cases copying : ∃ id uuid, container.objects (store.key digest) = some (.pending id uuid)
    · obtain ⟨id, uuid, pending⟩ := copying
      obtain ⟨put, found, after⟩ := kept.settles pending
      rw [after] at broken
      by_cases same : other = digest
      · subst same
        cases (setObject_self _).symm.trans broken
      · exact kept.unbroken other ((setObject_other same).symm.trans broken)
    · have still : container.settle store digest = container := by
        unfold Container.settle
        split
        next id uuid pending => exact absurd ⟨id, uuid, pending⟩ copying
        next => rfl
      rw [still] at broken
      exact kept.unbroken other broken

theorem Kept.expire (kept : container.Kept store) {uuid : String}
    (unread : ∀ digest id, container.objects (store.key digest) ≠ some (.pending id uuid)) :
    (container.setObject (store.uploadKey uuid) none).Kept store := by
  have blobs (digest : ValidDigest) :
      (container.setObject (store.uploadKey uuid) none).objects (store.key digest) =
        container.objects (store.key digest) :=
    Function.update_of_ne (AzureStore.key_ne_uploadKey digest uuid) _ _
  refine ⟨fun digest id upload pending => ?_, fun digest => ?_⟩
  · rw [blobs] at pending
    obtain ⟨put, present, past, source⟩ := kept.sources digest id upload pending
    have apart : store.uploadKey upload ≠ store.uploadKey uuid := by
      intro same
      rw [AzureStore.uploadKey_inj.mp same] at pending
      exact unread digest id pending
    exact ⟨put, present, past, (Function.update_of_ne apart _ _).trans source⟩
  · rw [blobs]
    exact kept.unbroken digest

theorem Kept.step (kept : container.Kept store) (sound : container.Sound store)
    {move : AzureMove} (careful : move.Careful store container) :
    (container.step store move).Kept store := by
  cases move with
  | put digest source =>
      refine ⟨fun digest owner uuid pending => ?_, kept.unbroken⟩
      obtain ⟨holder, present, rest⟩ := kept.sources digest owner uuid pending
      have inside := (List.getElem?_eq_some_iff.mp present).1
      exact ⟨holder, (List.getElem?_append_left inside).trans present, rest⟩
  | get digest =>
      refine ⟨fun digest owner uuid pending => ?_, kept.unbroken⟩
      obtain ⟨holder, present, rest⟩ := kept.sources digest owner uuid pending
      have inside := (List.getElem?_eq_some_iff.mp present).1
      exact ⟨holder, (List.getElem?_append_left inside).trans present, rest⟩
  | advance id io =>
      simp only [Container.step]
      cases found : container.calls[id]? with
      | none => exact kept
      | some call =>
          cases call with
          | put put => exact kept.advancePut sound found careful
          | get get =>
              simp only [advanceGet]
              split
              · refine ⟨fun digest owner uuid pending => ?_, kept.unbroken⟩
                obtain ⟨holder, present, rest⟩ := kept.sources digest owner uuid pending
                refine ⟨holder, (List.getElem?_set_ne ?_).trans present, rest⟩
                rintro rfl
                cases found.symm.trans present
              · exact kept
              · exact kept
  | settle digest => exact kept.settle sound digest
  | expire uuid => exact kept.expire careful

def CarefulRun (store : AzureStore) : Container → List AzureMove → Prop
  | _, [] => True
  | container, move :: rest =>
      move.Careful store container ∧ CarefulRun store (container.step store move) rest

theorem Kept.run (kept : container.Kept store) (sound : container.Sound store)
    {moves : List AzureMove} (careful : CarefulRun store container moves) :
    (container.run store moves).Kept store := by
  induction moves generalizing container with
  | nil => exact kept
  | cons move rest ih => exact ih (kept.step sound careful.1) (step_sound sound move) careful.2

theorem start_kept (objects : ObjectKey → Option Bytes) : (start objects).Kept store where
  sources digest id uuid pending := by
    obtain ⟨bytes, -, wrong⟩ := Option.map_eq_some_iff.mp pending
    cases wrong
  unbroken digest broken := by
    obtain ⟨bytes, -, wrong⟩ := Option.map_eq_some_iff.mp broken
    cases wrong

def Closed (store : AzureStore) (container : Container) : Prop :=
  ∀ digest id uuid, container.objects (store.key digest) = some (.pending id uuid) →
    ∃ put, container.calls[id]? = some (.put put) ∧ put.stage.Uploaded

theorem start_closed (objects : ObjectKey → Option Bytes) : (start objects).Closed store := by
  intro digest id uuid pending
  obtain ⟨bytes, -, wrong⟩ := Option.map_eq_some_iff.mp pending
  cases wrong

theorem Closed.advancePut (closed : container.Closed store) {id : Nat} {put : AzurePut}
    (sound : container.Sound store) (found : container.calls[id]? = some (.put put))
    (io : AzureIo) : (container.advancePut store id put io).Closed store := by
  intro digest owner uuid made
  obtain ⟨next, proceeds⟩ := advancePut_proceeds sound found io
  rcases advancePut_pending made with old | ⟨stage, rfl, -⟩
  · obtain ⟨holder, present, uploaded⟩ := closed digest owner uuid old
    by_cases mine : owner = id
    · subst mine
      cases found.symm.trans present
      exact advancePut_uploaded store io found uploaded
    · refine ⟨holder, ?_, uploaded⟩
      rw [proceeds.calls]
      exact (List.getElem?_set_ne (Ne.symm mine)).trans present
  · exact advancePut_uploaded store io found (by rw [stage]; trivial)

theorem Closed.step (closed : container.Closed store) (sound : container.Sound store)
    (move : AzureMove) : (container.step store move).Closed store := by
  by_cases quiet : ∀ id io put, move = .advance id io → container.calls[id]? ≠ some (.put put)
  · intro digest owner uuid made
    obtain ⟨old, later⟩ := step_pending sound quiet made
    obtain ⟨put, present, uploaded⟩ := closed digest owner uuid old
    exact ⟨put, later put present, uploaded⟩
  · push Not at quiet
    obtain ⟨id, io, put, rfl, found⟩ := quiet
    simpa only [Container.step, found] using closed.advancePut sound found io

theorem Closed.run (closed : container.Closed store) (sound : container.Sound store)
    (moves : List AzureMove) : (container.run store moves).Closed store := by
  induction moves generalizing container with
  | nil => exact closed
  | cons move rest ih => exact ih (closed.step sound move) (step_sound sound move)

theorem step_broken (sound : container.Sound store) {digest : ValidDigest}
    (broken : container.objects (store.key digest) = some .broken) (move : AzureMove) :
    (container.step store move).objects (store.key digest) = some .broken := by
  cases move with
  | put digest source => exact broken
  | get digest => exact broken
  | advance id io =>
      simp only [Container.step]
      cases found : container.calls[id]? with
      | none => exact broken
      | some call =>
          cases call with
          | put put =>
              obtain ⟨next, proceeds⟩ := advancePut_proceeds sound found io
              exact proceeds.kept digest _ broken
          | get get =>
              simp only [advanceGet]
              split <;> exact broken
  | settle other =>
      simp only [Container.step]
      by_cases same : digest = other
      · subst same
        simp only [Container.settle, broken]
      · rcases settle_cases sound other with still | ⟨-, after⟩ | ⟨id, put, fills⟩
        · rw [still]
          exact broken
        · rw [after]
          exact (setObject_other same).trans broken
        · rw [fills.after]
          exact (setObject_other same).trans broken
  | expire uuid =>
      exact (Function.update_of_ne (AzureStore.key_ne_uploadKey digest uuid) _ _).trans broken

/-- A copy that has failed, or that has yet to, because its upload is gone. -/
def Lost (store : AzureStore) (container : Container) (digest : ValidDigest) : Prop :=
  container.objects (store.key digest) = some .broken ∨
    ∃ id uuid, container.objects (store.key digest) = some (.pending id uuid) ∧
      container.objects (store.uploadKey uuid) = none

/-- No upload comes back. -/
theorem Lost.step {digest : ValidDigest} (lost : container.Lost store digest)
    (sound : container.Sound store) (closed : container.Closed store) (move : AzureMove) :
    (container.step store move).Lost store digest := by
  rcases lost with broken | ⟨owner, uuid, pending, gone⟩
  · exact .inl (step_broken sound broken move)
  · cases move with
    | put other source => exact .inr ⟨owner, uuid, pending, gone⟩
    | get other => exact .inr ⟨owner, uuid, pending, gone⟩
    | advance id io =>
        simp only [Container.step]
        cases found : container.calls[id]? with
        | none => exact .inr ⟨owner, uuid, pending, gone⟩
        | some call =>
            cases call with
            | put put =>
                obtain ⟨next, proceeds⟩ := advancePut_proceeds sound found io
                refine .inr ⟨owner, uuid, proceeds.kept digest _ pending, advancePut_lost gone ?_⟩
                intro closing
                obtain ⟨member, -⟩ := (sound.puts id put found).own uuid (by rw [closing]; rfl)
                obtain ⟨drawn, -⟩ := sound.copies digest owner uuid pending
                obtain rfl := sound.drawn_once drawn member
                obtain ⟨holder, present, uploaded⟩ := closed digest owner uuid pending
                cases found.symm.trans present
                rw [closing] at uploaded
                exact uploaded
            | get get =>
                simp only [advanceGet]
                split <;> exact .inr ⟨owner, uuid, pending, gone⟩
    | settle other =>
        simp only [Container.step]
        by_cases same : digest = other
        · subst same
          left
          simp only [Container.settle, pending, gone]
          exact setObject_self _
        · refine .inr ⟨owner, uuid, ?_, (settle_upload other uuid).trans gone⟩
          rcases settle_cases sound other with still | ⟨-, after⟩ | ⟨id, put, fills⟩
          · rw [still]
            exact pending
          · rw [after]
            exact (setObject_other same).trans pending
          · rw [fills.after]
            exact (setObject_other same).trans pending
    | expire other =>
        refine .inr ⟨owner, uuid, ?_, ?_⟩
        · exact (Function.update_of_ne (AzureStore.key_ne_uploadKey digest other) _ _).trans pending
        · by_cases same : store.uploadKey uuid = store.uploadKey other
          · simp only [Container.step, setObject, same, Function.update_self]
          · exact (Function.update_of_ne same _ _).trans gone

theorem Lost.run {digest : ValidDigest} (lost : container.Lost store digest)
    (sound : container.Sound store) (closed : container.Closed store) (moves : List AzureMove) :
    (container.run store moves).Lost store digest := by
  induction moves generalizing container with
  | nil => exact lost
  | cons move rest ih =>
      exact ih (lost.step sound closed move) (step_sound sound move) (closed.step sound move)

end Container

/-- As long as no copy is accepted without its put learning so, and the lifecycle of the uploads
spares those that a copy reads, every copy keeps its upload and fills its object with what its
put was given. Once a copy has lost its upload, its blob can never be stored again. -/
theorem AzureStore.copies_end (store : AzureStore) (objects : ObjectKey → Option Bytes)
    (moves : List AzureMove) :
    let container := (Container.start objects).run store moves
    (Container.CarefulRun store (Container.start objects) moves → ∀ digest,
      container.objects (store.key digest) ≠ some .broken ∧
        ∀ id uuid, container.objects (store.key digest) = some (.pending id uuid) →
          ∃ put, container.calls[id]? = some (.put put) ∧ put.digest = digest ∧
            (container.settle store digest).objects (store.key digest) =
              some (.whole put.source)) ∧
    ∀ digest, container.Lost store digest →
      ∀ (more : List AzureMove) (id : Nat) (put : AzurePut),
        (container.run store more).calls[id]? = some (.put put) → put.digest = digest →
          ∀ outcome, put.stage ≠ .answered outcome := by
  intro container
  have sound : container.Sound store := Container.run_sound (Container.start_sound objects) moves
  refine ⟨fun careful digest => ?_, fun digest lost more id put found same outcome ended => ?_⟩
  · have kept : container.Kept store :=
      (Container.start_kept objects).run (Container.start_sound objects) careful
    refine ⟨kept.unbroken digest, fun id uuid pending => ?_⟩
    obtain ⟨put, found, after⟩ := kept.settles pending
    obtain ⟨-, put', found', here, -⟩ := sound.copies digest id uuid pending
    cases found.symm.trans found'
    refine ⟨put, found, here, ?_⟩
    rw [after]
    exact Container.setObject_self _
  · have closed : container.Closed store :=
      (Container.start_closed objects).run (Container.start_sound objects) moves
    have fits := (Container.run_sound sound more).puts id put found
    obtain ⟨⟨bytes, whole⟩, -⟩ := fits.answered outcome ended
    rw [same] at whole
    rcases lost.run sound closed more with broken | ⟨_, _, pending, -⟩
    · cases broken.symm.trans whole
    · cases pending.symm.trans whole

section Expired

def copiedDigest : ValidDigest := ⟨Specimen.zeroDigest, by decide +kernel⟩

def acceptedCopy : List AzureMove :=
  .put copiedDigest [0] :: List.replicate 5 (.advance 0 ⟨false, true, false, "a"⟩)

def accepting : Container := (Container.start fun _ => none).run default acceptedCopy

theorem accepting_pending :
    accepting.objects (AzureStore.key default copiedDigest) = some (.pending 0 "a") := by
  decide +kernel

theorem acceptedCopy_careful :
    Container.CarefulRun default (Container.start fun _ => none) acceptedCopy := by
  have calm (container : Container) :
      (AzureMove.advance 0 ⟨false, true, false, "a"⟩).Careful default container :=
    fun _ _ _ _ fails => nomatch fails
  exact ⟨trivial, calm _, calm _, calm _, calm _, calm _, trivial⟩

/-- The copy fills the object if it ends first. If the upload expires first, the blob is lost. -/
theorem zero_copy_ends :
    accepting.objects (AzureStore.key default copiedDigest) = some (.pending 0 "a") ∧
    (accepting.settle default copiedDigest).objects
      (AzureStore.key default copiedDigest) = some (.whole [0]) ∧
    ∀ (more : List AzureMove) (id : Nat) (put : AzurePut),
      (accepting.run default (.expire "a" :: more)).calls[id]? = some (.put put) →
        put.digest = copiedDigest → ∀ outcome, put.stage ≠ .answered outcome := by
  obtain ⟨ends, -⟩ := AzureStore.copies_end default (fun _ => none) acceptedCopy
  obtain ⟨-, fills⟩ := ends acceptedCopy_careful copiedDigest
  obtain ⟨put, found, -, filled⟩ := fills 0 "a" accepting_pending
  refine ⟨accepting_pending, ?_, fun more => ?_⟩
  · have source : put.source = [0] := by
      have call : accepting.calls[0]? =
          some (.put ⟨copiedDigest, [0], .waiting .created 0, none⟩) := by decide +kernel
      cases call.symm.trans found
      rfl
    rw [← source]
    exact filled
  · obtain ⟨-, stays⟩ :=
      AzureStore.copies_end default (fun _ => none) (acceptedCopy ++ [.expire "a"])
    have splits : (Container.start fun _ => none).run default (acceptedCopy ++ [.expire "a"]) =
        accepting.step default (.expire "a") := List.foldl_append ..
    rw [splits] at stays
    refine stays copiedDigest (.inr ⟨0, "a", ?_, ?_⟩) more
    · have other : AzureStore.key default copiedDigest ≠ AzureStore.uploadKey default "a" :=
        AzureStore.key_ne_uploadKey _ _
      exact (Function.update_of_ne other none accepting.objects).trans accepting_pending
    · exact Function.update_self (AzureStore.uploadKey default "a") none accepting.objects

end Expired

end MbxCache
