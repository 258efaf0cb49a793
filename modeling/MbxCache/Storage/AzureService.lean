import MbxCache.Storage.AzureRuns

namespace MbxCache

open Concurrent SerialObject

namespace Container

variable (store : AzureStore)

def notices (container : Container) : AzureMove → List (storage azureManners).Notice
  | .put digest source =>
      [.called container.calls.length (.put digest (AzurePut.content ⟨digest, source, .begun, none⟩))]
  | .get digest => [.called container.calls.length (.get digest)]
  | .advance id io =>
      match container.calls[id]?, (container.step store (.advance id io)).calls[id]? with
      | some before, some after => ending AzureCall.ended id before after
      | _, _ => []
  | .settle _ => []
  | .expire _ => []

def service : Implementation (storage azureManners) where
  State := Container
  Move := AzureMove
  step := step store
  notices := notices store

def atomic (container : Container) : (storage azureManners).Atomic :=
  ⟨container.view store, stages AzureCall.stageOf container.calls⟩

variable {store} {container after : Container}

theorem Fits.told {id : Nat} {put : AzurePut} (fits : container.Fits store id put)
    {answer : BlobAnswer} (ended : AzureCall.ended (.put put) = some (some answer)) :
    ∃ request, AzureCall.stageOf (.put put) = .acted request answer := by
  cases stage : put.stage with
  | answered outcome =>
      simp only [AzureCall.ended, stage, AzurePut.ending, Option.some.injEq] at ended
      subst ended
      refine ⟨.put put.digest put.content, ?_⟩
      cases created : put.created with
      | none => simp [AzureCall.stageOf, AzurePut.stageOf, created, stage]
      | some other =>
          have told := fits.tells other created
          rw [stage] at told
          obtain rfl : other = outcome := told
          simp [AzureCall.stageOf, AzurePut.stageOf, created]
  | _ => simp [AzureCall.ended, stage, AzurePut.ending] at ended

theorem Proceeds.steps {id : Nat} {put next : AzurePut}
    (proceeds : Proceeds store container id put after next)
    (found : container.calls[id]? = some (.put put)) : ∃ acts,
      acts.filterMap Act.notice? = ending AzureCall.ended id (.put put) (.put next) ∧
        (container.atomic store).Steps acts (after.atomic store) := by
  have advances : Furthers AzureCall.stageOf (container.view store) (after.view store) (.put put)
      (.put next) := by
    cases proceeds.advances with
    | stays same unchanged => exact .stays same unchanged
    | begins request waiting begins same => exact .begins request waiting begins same
    | acts request answer waiting does acted => exact .acts request answer waiting does acted
  obtain ⟨acts, seen, steps⟩ := advances.steps AzureCall.ended found fun answer ended =>
    proceeds.fits.told ended
  refine ⟨acts, seen, ?_⟩
  simp only [atomic, proceeds.calls]
  exact steps

theorem does_get (digest : ValidDigest) : Stores azureManners (container.view store) (.get digest)
    (container.view store)
    (.found ((container.objects (store.key digest)).map AzureObject.content)) := by
  have unfilled (object : AzureObject) (held : container.objects (store.key digest) = some object)
      (part : ∀ bytes, object ≠ .whole bytes) :
      Stores azureManners (container.view store) (.get digest) (container.view store)
        (.found (some [])) := .early ⟨object, held, part⟩
  have filled (whole : ∀ object, container.objects (store.key digest) = some object →
      ∃ bytes, object = .whole bytes) :
      Stores azureManners (container.view store) (.get digest) (container.view store)
        (.found (container.filled store digest)) := by
    refine .get ?_
    rintro ⟨object, held, part⟩
    obtain ⟨bytes, same⟩ := whole object held
    exact part bytes same
  cases held : container.objects (store.key digest) with
  | none => simpa [Container.filled, held] using filled (by simp [held])
  | some object =>
      cases object with
      | whole bytes => simpa [Container.filled, held, AzureObject.content] using filled (by simp [held])
      | pending id uuid => exact unfilled _ held (by simp)
      | broken => exact unfilled _ held (by simp)

variable (store) in
theorem advanceGet_steps {id : Nat} {get : AzureGet} (io : AzureIo)
    (found : container.calls[id]? = some (.get get)) : ∃ next acts,
      (container.advanceGet store id get io).calls[id]? = some (.get next) ∧
      acts.filterMap Act.notice? = ending AzureCall.ended id (.get get) (.get next) ∧
        (container.atomic store).Steps acts
          ((container.advanceGet store id get io).atomic store) := by
  have bound := (List.getElem?_eq_some_iff.mp found).1
  cases stage : get.stage with
  | sending =>
      have advances (next : AzureGetStage) (ends : next = .failed ∨
          next = .answered ((container.objects (store.key get.digest)).map AzureObject.content)) :
          Furthers AzureCall.stageOf (container.view store) (container.view store) (.get get)
            (.get { get with stage := next }) := by
        rcases ends with rfl | rfl
        · exact .stays (by simp [AzureCall.stageOf, AzureGet.stageOf, stage]) rfl
        · exact .acts (.get get.digest) _ (by simp [AzureCall.stageOf, AzureGet.stageOf, stage])
            (does_get get.digest) rfl
      have told (next : AzureGetStage) (answer : BlobAnswer)
          (ended : AzureCall.ended (.get { get with stage := next }) = some (some answer)) :
          ∃ request, AzureCall.stageOf (.get { get with stage := next }) =
            .acted request answer := by
        cases next <;> cases ended
        exact ⟨_, rfl⟩
      have ends : (if io.fails then AzureGetStage.failed
          else .answered ((container.objects (store.key get.digest)).map AzureObject.content)) =
            .failed ∨ (if io.fails then AzureGetStage.failed
          else .answered ((container.objects (store.key get.digest)).map AzureObject.content)) =
            .answered ((container.objects (store.key get.digest)).map AzureObject.content) := by
        cases io.fails <;> simp
      simp only [advanceGet, stage]
      generalize (if io.fails then AzureGetStage.failed
        else .answered ((container.objects (store.key get.digest)).map AzureObject.content)) =
          next at ends
      obtain ⟨acts, seen, steps⟩ := (advances next ends).steps AzureCall.ended found
        fun answer ended => told next answer ended
      exact ⟨_, acts, List.getElem?_set_self bound, seen, steps⟩
  | answered content =>
      simp only [advanceGet, stage]
      refine ⟨get, [], found, ?_, .none⟩
      simp [ending, AzureCall.ended, AzureGet.ending, stage]
  | failed =>
      simp only [advanceGet, stage]
      refine ⟨get, [], found, ?_, .none⟩
      simp [ending, AzureCall.ended, AzureGet.ending, stage]

theorem view_broken {digest : ValidDigest} {id : Nat} {uuid : String}
    (pending : container.objects (store.key digest) = some (.pending id uuid)) :
    (container.setObject (store.key digest) (some .broken)).view store = container.view store := by
  refine StoredObjects.ext (funext fun other => ?_) (Set.ext fun other => ?_)
  · by_cases mine : other = digest
    · subst mine
      simp [view, Container.filled, setObject, pending]
    · simp only [view, Container.filled, setObject_other mine]
  · by_cases mine : other = digest
    · subst mine
      simp [view, setObject, pending]
    · simp only [view, Set.mem_ofPred_eq, setObject_other mine]

theorem settle_steps (sound : container.Sound store) (digest : ValidDigest) : ∃ acts : List _,
    acts.filterMap Act.notice? = [] ∧
      (container.atomic store).Steps acts ((container.settle store digest).atomic store) := by
  rcases settle_cases sound digest with same | ⟨⟨id, uuid, pending⟩, same⟩ | ⟨id, put, fills⟩
  · rw [same]
    exact ⟨[], rfl, .none⟩
  · rw [same]
    refine ⟨[], rfl, ?_⟩
    -- The object stays unfilled.
    simp only [atomic, view_broken pending]
    exact .none
  · have found := fills.found
    have advances : Furthers AzureCall.stageOf (container.view store)
        ((container.settle store digest).view store) (.put put)
        (.put { put with created := some put.owed }) := by
      cases fills.advances sound with
      | stays same unchanged => exact .stays same unchanged
      | begins request waiting begins same => exact .begins request waiting begins same
      | acts request answer waiting does acted => exact .acts request answer waiting does acted
    have calls : (container.settle store digest).calls =
        container.calls.set id (.put { put with created := some put.owed }) := by
      rw [fills.after]
      rfl
    obtain ⟨acts, seen, steps⟩ := advances.steps AzureCall.ended found fun answer ended => by
      have fits := (fills.sound sound).puts id { put with created := some put.owed } <| by
        rw [calls]
        exact List.getElem?_set_self (List.getElem?_eq_some_iff.mp found).1
      exact fits.told ended
    refine ⟨acts, ?_, ?_⟩
    · rw [seen]
      -- The caller sees nothing of it.
      unfold ending
      cases ended : AzureCall.ended (.put put) with
      | none =>
          have same : AzureCall.ended (.put { put with created := some put.owed }) = none := ended
          simp only [same]
      | some answer => rfl
    · simp only [atomic, calls]
      exact steps

/-- A container in use is an object that each call acts on at one moment. -/
theorem refines (store : AzureStore) :
    (service store).Refines (Sound store) (atomic store) where
  keeps _ move sound := step_sound sound move
  simulates container move sound := by
    cases move with
    | put digest source =>
        exact ⟨_, rfl, steps_called AzureCall.stageOf (container.view store) container.calls rfl⟩
    | get digest =>
        exact ⟨_, rfl, steps_called AzureCall.stageOf (container.view store) container.calls rfl⟩
    | advance id io =>
        cases found : container.calls[id]? with
        | none =>
            refine ⟨[], ?_, ?_⟩
            · simp only [service, notices, found]
              rfl
            · simp only [service, step, found]
              exact .none
        | some call =>
            cases call with
            | put put =>
                obtain ⟨next, proceeds⟩ := advancePut_proceeds sound found io
                have there : (container.advancePut store id put io).calls[id]? =
                    some (.put next) := by
                  rw [proceeds.calls]
                  exact List.getElem?_set_self (List.getElem?_eq_some_iff.mp found).1
                obtain ⟨acts, seen, steps⟩ := proceeds.steps found
                refine ⟨acts, ?_, ?_⟩
                · simp only [service, notices, step, found, there]
                  exact seen
                · simp only [service, step, found]
                  exact steps
            | get get =>
                obtain ⟨next, acts, there, seen, steps⟩ := advanceGet_steps store io found
                refine ⟨acts, ?_, ?_⟩
                · simp only [service, notices, step, found, there]
                  exact seen
                · simp only [service, step, found]
                  exact steps
    | settle digest => exact settle_steps sound digest
    | expire uuid =>
        refine ⟨[], rfl, ?_⟩
        have view : (container.setObject (store.uploadKey uuid) none).view store =
            container.view store := view_upload uuid none
        simp only [service, step, atomic, view]
        exact .none

end Container

/-- Puts and gets of an Azure container, however their requests interleave, fail, are sent again
or lose their responses, and whenever the copies end or the lifecycle removes uploads, act one
after another. A put begins its object when its copy is accepted, and acts when the copy fills it;
only a get that comes between the two finds it empty. -/
theorem AzureStore.copies_serialized (store : AzureStore) (objects : ObjectKey → Option Bytes)
    (moves : List AzureMove) :
    Serialized (Container.service store) (Container.view store) (Container.start objects) moves :=
  Serialized.of_refines (Container.refines store) (Container.start_sound objects)
    (fun _ => rfl) moves

end MbxCache
