import MbxCache.Storage.Azure

namespace MbxCache

open Concurrent SerialObject

/-- A put may be told of its own object when a response was lost, and a get may meet a copy. -/
abbrev azureManners : Manners := ⟨true, true⟩

namespace AzureStore

variable {store : AzureStore}

theorem key_inj {one other : ValidDigest} : store.key one = store.key other ↔ one = other := by
  simp [key, store.distinct.eq_iff]

theorem uploadKey_inj {one other : String} :
    store.uploadKey one = store.uploadKey other ↔ one = other := by
  simp [uploadKey]

theorem key_ne_uploadKey (digest : ValidDigest) (uuid : String) :
    store.key digest ≠ store.uploadKey uuid := by
  simp [key, uploadKey]

end AzureStore

namespace AzureStage

def uuid : AzureStage → Option String
  | .opening uuid | .copying uuid | .closing uuid | .publishing uuid | .removing uuid _ => some uuid
  | .begun | .creating | .waiting _ _ | .answered _ | .failed => none

def Tells : AzureStage → PutOutcome → Prop
  | .waiting outcome _, told | .answered outcome, told | .removing _ (some outcome), told =>
      told = outcome
  | .removing _ none, _ | .failed, _ => True
  | _, told => told = .alreadyExists

def Plain : AzureStage → Prop
  | .begun | .opening _ | .copying _ | .closing _ | .publishing _ | .removing _ none | .failed =>
      True
  | .creating | .removing _ (some _) | .waiting _ _ | .answered _ => False

end AzureStage

namespace AzurePut

def stageOf (put : AzurePut) : (storage azureManners).Stage :=
  match put.created, put.stage with
  | some outcome, _ | none, .answered outcome =>
      .acted (.put put.digest put.content) (.stored outcome)
  | none, _ => .waiting (.put put.digest put.content)

def ending : AzureStage → Option (Option BlobAnswer)
  | .answered outcome => some (some (.stored outcome))
  | .failed => some none
  | _ => none

end AzurePut

namespace AzureGet

def stageOf (get : AzureGet) : (storage azureManners).Stage :=
  match get.stage with
  | .answered found => .acted (.get get.digest) (.found found)
  | .sending | .failed => .waiting (.get get.digest)

def ending : AzureGetStage → Option (Option BlobAnswer)
  | .answered found => some (some (.found found))
  | .failed => some none
  | .sending => none

end AzureGet

namespace AzureCall

def stageOf : AzureCall → (storage azureManners).Stage
  | .put call => call.stageOf
  | .get call => call.stageOf

def ended : AzureCall → Option (Option BlobAnswer)
  | .put call => AzurePut.ending call.stage
  | .get call => AzureGet.ending call.stage

end AzureCall

namespace Container

variable (store : AzureStore)

def filled (container : Container) : Blobs := fun digest =>
  match container.objects (store.key digest) with
  | some (.whole bytes) => some bytes
  | _ => none

/-- The objects as the handlers see them. One is not filled while its copy is pending, and never is
when the copy has failed. -/
def view (container : Container) : StoredObjects where
  blobs := container.filled store
  unfilled := {digest | ∃ object, container.objects (store.key digest) = some object ∧
    ∀ bytes, object ≠ .whole bytes}
  apart digest unfilled := by
    obtain ⟨object, held, part⟩ := unfilled
    unfold filled
    split
    next bytes whole =>
      cases held.symm.trans whole
      exact absurd rfl (part bytes)
    next => rfl

structure Fits (container : Container) (id : Nat) (put : AzurePut) : Prop where
  tells : ∀ outcome, put.created = some outcome → put.stage.Tells outcome
  present : ∀ outcome, put.created = some outcome →
    ∃ bytes, container.objects (store.key put.digest) = some (.whole bytes)
  own : ∀ uuid, put.stage.uuid = some uuid → (uuid, id) ∈ container.drawn ∧ put.digest.1.size ≠ 0
  empty : put.stage = .creating → put.digest.1.size = 0
  accepted : ∀ polls, put.stage = .waiting .created polls → put.created = none →
    container.objects (store.key put.digest) = some .broken ∨
      ∃ uuid, container.objects (store.key put.digest) = some (.pending id uuid)
  removing : ∀ uuid outcome, put.stage = .removing uuid (some outcome) → outcome = .alreadyExists
  large : ∀ outcome polls, put.stage = .waiting outcome polls → put.digest.1.size ≠ 0
  answered : ∀ outcome, put.stage = .answered outcome →
    (∃ bytes, container.objects (store.key put.digest) = some (.whole bytes)) ∧
      (put.created = none → outcome = .alreadyExists)

structure Sound (container : Container) : Prop where
  puts : ∀ id put, container.calls[id]? = some (.put put) → container.Fits store id put
  uploads : ∀ uuid id, (uuid, id) ∈ container.drawn → ∃ put,
    container.calls[id]? = some (.put put) ∧ ∀ object,
      container.objects (store.uploadKey uuid) = some object → object = .whole put.source
  apart : (container.drawn.map Prod.fst).Nodup
  copies : ∀ digest id uuid, container.objects (store.key digest) = some (.pending id uuid) →
    (uuid, id) ∈ container.drawn ∧ ∃ put, container.calls[id]? = some (.put put) ∧
      put.digest = digest ∧ put.created = none
  filled : ∀ digest object, container.objects (store.key digest) = some object →
    digest.1.size = 0 → ∃ bytes, object = .whole bytes

variable {store} {container after : Container}

theorem Fits.later {id : Nat} {put : AzurePut} (fits : container.Fits store id put)
    (kept : ∀ digest object, container.objects (store.key digest) = some object →
      after.objects (store.key digest) = some object)
    (drawn : container.drawn ⊆ after.drawn) : after.Fits store id put where
  tells := fits.tells
  present outcome same := by
    obtain ⟨bytes, held⟩ := fits.present outcome same
    exact ⟨bytes, kept _ _ held⟩
  own uuid mine := (fits.own uuid mine).imp_left fun member => drawn member
  empty := fits.empty
  accepted polls waiting unfilled :=
    (fits.accepted polls waiting unfilled).imp (kept _ _) fun ⟨uuid, held⟩ => ⟨uuid, kept _ _ held⟩
  removing := fits.removing
  large := fits.large
  answered outcome same := by
    obtain ⟨⟨bytes, held⟩, told⟩ := fits.answered outcome same
    exact ⟨⟨bytes, kept _ _ held⟩, told⟩

theorem Fits.plain {id : Nat} {put : AzurePut} {stage : AzureStage}
    (fits : container.Fits store id put) (plain : stage.Plain)
    (tells : ∀ outcome, put.created = some outcome → stage.Tells outcome)
    (own : ∀ uuid, stage.uuid = some uuid →
      (uuid, id) ∈ container.drawn ∧ put.digest.1.size ≠ 0) :
    container.Fits store id { put with stage } where
  tells := tells
  present := fits.present
  own := own
  empty same := by
    subst same
    exact plain.elim
  accepted polls same := by
    subst same
    exact plain.elim
  removing uuid outcome same := by
    subst same
    exact plain.elim
  large outcome polls same := by
    subst same
    exact plain.elim
  answered outcome same := by
    subst same
    exact plain.elim

theorem Sound.drawn_once (sound : container.Sound store) {uuid : String} {id other : Nat}
    (one : (uuid, id) ∈ container.drawn) (another : (uuid, other) ∈ container.drawn) :
    id = other := by
  have same := List.inj_on_of_nodup_map sound.apart one another rfl
  exact (Prod.mk.inj same).2

structure Proceeds (store : AzureStore) (container : Container) (id : Nat) (put : AzurePut)
    (after : Container) (next : AzurePut) : Prop where
  calls : after.calls = container.calls.set id (.put next)
  digest : next.digest = put.digest
  source : next.source = put.source
  kept : ∀ digest object, container.objects (store.key digest) = some object →
    after.objects (store.key digest) = some object
  made : ∀ digest object, after.objects (store.key digest) = some object →
    container.objects (store.key digest) = some object ∨
      (digest = put.digest ∧ ((object = .whole [] ∧ put.digest.1.size = 0) ∨
        ∃ uuid, object = .pending id uuid ∧ (uuid, id) ∈ after.drawn ∧ next.created = none ∧
          put.digest.1.size ≠ 0))
  drawn : after.drawn = container.drawn ∨ ∃ uuid, container.Fresh store uuid ∧
    after.drawn = (uuid, id) :: container.drawn
  uploads : ∀ uuid object, after.objects (store.uploadKey uuid) = some object →
    container.objects (store.uploadKey uuid) = some object ∨
      ((uuid, id) ∈ container.drawn ∧ object = .whole put.source)
  created : next.created = put.created ∨ put.digest.1.size = 0
  fits : after.Fits store id next
  advances : Furthers AzurePut.stageOf (container.view store) (after.view store) put next

theorem Proceeds.sound {id : Nat} {put next : AzurePut}
    (proceeds : Proceeds store container id put after next) (sound : container.Sound store)
    (found : container.calls[id]? = some (.put put)) : after.Sound store := by
  have grows : container.drawn ⊆ after.drawn := by
    rcases proceeds.drawn with same | ⟨uuid, -, same⟩ <;> rw [same]
    · exact List.Subset.refl _
    · exact List.subset_cons_self _ _
  have mine : after.calls[id]? = some (.put next) := by
    rw [proceeds.calls]
    exact List.getElem?_set_self (List.getElem?_eq_some_iff.mp found).1
  have others {other : Nat} (different : other ≠ id) :
      after.calls[other]? = container.calls[other]? := by
    rw [proceeds.calls]
    exact List.getElem?_set_ne (Ne.symm different)
  refine ⟨?_, ?_, ?_, ?_, ?_⟩
  · intro other held present
    by_cases same : other = id
    · subst same
      cases mine.symm.trans present
      exact proceeds.fits
    · rw [others same] at present
      exact (sound.puts other held present).later proceeds.kept grows
  · have known (uuid : String) (other : Nat) (member : (uuid, other) ∈ container.drawn) :
        ∃ put, after.calls[other]? = some (.put put) ∧ ∀ object,
          after.objects (store.uploadKey uuid) = some object → object = .whole put.source := by
      obtain ⟨held, present, whole⟩ := sound.uploads uuid other member
      by_cases same : other = id
      · subst same
        cases found.symm.trans present
        refine ⟨next, mine, fun object there => ?_⟩
        rw [proceeds.source]
        exact (proceeds.uploads uuid object there).elim (whole object) And.right
      · refine ⟨held, (others same).trans present, fun object there => ?_⟩
        rcases proceeds.uploads uuid object there with old | ⟨own, -⟩
        · exact whole object old
        · exact absurd (sound.drawn_once member own) same
    intro uuid other member
    rcases proceeds.drawn with same | ⟨new, fresh, same⟩
    · exact known uuid other (same ▸ member)
    · rcases List.mem_cons.mp (same ▸ member) with here | old
      · cases here
        refine ⟨next, mine, fun object there => ?_⟩
        rcases proceeds.uploads uuid object there with old | ⟨own, -⟩
        · cases fresh.2.symm.trans old
        · exact absurd (List.mem_map.mpr ⟨_, own, rfl⟩) fresh.1
      · exact known uuid other old
  · rcases proceeds.drawn with same | ⟨uuid, fresh, same⟩ <;> rw [same]
    · exact sound.apart
    · exact List.nodup_cons.mpr ⟨fresh.1, sound.apart⟩
  · intro digest other uuid there
    rcases proceeds.made digest _ there with old | ⟨same, ⟨wrong, -⟩ | ⟨uuid', here, member, none, -⟩⟩
    · obtain ⟨member, held, present, here, none⟩ := sound.copies digest other uuid old
      refine ⟨grows member, ?_⟩
      by_cases own : other = id
      · subst own
        cases found.symm.trans present
        refine ⟨next, mine, proceeds.digest.trans here, ?_⟩
        rcases proceeds.created with same | empty
        · exact same.trans none
        · -- The empty blob is not copied.
          obtain ⟨bytes, wrong⟩ := sound.filled digest _ old (here ▸ empty)
          cases wrong
      · exact ⟨held, (others own).trans present, here, none⟩
    · cases wrong
    · cases here
      exact ⟨member, next, mine, proceeds.digest.trans same.symm, none⟩
  · intro digest object there empty
    rcases proceeds.made digest object there with old | ⟨rfl, ⟨whole, -⟩ | ⟨_, -, -, -, large⟩⟩
    · exact sound.filled digest object old empty
    · exact ⟨[], whole⟩
    · exact absurd empty large

section Steps

variable {id : Nat} {put : AzurePut} {stage : AzureStage}

theorem view_setCall (call : AzureCall) : (container.setCall id call).view store =
    container.view store := rfl

theorem view_congr {other : Container} (same : ∀ digest,
    container.objects (store.key digest) = other.objects (store.key digest)) :
    container.view store = other.view store := by
  refine StoredObjects.ext (funext fun digest => ?_) (Set.ext fun digest => ?_)
  · simp only [view, filled, same]
  · simp only [view, same]

theorem view_upload (uuid : String) (object : Option AzureObject) :
    (container.setObject (store.uploadKey uuid) object).view store = container.view store :=
  view_congr fun digest => Function.update_of_ne (AzureStore.key_ne_uploadKey digest uuid) _ _

theorem view_whole {digest : ValidDigest} {bytes : Bytes}
    (held : container.objects (store.key digest) = some (.whole bytes)) :
    (container.view store).blobs digest = some bytes := by
  simp only [view, filled, held]

theorem view_absent {digest : ValidDigest} (absent : container.objects (store.key digest) = none) :
    (container.view store).blobs digest = none := by
  simp only [view, filled, absent]

theorem Proceeds.quiet (fits : container.Fits store id { put with stage })
    (same : { put with stage }.stageOf = put.stageOf) :
    Proceeds store container id put (container.setCall id (.put { put with stage }))
      { put with stage } where
  calls := rfl
  digest := rfl
  source := rfl
  kept _ _ held := held
  made _ _ held := .inl held
  drawn := .inl rfl
  uploads _ _ held := .inl held
  created := .inl rfl
  fits := fits.later (fun _ _ held => held) (List.Subset.refl _)
  advances := .stays same rfl

theorem Proceeds.upload {uuid : String} {object : Option AzureObject}
    (own : (uuid, id) ∈ container.drawn)
    (written : ∀ content, object = some content → content = .whole put.source)
    (fits : container.Fits store id { put with stage })
    (same : { put with stage }.stageOf = put.stageOf) :
    Proceeds store container id put
      ((container.setObject (store.uploadKey uuid) object).setCall id (.put { put with stage }))
      { put with stage } where
  calls := rfl
  digest := rfl
  source := rfl
  kept digest _ held :=
    (Function.update_of_ne (AzureStore.key_ne_uploadKey digest uuid) _ _).trans held
  made digest _ held :=
    .inl ((Function.update_of_ne (AzureStore.key_ne_uploadKey digest uuid) _ _).symm.trans held)
  drawn := .inl rfl
  uploads other content held := by
    by_cases mine : other = uuid
    · subst mine
      have there : object = some content := by
        simpa [setCall, setObject] using held
      exact .inr ⟨own, written content there⟩
    · have apart : store.uploadKey other ≠ store.uploadKey uuid := fun same =>
        mine (AzureStore.uploadKey_inj.mp same)
      exact .inl ((Function.update_of_ne apart _ _).symm.trans held)
  created := .inl rfl
  fits := fits.later
    (fun digest _ held =>
      (Function.update_of_ne (AzureStore.key_ne_uploadKey digest uuid) _ _).trans held)
    (List.Subset.refl _)
  advances := .stays same (view_upload uuid object)

theorem setObject_kept {digest : ValidDigest} (absent : container.objects (store.key digest) = none)
    (object : Option AzureObject) (other : ValidDigest) (held : AzureObject)
    (there : container.objects (store.key other) = some held) :
    (container.setObject (store.key digest) object).objects (store.key other) = some held := by
  have apart : store.key other ≠ store.key digest := by
    intro same
    rw [same, absent] at there
    cases there
  exact (Function.update_of_ne apart _ _).trans there

theorem view_copy {digest : ValidDigest} {uuid : String}
    (absent : container.objects (store.key digest) = none) :
    (container.setObject (store.key digest) (some (.pending id uuid))).view store =
      (container.view store).reserve digest (view_absent absent) := by
  refine StoredObjects.ext (funext fun other => ?_) (Set.ext fun other => ?_)
  · by_cases mine : other = digest
    · subst mine
      simp [view, filled, setObject, StoredObjects.reserve, absent]
    · have apart : store.key other ≠ store.key digest := fun same =>
        mine (AzureStore.key_inj.mp same)
      simp only [view, filled, setObject, StoredObjects.reserve, Function.update_of_ne apart]
  · by_cases mine : other = digest
    · subst mine
      simp [view, setObject, StoredObjects.reserve]
    · have apart : store.key other ≠ store.key digest := fun same =>
        mine (AzureStore.key_inj.mp same)
      simp [view, setObject, StoredObjects.reserve, Function.update_of_ne apart, mine]

/-- A blob that is filled appears as a create-only write. -/
theorem view_fill (digest : ValidDigest) (bytes : Bytes)
    (empty : (container.view store).blobs digest = none) :
    (container.setObject (store.key digest) (some (.whole bytes))).view store =
        (container.view store).create digest bytes ∧
      (createOnly (container.view store).blobs digest bytes).2 = .created := by
  constructor
  · refine StoredObjects.ext (funext fun other => ?_) (Set.ext fun other => ?_)
    · simp only [StoredObjects.create, createOnly, empty]
      by_cases mine : other = digest
      · subst mine
        simp [view, filled, setObject]
      · have apart : store.key other ≠ store.key digest := fun same =>
          mine (AzureStore.key_inj.mp same)
        simp only [view, filled, setObject, Function.update_of_ne apart,
          Function.update_of_ne mine]
    · by_cases mine : other = digest
      · subst mine
        simp [view, setObject, StoredObjects.create]
      · have apart : store.key other ≠ store.key digest := fun same =>
          mine (AzureStore.key_inj.mp same)
        simp [view, setObject, StoredObjects.create, Function.update_of_ne apart, mine]
  · simp only [createOnly, empty]

theorem Proceeds.copy {uuid : String} (own : (uuid, id) ∈ container.drawn)
    (absent : container.objects (store.key put.digest) = none) (unfilled : put.created = none)
    (large : put.digest.1.size ≠ 0)
    (fits : (container.setObject (store.key put.digest) (some (.pending id uuid))).Fits store id
      { put with stage })
    (waiting : put.stageOf = .waiting (.put put.digest put.content))
    (same : { put with stage }.stageOf = put.stageOf) :
    Proceeds store container id put
      ((container.setObject (store.key put.digest) (some (.pending id uuid))).setCall id
        (.put { put with stage })) { put with stage } where
  calls := rfl
  digest := rfl
  source := rfl
  kept := setObject_kept absent _
  made digest object held := by
    by_cases mine : digest = put.digest
    · subst mine
      have there : some (AzureObject.pending id uuid) = some object := by
        simpa [setCall, setObject] using held
      cases there
      exact .inr ⟨rfl, .inr ⟨uuid, rfl, own, unfilled, large⟩⟩
    · have apart : store.key digest ≠ store.key put.digest := fun same =>
        mine (AzureStore.key_inj.mp same)
      exact .inl ((Function.update_of_ne apart _ _).symm.trans held)
  drawn := .inl rfl
  uploads other content held :=
    .inl ((Function.update_of_ne (AzureStore.key_ne_uploadKey put.digest other).symm _ _).symm.trans
      held)
  created := .inl rfl
  fits := fits.later (fun _ _ held => held) (List.Subset.refl _)
  advances := by
    refine .begins (.put put.digest put.content) waiting ?_ same
    rw [view_setCall, view_copy absent]
    exact .put rfl (view_absent absent)

theorem does_look (put : AzurePut) {bytes : Bytes}
    (held : container.objects (store.key put.digest) = some (.whole bytes)) :
    Stores azureManners (container.view store) (.put put.digest put.content)
      (container.view store) (.stored .alreadyExists) := by
  have does : Stores azureManners (container.view store) (.put put.digest put.content)
      ((container.view store).create put.digest put.content) (.stored .alreadyExists) :=
    .put (.inr ⟨rfl, rfl⟩)
  rwa [StoredObjects.create_present (view_whole held)] at does

theorem stageOf_unanswered (one : ∀ outcome, put.stage ≠ .answered outcome)
    (other : ∀ outcome, stage ≠ .answered outcome) :
    { put with stage }.stageOf = put.stageOf := by
  obtain ⟨digest, source, before, created⟩ := put
  cases created with
  | some outcome => rfl
  | none =>
      cases before with
      | answered outcome => exact absurd rfl (one outcome)
      | _ =>
          cases stage with
          | answered outcome => exact absurd rfl (other outcome)
          | _ => rfl

theorem Proceeds.idle (fits : container.Fits store id put)
    (found : container.calls[id]? = some (.put put)) :
    Proceeds store container id put container put := by
  have still : container.setCall id (.put put) = container := by
    simp only [setCall, set_present found]
  have same : container.Fits store id { put with stage := put.stage } := fits
  have quiet : Proceeds store container id put (container.setCall id (.put put)) put :=
    .quiet same rfl
  rwa [still] at quiet

theorem Proceeds.create (empty : put.digest.1.size = 0) (creating : put.stage = .creating)
    (absent : container.objects (store.key put.digest) = none) (unfilled : put.created = none)
    {outcome : PutOutcome} (next : stage = .answered outcome ∨
      (outcome = .alreadyExists ∧ (stage = .creating ∨ stage = .failed))) :
    Proceeds store container id put
      ((container.setObject (store.key put.digest) (some (.whole []))).setCall id
        (.put { put with stage := stage, created := some outcome }))
      { put with stage := stage, created := some outcome } where
  calls := rfl
  digest := rfl
  source := rfl
  kept := setObject_kept absent _
  made digest object held := by
    by_cases mine : digest = put.digest
    · subst mine
      have there : some (AzureObject.whole []) = some object := by
        simpa [setCall, setObject] using held
      cases there
      exact .inr ⟨rfl, .inl ⟨rfl, empty⟩⟩
    · have apart : store.key digest ≠ store.key put.digest := fun same =>
        mine (AzureStore.key_inj.mp same)
      exact .inl ((Function.update_of_ne apart _ _).symm.trans held)
  drawn := .inl rfl
  uploads other content held :=
    .inl ((Function.update_of_ne (AzureStore.key_ne_uploadKey put.digest other).symm _ _).symm.trans
      held)
  created := .inr empty
  fits := by
    have whole : ∃ bytes, ((container.setObject (store.key put.digest) (some (.whole []))).setCall id
        (.put { put with stage := stage, created := some outcome })).objects
          (store.key put.digest) = some (.whole bytes) :=
      ⟨[], by simp [setCall, setObject]⟩
    rcases next with rfl | ⟨rfl, rfl | rfl⟩
    · exact ⟨by simp [AzureStage.Tells], fun _ _ => whole, by simp [AzureStage.uuid], by simp,
        by simp, by simp, by simp, fun _ _ => ⟨whole, by simp⟩⟩
    · exact ⟨by simp [AzureStage.Tells], fun _ _ => whole, by simp [AzureStage.uuid],
        fun _ => empty, by simp, by simp, by simp, by simp⟩
    · exact ⟨by simp [AzureStage.Tells], fun _ _ => whole, by simp [AzureStage.uuid], by simp,
        by simp, by simp, by simp, by simp⟩
  advances := by
    obtain ⟨same, told⟩ := view_fill put.digest [] (view_absent absent)
    have content : put.content = [] := by simp [AzurePut.content, empty]
    refine .acts (.put put.digest put.content) (.stored outcome) ?_ ?_ rfl
    · simp [AzurePut.stageOf, unfilled, creating]
    · have after : ((container.setObject (store.key put.digest) (some (.whole []))).setCall id
          (.put { put with stage := stage, created := some outcome })).view store =
            (container.view store).create put.digest put.content := by
        rw [content]
        exact same
      rw [after]
      cases outcome with
      | created => exact .put (.inl (by rw [content, told]))
      | alreadyExists => exact .put (.inr ⟨rfl, rfl⟩)

theorem Proceeds.look {bytes : Bytes} {outcome : PutOutcome}
    (held : container.objects (store.key put.digest) = some (.whole bytes))
    (waiting : ∀ outcome, put.stage ≠ .answered outcome)
    (told : ∀ other, put.created = some other → other = outcome)
    (looked : put.created = none → outcome = .alreadyExists) :
    Proceeds store container id put
      (container.setCall id (.put { put with stage := .answered outcome }))
      { put with stage := .answered outcome } where
  calls := rfl
  digest := rfl
  source := rfl
  kept _ _ there := there
  made _ _ there := .inl there
  drawn := .inl rfl
  uploads _ _ there := .inl there
  created := .inl rfl
  fits := by
    refine ⟨told, fun _ _ => ⟨bytes, held⟩, by simp [AzureStage.uuid], by simp, by simp, by simp,
      by simp, fun other same => ⟨⟨bytes, held⟩, fun none => ?_⟩⟩
    cases same
    exact looked none
  advances := by
    cases unfilled : put.created with
    | some other =>
        obtain rfl := told other unfilled
        exact .stays (by simp [AzurePut.stageOf, unfilled, AzurePut.content]) rfl
    | none =>
        obtain rfl := looked unfilled
        refine .acts (.put put.digest put.content) (.stored .alreadyExists) ?_
          (does_look put held) (by simp [AzurePut.stageOf, AzurePut.content])
        unfold AzurePut.stageOf
        rw [unfilled]
        split
        next same => cases same
        next outcome _ same => exact absurd same (waiting outcome)
        next => rfl

theorem create_proceeds (fits : container.Fits store id put) (creating : put.stage = .creating)
    (filled : ∀ object, container.objects (store.key put.digest) = some object →
      ∃ bytes, object = .whole bytes) (io : AzureIo) :
    ∃ next, Proceeds store container id put (container.create store id put io) next := by
  have empty := fits.empty creating
  have tells (outcome : PutOutcome) (same : put.created = some outcome) :
      outcome = .alreadyExists := by
    have told := fits.tells outcome same
    rwa [creating] at told
  have onward {stage : AzureStage} (next : stage = .creating ∨ stage = .failed) :
      Proceeds store container id put (container.setCall id (.put { put with stage }))
        { put with stage } := by
    refine .quiet ?_ (stageOf_unanswered (by simp [creating]) (by rcases next with rfl | rfl <;> simp))
    rcases next with rfl | rfl
    · exact ⟨tells, fits.present, by simp [AzureStage.uuid], fun _ => empty, by simp, by simp,
        by simp, by simp⟩
    · exact fits.plain trivial (fun _ _ => trivial) (by simp [AzureStage.uuid])
  have lost : (if io.again then AzureStage.creating else .failed) = .creating ∨
      (if io.again then AzureStage.creating else .failed) = .failed := by
    cases io.again <;> simp
  unfold Container.create
  cases held : container.objects (store.key put.digest) with
  | some object =>
      obtain ⟨bytes, rfl⟩ := filled object held
      simp only
      split
      · exact ⟨_, onward lost⟩
      · exact ⟨_, .look held (by simp [creating]) tells fun _ => rfl⟩
  | none =>
      have unfilled : put.created = none := by
        cases created : put.created with
        | none => rfl
        | some outcome =>
            obtain ⟨bytes, there⟩ := fits.present outcome created
            cases held.symm.trans there
      simp only
      split
      · split
        · exact ⟨_, .create empty creating held unfilled (.inr ⟨rfl, lost⟩)⟩
        · exact ⟨_, onward lost⟩
      · exact ⟨_, .create empty creating held unfilled (.inl rfl)⟩

theorem publish_proceeds {uuid : String} (fits : container.Fits store id put)
    (publishing : put.stage = .publishing uuid) (io : AzureIo) :
    ∃ next, Proceeds store container id put (container.publish store id put uuid io) next := by
  obtain ⟨own, large⟩ := fits.own uuid (by rw [publishing]; rfl)
  have tells (outcome : PutOutcome) (same : put.created = some outcome) :
      outcome = .alreadyExists := by
    have told := fits.tells outcome same
    rwa [publishing] at told
  have still {stage : AzureStage} (plain : stage = .publishing uuid ∨ stage = .removing uuid none ∨
      stage = .removing uuid (some .alreadyExists) ∨ stage = .waiting .created 0) :
      { put with stage }.stageOf = put.stageOf :=
    stageOf_unanswered (by simp [publishing]) (by rcases plain with rfl | rfl | rfl | rfl <;> simp)
  have lost {stage : AzureStage} (next : stage = .publishing uuid ∨ stage = .removing uuid none) :
      container.Fits store id { put with stage } := by
    rcases next with rfl | rfl
    · exact fits.plain trivial tells fun other same => Option.some.inj same ▸ ⟨own, large⟩
    · exact fits.plain trivial (fun _ _ => trivial) fun other same =>
        Option.some.inj same ▸ ⟨own, large⟩
  have ends : (if io.again then AzureStage.publishing uuid else .removing uuid none) =
      .publishing uuid ∨ (if io.again then AzureStage.publishing uuid else .removing uuid none) =
      .removing uuid none := by
    cases io.again <;> simp
  unfold publish
  cases uploaded : container.objects (store.uploadKey uuid) with
  | none =>
      cases io.fails with
      | true => exact ⟨_, .quiet (lost ends) (still (ends.imp_right .inl))⟩
      | false => exact ⟨_, .quiet (lost (.inr rfl)) (still (.inr (.inl rfl)))⟩
  | some upload =>
      cases held : container.objects (store.key put.digest) with
      | some object =>
          cases io.fails with
          | true => exact ⟨_, .quiet (lost ends) (still (ends.imp_right .inl))⟩
          | false =>
              refine ⟨_, .quiet ?_ (still (.inr (.inr (.inl rfl))))⟩
              exact ⟨tells, fits.present, fun other same => Option.some.inj same ▸ ⟨own, large⟩,
                by simp, by simp, by simp, by simp, by simp⟩
      | none =>
          have unfilled : put.created = none := by
            cases created : put.created with
            | none => rfl
            | some outcome =>
                obtain ⟨bytes, there⟩ := fits.present outcome created
                cases held.symm.trans there
          have waiting : put.stageOf = .waiting (.put put.digest put.content) := by
            simp [AzurePut.stageOf, unfilled, publishing]
          cases io.fails with
          | true =>
              cases io.effective with
              | true =>
                  refine ⟨_, .copy own held unfilled large ?_ waiting
                    (still (ends.imp_right .inl))⟩
                  exact (lost ends).later (setObject_kept held _) (List.Subset.refl _)
              | false => exact ⟨_, .quiet (lost ends) (still (ends.imp_right .inl))⟩
          | false =>
              refine ⟨_, .copy own held unfilled large ?_ waiting
                (still (.inr (.inr (.inr rfl))))⟩
              exact ⟨by simp [unfilled], by simp [unfilled], by simp [AzureStage.uuid], by simp,
                fun _ _ _ => .inr ⟨uuid, by simp [setObject]⟩, by simp, fun _ _ _ => large,
                by simp⟩

theorem onward_proceeds {uuid : String} (fits : container.Fits store id put)
    (own : put.stage.uuid = some uuid)
    (tells : ∀ outcome, put.created = some outcome → outcome = .alreadyExists)
    (next : stage = .copying uuid ∨ stage = .closing uuid ∨ stage = .failed) :
    Proceeds store container id put (container.setCall id (.put { put with stage }))
      { put with stage } := by
  have unanswered (outcome : PutOutcome) : put.stage ≠ .answered outcome := by
    intro same
    rw [same] at own
    cases own
  have drawn := fits.own uuid own
  rcases next with rfl | rfl | rfl
  · exact .quiet (fits.plain trivial tells fun other same => Option.some.inj same ▸ drawn)
      (stageOf_unanswered unanswered (by simp))
  · exact .quiet (fits.plain trivial tells fun other same => Option.some.inj same ▸ drawn)
      (stageOf_unanswered unanswered (by simp))
  · exact .quiet (fits.plain trivial (fun _ _ => trivial) (by simp [AzureStage.uuid]))
      (stageOf_unanswered unanswered (by simp))

theorem begin_proceeds (fits : container.Fits store id put) (begun : put.stage = .begun)
    (found : container.calls[id]? = some (.put put)) (io : AzureIo) :
    ∃ next, Proceeds store container id put (container.advancePut store id put io) next := by
  have tells (outcome : PutOutcome) (same : put.created = some outcome) :
      outcome = .alreadyExists := by
    have told := fits.tells outcome same
    rwa [begun] at told
  simp only [advancePut, begun]
  split
  next empty =>
    refine ⟨_, .quiet ?_ (stageOf_unanswered (by simp [begun]) (by simp))⟩
    exact ⟨tells, fits.present, by simp [AzureStage.uuid], fun _ => empty, by simp, by simp,
      by simp, by simp⟩
  next large =>
    split
    next fresh =>
      refine ⟨{ put with stage := .opening io.uuid }, rfl, rfl, rfl, fun _ _ held => held,
        fun _ _ held => .inl held, .inr ⟨io.uuid, fresh, rfl⟩, fun _ _ held => .inl held,
        .inl rfl, ?_, .stays (stageOf_unanswered (by simp [begun]) (by simp)) rfl⟩
      have later : Fits store { container with drawn := (io.uuid, id) :: container.drawn } id put :=
        fits.later (fun _ _ held => held) (List.subset_cons_self _ _)
      have opening : Fits store { container with drawn := (io.uuid, id) :: container.drawn } id
          { put with stage := .opening io.uuid } :=
        later.plain trivial tells fun other same =>
          Option.some.inj same ▸ ⟨List.mem_cons_self, large⟩
      exact opening.later (fun _ _ held => held) (List.Subset.refl _)
    next => exact ⟨put, .idle fits found⟩

theorem remove_proceeds {uuid : String} {outcome : Option PutOutcome}
    (fits : container.Fits store id put) (removing : put.stage = .removing uuid outcome)
    (io : AzureIo) :
    ∃ next, Proceeds store container id put (container.advancePut store id put io) next := by
  obtain ⟨own, large⟩ := fits.own uuid (by rw [removing]; rfl)
  have next (stage : AzureStage) (fits : container.Fits store id { put with stage })
      (same : { put with stage }.stageOf = put.stageOf) :
      Proceeds store container id put
        ((if io.fails && !io.effective then container
          else container.setObject (store.uploadKey uuid) none).setCall id (.put { put with stage }))
        { put with stage } := by
    split
    · exact .quiet fits same
    · exact .upload own (by simp) fits same
  simp only [advancePut, removing]
  cases outcome with
  | none =>
      exact ⟨_, next .failed (fits.plain trivial (fun _ _ => trivial) (by simp [AzureStage.uuid]))
        (stageOf_unanswered (by simp [removing]) (by simp))⟩
  | some outcome =>
      obtain rfl := fits.removing uuid outcome removing
      have tells (told : PutOutcome) (same : put.created = some told) : told = .alreadyExists := by
        have known := fits.tells told same
        rwa [removing] at known
      refine ⟨_, next (.waiting .alreadyExists 0) ?_
        (stageOf_unanswered (by simp [removing]) (by simp))⟩
      exact ⟨tells, fits.present, by simp [AzureStage.uuid], by simp, by simp, by simp,
        fun _ _ _ => large, by simp⟩

/-- Only an object that is filled has a last byte. -/
theorem readable_whole {digest : ValidDigest} (large : digest.1.size ≠ 0)
    (readable : container.readable store digest = true) :
    ∃ bytes, container.objects (store.key digest) = some (.whole bytes) := by
  have some_byte : digest.1.size.toNat ≠ 0 := fun empty =>
    large (UInt64.toNat_inj.mp (empty.trans UInt64.toNat_zero.symm))
  unfold Container.readable at readable
  cases held : container.objects (store.key digest) with
  | none => simp [held] at readable
  | some object =>
      cases object with
      | whole bytes => exact ⟨bytes, rfl⟩
      | pending put uuid =>
          simp [held, AzureObject.content] at readable
          exact absurd readable some_byte
      | broken =>
          simp [held, AzureObject.content] at readable
          exact absurd readable some_byte

theorem wait_proceeds {outcome : PutOutcome} {polls : Nat} (fits : container.Fits store id put)
    (waiting : put.stage = .waiting outcome polls) (io : AzureIo) :
    ∃ next, Proceeds store container id put (container.advancePut store id put io) next := by
  have tells (told : PutOutcome) (same : put.created = some told) : told = outcome := by
    have known := fits.tells told same
    rwa [waiting] at known
  have large := fits.large outcome polls waiting
  simp only [advancePut, waiting]
  split
  next looked =>
    obtain ⟨-, readable⟩ := Bool.and_eq_true_iff.mp looked
    obtain ⟨bytes, held⟩ := readable_whole large readable
    refine ⟨_, .look held (by simp [waiting]) tells fun unfilled => ?_⟩
    -- A put whose copy was accepted waits for that very copy.
    cases outcome with
    | alreadyExists => rfl
    | created =>
        rcases fits.accepted polls waiting unfilled with broken | ⟨uuid, pending⟩
        · cases held.symm.trans broken
        · cases held.symm.trans pending
  next =>
    split
    · refine ⟨_, .quiet ?_ (stageOf_unanswered (by simp [waiting]) (by simp))⟩
      refine ⟨tells, fits.present, by simp [AzureStage.uuid], by simp, fun _ same => ?_, by simp,
        fun _ _ _ => large, by simp⟩
      cases same
      exact fits.accepted polls waiting
    · exact ⟨_, .quiet (fits.plain trivial (fun _ _ => trivial) (by simp [AzureStage.uuid]))
        (stageOf_unanswered (by simp [waiting]) (by simp))⟩

theorem close_proceeds {uuid : String} (fits : container.Fits store id put)
    (closing : put.stage = .closing uuid) (io : AzureIo) :
    ∃ next, Proceeds store container id put (container.advancePut store id put io) next := by
  obtain ⟨own, large⟩ := fits.own uuid (by rw [closing]; rfl)
  have tells (outcome : PutOutcome) (same : put.created = some outcome) :
      outcome = .alreadyExists := by
    have told := fits.tells outcome same
    rwa [closing] at told
  have next {stage : AzureStage} (next : stage = .publishing uuid ∨ stage = .removing uuid none) :
      container.Fits store id { put with stage } ∧ { put with stage }.stageOf = put.stageOf := by
    rcases next with rfl | rfl
    · exact ⟨fits.plain trivial tells fun other same => Option.some.inj same ▸ ⟨own, large⟩,
        stageOf_unanswered (by simp [closing]) (by simp)⟩
    · exact ⟨fits.plain trivial (fun _ _ => trivial) fun other same =>
        Option.some.inj same ▸ ⟨own, large⟩, stageOf_unanswered (by simp [closing]) (by simp)⟩
  have written (content : AzureObject) (same : some (.whole put.source) = some content) :
      content = .whole put.source := (Option.some.inj same).symm
  simp only [advancePut, closing]
  cases io.fails with
  | false =>
      obtain ⟨plain, same⟩ := next (.inl rfl)
      exact ⟨_, .upload own written plain same⟩
  | true =>
      obtain ⟨plain, same⟩ := next (.inr rfl)
      cases io.effective with
      | false => exact ⟨_, .quiet plain same⟩
      | true => exact ⟨_, .upload own written plain same⟩

theorem advancePut_proceeds (sound : container.Sound store)
    (found : container.calls[id]? = some (.put put)) (io : AzureIo) :
    ∃ next, Proceeds store container id put (container.advancePut store id put io) next := by
  have fits := sound.puts id put found
  cases stage : put.stage with
  | begun => exact begin_proceeds fits stage found io
  | creating =>
      simp only [advancePut, stage]
      exact create_proceeds fits stage
        (fun object held => sound.filled _ object held (fits.empty stage)) io
  | opening uuid =>
      have tells (outcome : PutOutcome) (same : put.created = some outcome) :
          outcome = .alreadyExists := by
        have told := fits.tells outcome same
        rwa [stage] at told
      simp only [advancePut, stage]
      refine ⟨_, onward_proceeds fits (by rw [stage]; rfl) tells ?_⟩
      cases io.fails <;> simp
  | copying uuid =>
      have tells (outcome : PutOutcome) (same : put.created = some outcome) :
          outcome = .alreadyExists := by
        have told := fits.tells outcome same
        rwa [stage] at told
      simp only [advancePut, stage]
      refine ⟨_, onward_proceeds fits (by rw [stage]; rfl) tells ?_⟩
      cases io.fails <;> simp
  | closing uuid => exact close_proceeds fits stage io
  | publishing uuid =>
      simp only [advancePut, stage]
      exact publish_proceeds fits stage io
  | removing uuid outcome => exact remove_proceeds fits stage io
  | waiting outcome polls => exact wait_proceeds fits stage io
  | answered outcome =>
      simp only [advancePut, stage]
      exact ⟨put, .idle fits found⟩
  | failed =>
      simp only [advancePut, stage]
      exact ⟨put, .idle fits found⟩

end Steps

section Copies

variable {digest : ValidDigest} {id : Nat} {uuid : String}

structure Fills (store : AzureStore) (container : Container) (digest : ValidDigest) (id : Nat)
    (put : AzurePut) (after : Container) : Prop where
  pending : ∃ uuid, container.objects (store.key digest) = some (.pending id uuid)
  found : container.calls[id]? = some (.put put)
  own : put.digest = digest
  unfilled : put.created = none
  after : after = (container.setObject (store.key digest) (some (.whole put.content))).setCall id
    (.put { put with created := some put.owed })

theorem settle_cases (sound : container.Sound store) (digest : ValidDigest) :
    container.settle store digest = container ∨
      ((∃ id uuid, container.objects (store.key digest) = some (.pending id uuid)) ∧
        container.settle store digest =
          container.setObject (store.key digest) (some .broken)) ∨
      ∃ id put, Fills store container digest id put (container.settle store digest) := by
  unfold settle
  split
  next id uuid pending =>
    obtain ⟨own, put, found, here, unfilled⟩ := sound.copies digest id uuid pending
    split
    next bytes put' uploaded found' =>
      cases found.symm.trans found'
      obtain ⟨put'', found'', whole⟩ := sound.uploads uuid id own
      cases found.symm.trans found''
      obtain rfl : bytes = put.source := by
        have same := whole _ uploaded
        cases same
        rfl
      have large : put.digest.1.size ≠ 0 := by
        intro empty
        obtain ⟨bytes, wrong⟩ := sound.filled digest _ pending (here ▸ empty)
        cases wrong
      refine .inr (.inr ⟨id, put, ⟨uuid, pending⟩, found, here, unfilled, ?_⟩)
      simp [AzurePut.content, large]
    next => exact .inr (.inl ⟨⟨id, uuid, pending⟩, rfl⟩)
  next => exact .inl rfl

theorem setObject_other {object : Option AzureObject} {other : ValidDigest}
    (apart : other ≠ digest) :
    (container.setObject (store.key digest) object).objects (store.key other) =
      container.objects (store.key other) :=
  Function.update_of_ne (fun same => apart (AzureStore.key_inj.mp same)) _ _

theorem setObject_self (object : Option AzureObject) :
    (container.setObject (store.key digest) object).objects (store.key digest) = object :=
  Function.update_self ..

theorem setObject_upload (object : Option AzureObject) (uuid : String) :
    (container.setObject (store.key digest) object).objects (store.uploadKey uuid) =
      container.objects (store.uploadKey uuid) :=
  Function.update_of_ne (AzureStore.key_ne_uploadKey digest uuid).symm _ _

theorem Fits.settled {object : AzureObject} {other : Nat} {put : AzurePut}
    (fits : container.Fits store other put)
    (pending : container.objects (store.key digest) = some (.pending id uuid))
    (ends : object = .broken ∨ other ≠ id) :
    (container.setObject (store.key digest) (some object)).Fits store other put := by
  have whole (there : ∃ bytes, container.objects (store.key put.digest) = some (.whole bytes)) :
      ∃ bytes, (container.setObject (store.key digest) (some object)).objects
        (store.key put.digest) = some (.whole bytes) := by
    obtain ⟨bytes, held⟩ := there
    have apart : put.digest ≠ digest := by
      rintro rfl
      cases held.symm.trans pending
    exact ⟨bytes, (setObject_other apart).trans held⟩
  refine ⟨fits.tells, fun outcome same => whole (fits.present outcome same), fits.own, fits.empty,
    fun polls waiting unfilled => ?_, fits.removing, fits.large, fun outcome same => ?_⟩
  · have accepted := fits.accepted polls waiting unfilled
    by_cases same : put.digest = digest
    · rw [same] at accepted ⊢
      rcases accepted with wrong | ⟨mine, held⟩
      · cases wrong.symm.trans pending
      · cases held.symm.trans pending
        rcases ends with rfl | wrong
        · exact .inl (setObject_self _)
        · exact absurd rfl wrong
    · rw [setObject_other same]
      exact accepted
  · obtain ⟨there, told⟩ := fits.answered outcome same
    exact ⟨whole there, told⟩

theorem break_sound (sound : container.Sound store)
    (pending : container.objects (store.key digest) = some (.pending id uuid)) :
    (container.setObject (store.key digest) (some .broken)).Sound store where
  puts other put found := (sound.puts other put found).settled pending (.inl rfl)
  uploads other owner own := by
    obtain ⟨put, found, whole⟩ := sound.uploads other owner own
    exact ⟨put, found, fun object held => whole object ((setObject_upload _ other).symm.trans held)⟩
  apart := sound.apart
  copies other owner upload held := by
    by_cases same : other = digest
    · subst same
      rw [setObject_self] at held
      cases held
    · rw [setObject_other same] at held
      exact sound.copies other owner upload held
  filled other object held empty := by
    by_cases same : other = digest
    · subst same
      obtain ⟨bytes, wrong⟩ := sound.filled other _ pending empty
      cases wrong
    · rw [setObject_other same] at held
      exact sound.filled other object held empty

theorem Fits.owed {put : AzurePut} (fits : container.Fits store id put)
    (pending : container.objects (store.key put.digest) = some (.pending id uuid)) :
    put.stage.Tells put.owed := by
  cases stage : put.stage with
  | answered outcome =>
      obtain ⟨⟨bytes, held⟩, -⟩ := fits.answered outcome stage
      cases held.symm.trans pending
  | removing upload outcome =>
      cases outcome with
      | none => trivial
      | some outcome =>
          obtain rfl := fits.removing upload outcome stage
          simp [AzurePut.owed, stage, AzureStage.Tells]
  | failed => trivial
  | _ => simp [AzurePut.owed, stage, AzureStage.Tells]

theorem Fills.sound {put : AzurePut} {after : Container}
    (fills : Fills store container digest id put after) (sound : container.Sound store) :
    after.Sound store := by
  obtain ⟨⟨uuid, pending⟩, found, rfl, unfilled, rfl⟩ := fills
  have fits := sound.puts id put found
  have bound := (List.getElem?_eq_some_iff.mp found).1
  have others {other : Nat} {call : AzureCall} (apart : other ≠ id)
      (present : container.calls[other]? = some call) :
      (container.calls.set id (.put { put with created := some put.owed }))[other]? = some call :=
    (List.getElem?_set_ne (Ne.symm apart)).trans present
  refine ⟨?_, ?_, sound.apart, ?_, ?_⟩
  · intro other held present
    by_cases same : other = id
    · subst same
      cases (List.getElem?_set_self bound).symm.trans present
      refine ⟨fun outcome same => ?_, fun _ _ => ⟨put.content, setObject_self _⟩, fits.own,
        fits.empty, by simp, fits.removing, fits.large, fun outcome same => ?_⟩
      · cases same
        exact fits.owed pending
      · obtain ⟨⟨bytes, whole⟩, -⟩ := fits.answered outcome same
        cases whole.symm.trans pending
    · have old := (List.getElem?_set_ne (Ne.symm same)).symm.trans present
      have settled : (container.setObject (store.key put.digest)
          (some (.whole put.content))).Fits store other held :=
        (sound.puts other held old).settled pending (.inr same)
      exact settled.later (fun _ _ there => there) (List.Subset.refl _)
  · intro upload owner own
    obtain ⟨held, present, whole⟩ := sound.uploads upload owner own
    have same (object : AzureObject)
        (there : (container.setObject (store.key put.digest) (some (.whole put.content))).objects
          (store.uploadKey upload) = some object) : object = .whole held.source :=
      whole object ((setObject_upload _ upload).symm.trans there)
    by_cases mine : owner = id
    · subst mine
      cases found.symm.trans present
      exact ⟨_, List.getElem?_set_self bound, same⟩
    · exact ⟨held, others mine present, same⟩
  · intro other owner upload held
    by_cases same : other = put.digest
    · subst same
      cases (setObject_self _).symm.trans held
    · have old := (setObject_other same).symm.trans held
      obtain ⟨own, holder, present, here, empty⟩ := sound.copies other owner upload old
      refine ⟨own, holder, others ?_ present, here, empty⟩
      rintro rfl
      cases found.symm.trans present
      exact same here.symm
  · intro other object held empty
    by_cases same : other = put.digest
    · subst same
      cases (setObject_self _).symm.trans held
      exact ⟨put.content, rfl⟩
    · exact sound.filled other object ((setObject_other same).symm.trans held) empty

/-- The put that a copy was made for acts when the copy fills the object. -/
theorem Fills.advances {put : AzurePut} {after : Container}
    (fills : Fills store container digest id put after) (sound : container.Sound store) :
    Furthers AzurePut.stageOf (container.view store) (after.view store) put
      { put with created := some put.owed } := by
  obtain ⟨⟨uuid, pending⟩, found, rfl, unfilled, rfl⟩ := fills
  have empty : (container.view store).blobs put.digest = none := by
    simp only [view, filled, pending]
  obtain ⟨same, told⟩ := view_fill put.digest put.content empty
  refine .acts (.put put.digest put.content) (.stored put.owed) ?_ ?_ rfl
  · unfold AzurePut.stageOf
    rw [unfilled]
    split
    next same => cases same
    next outcome _ same =>
      obtain ⟨⟨bytes, held⟩, -⟩ := (sound.puts id put found).answered outcome same
      cases held.symm.trans pending
    next => rfl
  · rw [view_setCall, same]
    refine .put ?_
    rw [told]
    cases put.owed <;> simp

end Copies

theorem start_sound (objects : ObjectKey → Option Bytes) : (start objects).Sound store where
  puts := by simp [start]
  uploads := by simp [start]
  apart := by simp [start]
  copies digest id uuid held := by
    obtain ⟨bytes, -, wrong⟩ := Option.map_eq_some_iff.mp held
    cases wrong
  filled digest object held _ := by
    obtain ⟨bytes, -, same⟩ := Option.map_eq_some_iff.mp held
    exact ⟨bytes, same.symm⟩

theorem setGet_sound (sound : container.Sound store) {id : Nat} {get next : AzureGet}
    (found : container.calls[id]? = some (.get get)) :
    (container.setCall id (.get next)).Sound store := by
  have others {other : Nat} {put : AzurePut}
      (present : container.calls[other]? = some (.put put)) :
      (container.calls.set id (.get next))[other]? = some (.put put) := by
    refine (List.getElem?_set_ne ?_).trans present
    rintro rfl
    cases found.symm.trans present
  refine ⟨fun other put present => ?_, fun uuid owner own => ?_, sound.apart,
    fun digest owner uuid held => ?_, sound.filled⟩
  · have old : container.calls[other]? = some (.put put) := by
      by_cases same : other = id
      · subst same
        cases (List.getElem?_set_self (List.getElem?_eq_some_iff.mp found).1).symm.trans present
      · exact (List.getElem?_set_ne (Ne.symm same)).symm.trans present
    exact (sound.puts other put old).later (fun _ _ there => there) (List.Subset.refl _)
  · obtain ⟨put, present, whole⟩ := sound.uploads uuid owner own
    exact ⟨put, others present, whole⟩
  · obtain ⟨own, put, present, rest⟩ := sound.copies digest owner uuid held
    exact ⟨own, put, others present, rest⟩

theorem concat_sound (sound : container.Sound store) (call : AzureCall)
    (new : ∀ put, call = .put put → put.stage = .begun ∧ put.created = none) :
    Sound store { container with calls := container.calls ++ [call] } := by
  have kept {id : Nat} {put : AzurePut} (found : container.calls[id]? = some (.put put)) :
      (container.calls ++ [call])[id]? = some (.put put) :=
    (List.getElem?_append_left (List.getElem?_eq_some_iff.mp found).1).trans found
  refine ⟨fun id put present => ?_, fun uuid owner own => ?_, sound.apart,
    fun digest owner uuid held => ?_, sound.filled⟩
  · rcases getElem?_snoc present with old | ⟨-, same⟩
    · exact (sound.puts id put old).later (fun _ _ there => there) (List.Subset.refl _)
    · obtain ⟨begun, unfilled⟩ := new put same.symm
      exact ⟨by simp [unfilled], by simp [unfilled], by simp [begun, AzureStage.uuid],
        by simp [begun], by simp [begun], by simp [begun], by simp [begun], by simp [begun]⟩
  · obtain ⟨put, present, whole⟩ := sound.uploads uuid owner own
    exact ⟨put, kept present, whole⟩
  · obtain ⟨own, put, present, rest⟩ := sound.copies digest owner uuid held
    exact ⟨own, put, kept present, rest⟩

theorem expire_sound (sound : container.Sound store) (uuid : String) :
    (container.setObject (store.uploadKey uuid) none).Sound store := by
  have blobs (digest : ValidDigest) :
      (container.setObject (store.uploadKey uuid) none).objects (store.key digest) =
        container.objects (store.key digest) :=
    Function.update_of_ne (AzureStore.key_ne_uploadKey digest uuid) _ _
  refine ⟨fun id put present => ?_, fun upload owner own => ?_, sound.apart,
    fun digest owner upload held => ?_, fun digest object held => ?_⟩
  · exact (sound.puts id put present).later (fun digest _ there => (blobs digest).trans there)
      (List.Subset.refl _)
  · obtain ⟨put, present, whole⟩ := sound.uploads upload owner own
    refine ⟨put, present, fun object there => ?_⟩
    by_cases same : upload = uuid
    · subst same
      have gone : (container.setObject (store.uploadKey upload) none).objects
          (store.uploadKey upload) = none := Function.update_self ..
      cases gone.symm.trans there
    · have apart : store.uploadKey upload ≠ store.uploadKey uuid := fun key =>
        same (AzureStore.uploadKey_inj.mp key)
      exact whole object ((Function.update_of_ne apart _ _).symm.trans there)
  · exact sound.copies digest owner upload ((blobs digest).symm.trans held)
  · exact sound.filled digest object ((blobs digest).symm.trans held)

theorem settle_sound (sound : container.Sound store) (digest : ValidDigest) :
    (container.settle store digest).Sound store := by
  rcases settle_cases sound digest with same | ⟨⟨id, uuid, pending⟩, same⟩ | ⟨id, put, fills⟩
  · rw [same]
    exact sound
  · rw [same]
    exact break_sound sound pending
  · exact fills.sound sound

theorem step_sound (sound : container.Sound store) (move : AzureMove) :
    (container.step store move).Sound store := by
  cases move with
  | put digest source =>
      exact concat_sound sound _ fun put same => by
        cases same
        exact ⟨rfl, rfl⟩
  | get digest => exact concat_sound sound _ fun put same => by cases same
  | advance id io =>
      simp only [step]
      cases found : container.calls[id]? with
      | none => exact sound
      | some call =>
          cases call with
          | put put =>
              obtain ⟨next, proceeds⟩ := advancePut_proceeds sound found io
              exact proceeds.sound sound found
          | get get =>
              simp only [advanceGet]
              split
              · exact setGet_sound sound found
              · exact sound
              · exact sound
  | settle digest => exact settle_sound sound digest
  | expire uuid => exact expire_sound sound uuid

theorem run_sound (sound : container.Sound store) (moves : List AzureMove) :
    (container.run store moves).Sound store := by
  induction moves generalizing container with
  | nil => exact sound
  | cons move rest ih => exact ih (step_sound sound move)

end Container

end MbxCache
