import MbxCache.Storage.Gcs

namespace MbxCache

/-- Storage, as the handlers see it, is written to create only. -/
theorem createOnly_put (objects : Objects) (digest : Digest) (bytes : Bytes) :
    createOnly objects digest bytes = objects.put digest bytes := rfl

section createOnly

variable {Key : Type} [DecidableEq Key] {objects : Key → Option Bytes} {key other : Key}
  {bytes content : Bytes}

theorem createOnly_outcome (bytes : Bytes) :
    (createOnly objects key bytes).2 = .created ↔ objects key = none := by
  unfold createOnly
  cases objects key <;> simp

theorem createOnly_other (different : other ≠ key) :
    (createOnly objects key bytes).1 other = objects other := by
  unfold createOnly
  cases objects key with
  | none => exact Function.update_of_ne different _ _
  | some held => rfl

theorem createOnly_kept (present : objects other = some content) :
    (createOnly objects key bytes).1 other = some content := by
  by_cases same : other = key
  · subst same
    simp only [createOnly, present]
  · rw [createOnly_other same, present]

theorem createOnly_comp {Name : Type} [DecidableEq Name] {place : Name → Key}
    (objects : Key → Option Bytes) (bytes : Bytes) (injective : Function.Injective place)
    (name : Name) :
    (fun other => (createOnly objects (place name) bytes).1 (place other)) =
        (createOnly (fun other => objects (place other)) name bytes).1 ∧
      (createOnly objects (place name) bytes).2 =
        (createOnly (fun other => objects (place other)) name bytes).2 := by
  simp only [createOnly]
  cases objects (place name) with
  | some content => exact ⟨rfl, rfl⟩
  | none =>
      refine ⟨?_, rfl⟩
      funext other
      simp only [Function.update_apply, injective.eq_iff]

end createOnly

namespace GcsKeys

variable {keys : GcsKeys}

theorem blob_inj {one other : ObjectKey} : keys.blob one = keys.blob other ↔ one = other := by
  simp [blob]

theorem uploadKey_inj {one other : String} :
    keys.uploadKey one = keys.uploadKey other ↔ one = other := by
  simp [uploadKey, upload]

theorem blob_ne_upload (name other : ObjectKey) : keys.blob name ≠ keys.upload other := by
  simp [blob, upload]

theorem blob_injective : Function.Injective keys.blob := fun _ _ same => blob_inj.mp same

variable {objects : ObjectKey → Option Bytes} {bytes : Bytes} {digest : Digest}

theorem create_blobs : keys.blobs (createOnly objects (keys.key digest) bytes).1 =
    (createOnly (keys.blobs objects) (keys.digestKey digest) bytes).1 :=
  (createOnly_comp objects bytes blob_injective (keys.digestKey digest)).1

theorem create_outcome : (createOnly objects (keys.key digest) bytes).2 =
    (createOnly (keys.blobs objects) (keys.digestKey digest) bytes).2 :=
  (createOnly_comp objects bytes blob_injective (keys.digestKey digest)).2

theorem create_upload (name : ObjectKey) :
    (createOnly objects (keys.key digest) bytes).1 (keys.upload name) =
      objects (keys.upload name) :=
  createOnly_other (blob_ne_upload _ name).symm

theorem update_blobs (name : ObjectKey) (value : Option Bytes) :
    keys.blobs (Function.update objects (keys.upload name) value) = keys.blobs objects := by
  funext other
  exact Function.update_of_ne (blob_ne_upload other name) _ _

end GcsKeys

namespace Bucket

variable {keys : GcsKeys} {bucket : Bucket}

theorem setStage_found (bucket : Bucket) {index : Nat} {put : GcsPut}
    (found : bucket.puts[index]? = some put) (stage : GcsStage) :
    (bucket.setStage index put stage).puts[index]? = some { put with stage } :=
  List.getElem?_set_self (List.getElem?_eq_some_iff.mp found).1

theorem step_advance {index : Nat} {put : GcsPut} (found : bucket.puts[index]? = some put)
    (io : GcsIo) : bucket.step keys (.advance index io) = bucket.advance keys index put io := by
  simp only [step, found]

/-- What a put that has the bucket for itself leaves: its blob written to create only, and the
uploads as they were. -/
structure WritesAlone (keys : GcsKeys) (before after : Bucket) (digest : Digest)
    (source : Bytes) : Prop where
  answered : after.puts[before.puts.length]? = some ⟨digest, source,
    .answered (createOnly (before.blobs keys) (keys.digestKey digest) source).2⟩
  blobs : after.blobs keys = (createOnly (before.blobs keys) (keys.digestKey digest) source).1
  uploads : ∀ name, after.objects (keys.upload name) = before.objects (keys.upload name)

theorem begun_found (digest : Digest) (source : Bytes) (branch : Branch) :
    (bucket.step keys (.beginOn branch digest source)).puts[bucket.puts.length]? =
      some ⟨digest, source, .begun branch⟩ := by
  simp only [step, beginOn, List.getElem?_append_right (le_refl _), Nat.sub_self, List.getElem?_cons_zero]

def At (bucket : Bucket) (index : Nat) (put : GcsPut) (objects : ObjectKey → Option Bytes) : Prop :=
  bucket.puts[index]? = some put ∧ bucket.objects = objects

section

variable (keys) {index : Nat} {digest : Digest} {source : Bytes}
  {objects : ObjectKey → Option Bytes} (uuid : String)

theorem At.next {stage after : GcsStage} (at_ : bucket.At index ⟨digest, source, stage⟩ objects)
    (moves : bucket.advance keys index ⟨digest, source, stage⟩ ⟨false, false, uuid⟩ =
      bucket.setStage index ⟨digest, source, stage⟩ after) :
    (bucket.step keys (.advance index ⟨false, false, uuid⟩)).At index ⟨digest, source, after⟩
      objects := by
  rw [step_advance at_.1, moves]
  exact ⟨setStage_found bucket at_.1 after, at_.2⟩

theorem At.draw (at_ : bucket.At index ⟨digest, source, .begun .staged⟩ objects)
    (fresh : bucket.Fresh keys uuid) :
    (bucket.step keys (.advance index ⟨false, false, uuid⟩)).At index
      ⟨digest, source, .opening uuid⟩ objects := by
  rw [step_advance at_.1]
  simp only [advance, if_pos fresh]
  exact ⟨setStage_found { bucket with drawn := uuid :: bucket.drawn } at_.1 _, at_.2⟩

theorem At.close (at_ : bucket.At index ⟨digest, source, .closing uuid⟩ objects) :
    (bucket.step keys (.advance index ⟨false, false, uuid⟩)).At index
      ⟨digest, source, .publishing uuid⟩
      (Function.update objects (keys.uploadKey uuid) (some source)) := by
  obtain ⟨found, rfl⟩ := at_
  rw [step_advance found]
  exact ⟨setStage_found { bucket with
    objects := Function.update bucket.objects (keys.uploadKey uuid) (some source) } found _, rfl⟩

theorem At.create (at_ : bucket.At index ⟨digest, source, .creating⟩ objects) :
    (bucket.step keys (.advance index ⟨false, false, uuid⟩)).At index
      ⟨digest, source, .answered (createOnly objects (keys.key digest) source).2⟩
      (createOnly objects (keys.key digest) source).1 := by
  obtain ⟨found, rfl⟩ := at_
  rw [step_advance found]
  exact ⟨setStage_found (bucket.publish keys index digest source).1 found _, rfl⟩

theorem At.publish (at_ : bucket.At index ⟨digest, source, .publishing uuid⟩ objects)
    (uploaded : objects (keys.uploadKey uuid) = some source) :
    (bucket.step keys (.advance index ⟨false, false, uuid⟩)).At index
      ⟨digest, source, .deleting uuid (some (createOnly objects (keys.key digest) source).2)⟩
      (createOnly objects (keys.key digest) source).1 := by
  obtain ⟨found, rfl⟩ := at_
  rw [step_advance found]
  simp only [advance, uploaded, Bool.false_eq_true, if_false]
  exact ⟨setStage_found (bucket.publish keys index digest source).1 found _, rfl⟩

theorem At.delete {outcome : PutOutcome}
    (at_ : bucket.At index ⟨digest, source, .deleting uuid (some outcome)⟩ objects) :
    (bucket.step keys (.advance index ⟨false, false, uuid⟩)).At index
      ⟨digest, source, .answered outcome⟩
      (Function.update objects (keys.uploadKey uuid) none) := by
  obtain ⟨found, rfl⟩ := at_
  rw [step_advance found]
  exact ⟨setStage_found { bucket with
    objects := Function.update bucket.objects (keys.uploadKey uuid) none } found _, rfl⟩

end

section alone

variable (bucket : Bucket) (digest : Digest) (source : Bytes) (uuid : String)

theorem single_alone :
    WritesAlone keys bucket (bucket.runAlone keys digest source .single uuid) digest source := by
  have begun : (bucket.step keys (.beginOn .single digest source)).At bucket.puts.length
      ⟨digest, source, .begun .single⟩ bucket.objects := ⟨begun_found digest source .single, rfl⟩
  have creating := begun.next keys uuid (show _ = setStage _ _ _ .creating from rfl)
  obtain ⟨found, objects⟩ := creating.create keys uuid
  refine ⟨?_, (congrArg keys.blobs objects).trans GcsKeys.create_blobs, fun name => ?_⟩
  · rw [GcsKeys.create_outcome] at found
    exact found
  · exact (congrFun objects (keys.upload name)).trans (GcsKeys.create_upload name)

theorem staged_alone (fresh : bucket.Fresh keys uuid) :
    WritesAlone keys bucket (bucket.runAlone keys digest source .staged uuid) digest source := by
  have begun : (bucket.step keys (.beginOn .staged digest source)).At bucket.puts.length
      ⟨digest, source, .begun .staged⟩ bucket.objects := ⟨begun_found digest source .staged, rfl⟩
  have opening := begun.draw keys uuid fresh
  have copying := opening.next keys uuid (show _ = setStage _ _ _ (.copying uuid) from rfl)
  have closing := copying.next keys uuid (show _ = setStage _ _ _ (.closing uuid) from rfl)
  have publishing := closing.close keys uuid
  have deleting := publishing.publish keys uuid (Function.update_self ..)
  obtain ⟨found, objects⟩ := deleting.delete keys uuid
  refine ⟨?_, (congrArg keys.blobs objects).trans ?_, fun name => ?_⟩
  · rw [GcsKeys.create_outcome, GcsKeys.uploadKey, GcsKeys.update_blobs] at found
    exact found
  · rw [GcsKeys.uploadKey, GcsKeys.update_blobs, GcsKeys.create_blobs, GcsKeys.update_blobs]
    rfl
  · refine (congrFun objects (keys.upload name)).trans ?_
    by_cases mine : keys.upload name = keys.uploadKey uuid
    · rw [mine, Function.update_self, fresh.2]
    · rw [Function.update_of_ne mine, GcsKeys.create_upload, Function.update_of_ne mine]

theorem WritesAlone.more {bucket after : Bucket} {digest : Digest} {source : Bytes}
    (alone : WritesAlone keys bucket after digest source) (io : GcsIo) :
    WritesAlone keys bucket (after.step keys (.advance bucket.puts.length io)) digest source := by
  rw [step_advance alone.answered]
  exact alone

theorem begin_alone (fresh : bucket.Fresh keys uuid) :
    WritesAlone keys bucket (bucket.run keys (.begin digest source ::
      List.replicate 6 (.advance bucket.puts.length ⟨false, false, uuid⟩))) digest source := by
  change WritesAlone keys bucket ((bucket.step keys (.beginOn (branchOf digest) digest source)).run
    keys (List.replicate 6 (.advance bucket.puts.length ⟨false, false, uuid⟩))) digest source
  cases branchOf digest with
  | single =>
      have answered : WritesAlone keys bucket (bucket.runAlone keys digest source .single uuid)
          digest source := single_alone bucket digest source uuid
      exact (((answered.more _).more _).more _).more _
  | staged => exact staged_alone bucket digest source uuid fresh

end alone

inductive Effect (keys : GcsKeys) (index : Nat) (put : GcsPut) (bucket : Bucket) : Bucket → Prop
  | idle : Effect keys index put bucket bucket
  | quiet (stage : GcsStage) (undecided : put.stage.result = none) (silent : stage.result = none)
      (own : ∀ uuid, stage.uuid = some uuid → put.stage.uuid = some uuid)
      (holds : ∀ uuid, put.stage.uploaded = some uuid → stage.uploaded = some uuid)
      (unready : ∀ uuid, stage ≠ .publishing uuid) :
      Effect keys index put bucket (bucket.setStage index put stage)
  | draw (uuid : String) (fresh : bucket.Fresh keys uuid) (begun : put.stage = .begun .staged) :
      Effect keys index put bucket
        ({ bucket with drawn := uuid :: bucket.drawn }.setStage index put (.opening uuid))
  | upload (uuid : String) (stage : GcsStage) (closing : put.stage = .closing uuid)
      (left : stage = .publishing uuid ∨ stage = .deleting uuid none) :
      Effect keys index put bucket
        ({ bucket with
          objects := Function.update bucket.objects (keys.uploadKey uuid)
            (some put.source) }.setStage index put stage)
  | publish (bytes : Bytes) (stage : GcsStage) (undecided : put.stage.result = none)
      (content : (∃ uuid, put.stage = .publishing uuid ∧
        bucket.objects (keys.uploadKey uuid) = some bytes) ∨ bytes = put.source)
      (decided : stage.result = some (bucket.publish keys index put.digest bytes).2)
      (own : stage.uuid = put.stage.uuid) (holds : stage.uploaded = put.stage.uploaded)
      (unready : ∀ uuid, stage ≠ .publishing uuid) :
      Effect keys index put bucket
        ((bucket.publish keys index put.digest bytes).1.setStage index put stage)
  | leak (uuid : String) (result : Option PutOutcome) (deleting : put.stage = .deleting uuid result) :
      Effect keys index put bucket
        ({ bucket with leaked := uuid :: bucket.leaked }.setStage index put (.ended result))
  | delete (uuid : String) (result : Option PutOutcome)
      (deleting : put.stage = .deleting uuid result) :
      Effect keys index put bucket
        ({ bucket with
          objects := Function.update bucket.objects (keys.uploadKey uuid) none }.setStage index put
            (.ended result))

theorem advance_effect (index : Nat) (put : GcsPut) (io : GcsIo) :
    Effect keys index put bucket (bucket.advance keys index put io) := by
  obtain ⟨digest, source, stage⟩ := put
  cases stage with
  | begun branch =>
      cases branch with
      | single =>
          simp only [advance]
          split <;> refine .quiet _ rfl rfl ?_ ?_ ?_ <;>
            simp [GcsStage.uuid, GcsStage.uploaded]
      | staged =>
          simp only [advance]
          split
          next fresh => exact .draw io.uuid fresh rfl
          next => exact .idle
  | creating =>
      simp only [advance]
      split
      · refine .quiet _ rfl rfl ?_ ?_ ?_ <;> simp [GcsStage.uuid, GcsStage.uploaded]
      · exact .publish source _ rfl (.inr rfl) rfl rfl rfl (by simp)
  | opening uuid =>
      simp only [advance]
      split <;> refine .quiet _ rfl rfl ?_ ?_ ?_ <;> simp [GcsStage.uuid, GcsStage.uploaded]
  | copying uuid =>
      simp only [advance]
      split <;> refine .quiet _ rfl rfl ?_ ?_ ?_ <;> simp [GcsStage.uuid, GcsStage.uploaded]
  | closing uuid =>
      simp only [advance]
      cases io.fails with
      | false => exact .upload uuid _ rfl (.inl rfl)
      | true =>
          cases io.leaves with
          | false =>
              refine .quiet (.deleting uuid none) rfl rfl ?_ ?_ ?_ <;>
                simp [GcsStage.uuid, GcsStage.uploaded]
          | true => exact .upload uuid _ rfl (.inr rfl)
  | publishing uuid =>
      simp only [advance]
      split
      · refine .quiet _ rfl rfl ?_ ?_ ?_ <;> simp [GcsStage.uuid, GcsStage.uploaded]
      · split
        next => refine .quiet _ rfl rfl ?_ ?_ ?_ <;> simp [GcsStage.uuid, GcsStage.uploaded]
        next bytes found => exact .publish bytes _ rfl (.inl ⟨uuid, rfl, found⟩) rfl rfl rfl (by simp)
  | deleting uuid result =>
      simp only [advance]
      split
      · exact .leak uuid result rfl
      · exact .delete uuid result rfl
  | answered outcome => exact .idle
  | failed => exact .idle

def Decides (keys : GcsKeys) (before after : Bucket) (decision : Decision) : Prop :=
  after.decided = before.decided ++ [decision] ∧
    createOnly (before.blobs keys) decision.name decision.bytes =
      (after.blobs keys, decision.outcome)

structure Change (keys : GcsKeys) (index : Nat) (put : GcsPut) (before after : Bucket)
    (stage : GcsStage) : Prop where
  puts : after.puts = before.puts.set index { put with stage }
  drawn : before.drawn ⊆ after.drawn
  leaked : before.leaked ⊆ after.leaked
  own : ∀ uuid, stage.uuid = some uuid →
    put.stage.uuid = some uuid ∨ (uuid ∉ before.drawn ∧ uuid ∈ after.drawn)
  others : ∀ uuid, put.stage.uuid ≠ some uuid →
    after.objects (keys.uploadKey uuid) = before.objects (keys.uploadKey uuid)
  ready : ∀ uuid, stage = .publishing uuid →
    after.objects (keys.uploadKey uuid) = some put.source
  uploads : ∀ name bytes, after.objects (keys.upload name) = some bytes →
    before.objects (keys.upload name) = some bytes ∨
      ∃ uuid, name = [uuid] ∧ stage.uploaded = some uuid
  holds : ∀ uuid, put.stage.uploaded = some uuid → stage.uploaded = some uuid ∨
    uuid ∈ after.leaked ∨ after.objects (keys.uploadKey uuid) = none
  decides : (after.decided = before.decided ∧ after.blobs keys = before.blobs keys ∧
      stage.result = put.stage.result) ∨
    ∃ outcome, put.stage.result = none ∧ stage.result = some outcome ∧
      Decides keys before after ⟨index, keys.digestKey put.digest, put.source, outcome⟩

@[simp] theorem ended_result (result : Option PutOutcome) :
    (GcsStage.ended result).result = result := by
  cases result <;> rfl

@[simp] theorem ended_uuid (result : Option PutOutcome) : (GcsStage.ended result).uuid = none := by
  cases result <;> rfl

theorem ended_ne_publishing (result : Option PutOutcome) (uuid : String) :
    GcsStage.ended result ≠ .publishing uuid := by
  cases result <;> simp [GcsStage.ended]

theorem update_upload {objects : ObjectKey → Option Bytes} {uuid other : String}
    {value : Option Bytes} (different : other ≠ uuid) :
    Function.update objects (keys.uploadKey uuid) value (keys.uploadKey other) =
      objects (keys.uploadKey other) :=
  Function.update_of_ne (fun same => different (GcsKeys.uploadKey_inj.mp same)) _ _

section Effects
variable {index : Nat} {put : GcsPut}

theorem Change.quiet {stage : GcsStage} (undecided : put.stage.result = none)
    (silent : stage.result = none)
    (own : ∀ uuid, stage.uuid = some uuid → put.stage.uuid = some uuid)
    (holds : ∀ uuid, put.stage.uploaded = some uuid → stage.uploaded = some uuid)
    (unready : ∀ uuid, stage ≠ .publishing uuid) :
    Change keys index put bucket (bucket.setStage index put stage) stage where
  puts := rfl
  drawn := List.Subset.refl _
  leaked := List.Subset.refl _
  own uuid mine := .inl (own uuid mine)
  others _ _ := rfl
  ready uuid ready := absurd ready (unready uuid)
  uploads _ _ found := .inl found
  holds uuid mine := .inl (holds uuid mine)
  decides := .inl ⟨rfl, rfl, silent.trans undecided.symm⟩

theorem Change.draw {uuid : String} (fresh : bucket.Fresh keys uuid)
    (begun : put.stage = .begun .staged) :
    Change keys index put bucket
      ({ bucket with drawn := uuid :: bucket.drawn }.setStage index put (.opening uuid))
      (.opening uuid) where
  puts := rfl
  drawn := List.subset_cons_self _ _
  leaked := List.Subset.refl _
  own other mine := by
    cases mine
    exact .inr ⟨fresh.1, List.mem_cons_self⟩
  others _ _ := rfl
  ready other ready := by cases ready
  uploads _ _ found := .inl found
  holds other mine := by
    rw [begun] at mine
    cases mine
  decides := .inl ⟨rfl, rfl, begun ▸ rfl⟩

theorem Change.upload {uuid : String} {stage : GcsStage} (closing : put.stage = .closing uuid)
    (left : stage = .publishing uuid ∨ stage = .deleting uuid none) :
    Change keys index put bucket
      ({ bucket with
        objects := Function.update bucket.objects (keys.uploadKey uuid)
          (some put.source) }.setStage index put stage) stage := by
  have silent : stage.result = none ∧ stage.uuid = some uuid ∧ stage.uploaded = some uuid := by
    rcases left with rfl | rfl <;> exact ⟨rfl, rfl, rfl⟩
  refine ⟨rfl, List.Subset.refl _, List.Subset.refl _, ?_, ?_, ?_, ?_, ?_, ?_⟩
  · intro other mine
    exact .inl (closing ▸ silent.2.1.symm.trans mine)
  · intro other different
    rw [closing] at different
    exact update_upload fun same => different (congrArg some same.symm)
  · intro other ready
    rcases left with rfl | rfl
    · cases ready
      exact Function.update_self ..
    · cases ready
  · intro name bytes found
    by_cases mine : name = [uuid]
    · exact .inr ⟨uuid, mine, silent.2.2⟩
    · refine .inl (Eq.trans (Function.update_of_ne ?_ _ _).symm found)
      simpa [GcsKeys.uploadKey, GcsKeys.upload] using mine
  · intro other mine
    rw [closing] at mine
    cases mine
  · refine .inl ⟨rfl, GcsKeys.update_blobs [uuid] _, ?_⟩
    rw [closing, silent.1]
    rfl

theorem Change.publish {stage : GcsStage} (undecided : put.stage.result = none)
    (decided : stage.result = some (bucket.publish keys index put.digest put.source).2)
    (own : stage.uuid = put.stage.uuid) (holds : stage.uploaded = put.stage.uploaded)
    (unready : ∀ uuid, stage ≠ .publishing uuid) :
    Change keys index put bucket
      ((bucket.publish keys index put.digest put.source).1.setStage index put stage) stage where
  puts := rfl
  drawn := List.Subset.refl _
  leaked := List.Subset.refl _
  own _ mine := .inl (own ▸ mine)
  others uuid _ := GcsKeys.create_upload [uuid]
  ready uuid ready := absurd ready (unready uuid)
  uploads name _ found := .inl ((GcsKeys.create_upload name).symm.trans found)
  holds _ mine := .inl (holds.trans mine)
  decides := .inr ⟨_, undecided, decided, rfl,
    Prod.ext GcsKeys.create_blobs.symm GcsKeys.create_outcome.symm⟩

theorem Change.leak {uuid : String} {result : Option PutOutcome}
    (deleting : put.stage = .deleting uuid result) :
    Change keys index put bucket
      ({ bucket with leaked := uuid :: bucket.leaked }.setStage index put (.ended result))
      (.ended result) where
  puts := rfl
  drawn := List.Subset.refl _
  leaked := List.subset_cons_self _ _
  own other mine := by simp at mine
  others _ _ := rfl
  ready other ready := absurd ready (ended_ne_publishing result other)
  uploads _ _ found := .inl found
  holds other mine := by
    rw [deleting] at mine
    cases mine
    exact .inr (.inl List.mem_cons_self)
  decides := .inl ⟨rfl, rfl, deleting ▸ ended_result result⟩

theorem Change.delete {uuid : String} {result : Option PutOutcome}
    (deleting : put.stage = .deleting uuid result) :
    Change keys index put bucket
      ({ bucket with
        objects := Function.update bucket.objects (keys.uploadKey uuid) none }.setStage index put
          (.ended result)) (.ended result) where
  puts := rfl
  drawn := List.Subset.refl _
  leaked := List.Subset.refl _
  own other mine := by simp at mine
  others other different := by
    rw [deleting] at different
    exact update_upload fun same => different (congrArg some same.symm)
  ready other ready := absurd ready (ended_ne_publishing result other)
  uploads name bytes found := by
    by_cases mine : keys.upload name = keys.uploadKey uuid
    · have gone : Function.update bucket.objects (keys.uploadKey uuid) none
          (keys.upload name) = none := by rw [mine, Function.update_self]
      cases gone.symm.trans found
    · exact .inl ((Function.update_of_ne mine _ _).symm.trans found)
  holds other mine := by
    rw [deleting] at mine
    cases mine
    exact .inr (.inr (Function.update_self ..))
  decides := .inl ⟨rfl, GcsKeys.update_blobs [uuid] _, deleting ▸ ended_result result⟩

theorem Effect.change {after : Bucket} (effect : Effect keys index put bucket after)
    (staged : ∀ uuid, put.stage = .publishing uuid →
      bucket.objects (keys.uploadKey uuid) = some put.source) :
    after = bucket ∨ ∃ stage, Change keys index put bucket after stage := by
  cases effect with
  | idle => exact .inl rfl
  | quiet stage undecided silent own holds unready =>
      exact .inr ⟨stage, .quiet undecided silent own holds unready⟩
  | draw uuid fresh begun => exact .inr ⟨_, .draw fresh begun⟩
  | upload uuid stage closing left => exact .inr ⟨stage, .upload closing left⟩
  | publish bytes stage undecided content decided own holds unready =>
      -- What is copied is what the upload was given.
      have whole : bytes = put.source := by
        rcases content with ⟨uuid, publishing, found⟩ | same
        · exact Option.some.inj (found.symm.trans (staged uuid publishing))
        · exact same
      subst whole
      exact .inr ⟨stage, .publish undecided decided own holds unready⟩
  | leak uuid result deleting => exact .inr ⟨_, .leak deleting⟩
  | delete uuid result deleting => exact .inr ⟨_, .delete deleting⟩

end Effects

structure Sound (keys : GcsKeys) (base : ObjectKey → Option Bytes) (bucket : Bucket) : Prop where
  staged : ∀ put ∈ bucket.puts, ∀ uuid, put.stage = .publishing uuid →
    bucket.objects (keys.uploadKey uuid) = some put.source
  drawn : ∀ put ∈ bucket.puts, ∀ uuid, put.stage.uuid = some uuid → uuid ∈ bucket.drawn
  apart : ∀ (i j : Nat) one other uuid, bucket.puts[i]? = some one → bucket.puts[j]? = some other →
    one.stage.uuid = some uuid → other.stage.uuid = some uuid → i = j
  uploads : ∀ name bytes, bucket.objects (keys.upload name) = some bytes →
    base (keys.upload name) = some bytes ∨ ∃ uuid, name = [uuid] ∧
      (uuid ∈ bucket.leaked ∨ ∃ put ∈ bucket.puts, put.stage.uploaded = some uuid)
  decided : ∀ decision ∈ bucket.decided, ∃ put, bucket.puts[decision.put]? = some put ∧
    put.stage.result = some decision.outcome ∧ decision.name = keys.digestKey put.digest ∧
    decision.bytes = put.source
  results : ∀ (i : Nat) put outcome, bucket.puts[i]? = some put →
    put.stage.result = some outcome →
    ⟨i, keys.digestKey put.digest, put.source, outcome⟩ ∈ bucket.decided
  once : (bucket.decided.map Decision.put).Nodup

variable {base : ObjectKey → Option Bytes}

theorem start_sound : (start base).Sound keys base where
  staged := by simp [start]
  drawn := by simp [start]
  apart := by simp [start]
  uploads name bytes found := .inl found
  decided := by simp [start]
  results := by simp [start]
  once := List.nodup_nil

theorem begin_sound (sound : bucket.Sound keys base) (digest : Digest) (source : Bytes)
    (branch : Branch) : (bucket.beginOn branch digest source).Sound keys base where
  staged put member uuid ready := by
    rcases List.mem_append.mp member with old | new
    · exact sound.staged put old uuid ready
    · obtain rfl := List.mem_singleton.mp new
      cases ready
  drawn put member uuid mine := by
    rcases List.mem_append.mp member with old | new
    · exact sound.drawn put old uuid mine
    · obtain rfl := List.mem_singleton.mp new
      cases mine
  apart i j one other uuid first second mine mine' := by
    rcases Concurrent.getElem?_snoc first with older | ⟨-, rfl⟩
    · rcases Concurrent.getElem?_snoc second with older' | ⟨-, rfl⟩
      · exact sound.apart i j one other uuid older older' mine mine'
      · cases mine'
    · cases mine
  uploads name bytes found := by
    rcases sound.uploads name bytes found with old | ⟨uuid, same, leaked | ⟨put, member, held⟩⟩
    · exact .inl old
    · exact .inr ⟨uuid, same, .inl leaked⟩
    · exact .inr ⟨uuid, same, .inr ⟨put, List.mem_append_left _ member, held⟩⟩
  decided decision member := by
    obtain ⟨put, found, rest⟩ := sound.decided decision member
    have inside := (List.getElem?_eq_some_iff.mp found).1
    exact ⟨put, (List.getElem?_append_left inside).trans found, rest⟩
  results i put outcome found result := by
    rcases Concurrent.getElem?_snoc found with older | ⟨-, rfl⟩
    · exact sound.results i put outcome older result
    · cases result
  once := sound.once

section Preserved
variable {index : Nat} {put : GcsPut} {after : Bucket} {stage : GcsStage}

theorem Change.members (change : Change keys index put bucket after stage) {other : GcsPut}
    (member : other ∈ after.puts) :
    other = { put with stage } ∨ ∃ j, j ≠ index ∧ bucket.puts[j]? = some other := by
  obtain ⟨j, present⟩ := List.getElem?_of_mem member
  rw [change.puts] at present
  rcases set_cases present with ⟨-, same⟩ | ⟨ne, old⟩
  · exact .inl same
  · exact .inr ⟨j, ne, old⟩

variable (found : bucket.puts[index]? = some put)
include found

theorem Change.changed (change : Change keys index put bucket after stage) :
    after.puts[index]? = some { put with stage } := by
  rw [change.puts]
  exact List.getElem?_set_self (List.getElem?_eq_some_iff.mp found).1

theorem Change.moved (change : Change keys index put bucket after stage) {other : GcsPut}
    {uuid : String} (old : other ∈ bucket.puts) (held : other.stage.uploaded = some uuid) :
    uuid ∈ after.leaked ∨ (∃ put ∈ after.puts, put.stage.uploaded = some uuid) ∨
      after.objects (keys.uploadKey uuid) = none := by
  obtain ⟨j, present⟩ := List.getElem?_of_mem old
  by_cases same : j = index
  · obtain rfl : put = other := Option.some.inj (found.symm.trans (same ▸ present))
    rcases change.holds uuid held with still | leaked | gone
    · exact .inr (.inl ⟨_, List.mem_of_getElem? (change.changed found), still⟩)
    · exact .inl leaked
    · exact .inr (.inr gone)
  · refine .inr (.inl ⟨other, ?_, held⟩)
    rw [change.puts]
    exact List.mem_of_getElem? ((List.getElem?_set_ne (Ne.symm same)).trans present)

variable (sound : bucket.Sound keys base)
include sound

theorem Sound.undone (undecided : put.stage.result = none) {decision : Decision}
    (earlier : decision ∈ bucket.decided) : decision.put ≠ index := by
  intro here
  obtain ⟨other, present, result, -⟩ := sound.decided decision earlier
  obtain rfl : put = other := Option.some.inj (found.symm.trans (here ▸ present))
  cases undecided.symm.trans result

variable (change : Change keys index put bucket after stage)
include change

theorem Sound.alone {j : Nat} {other : GcsPut} {uuid : String}
    (present : bucket.puts[j]? = some other) (ne : j ≠ index)
    (held : other.stage.uuid = some uuid) : stage.uuid ≠ some uuid := by
  intro same
  rcases change.own uuid same with old | ⟨undrawn, -⟩
  · exact ne (sound.apart j index other put uuid present found held old)
  · exact undrawn (sound.drawn other (List.mem_of_getElem? present) uuid held)

theorem Sound.staged_after : ∀ other ∈ after.puts, ∀ uuid, other.stage = .publishing uuid →
    after.objects (keys.uploadKey uuid) = some other.source := by
  intro other member uuid ready
  rcases change.members member with rfl | ⟨j, ne, old⟩
  · exact change.ready uuid ready
  · have held : other.stage.uuid = some uuid := by rw [ready]; rfl
    rw [change.others uuid fun same => ne (sound.apart j index other put uuid old found held same)]
    exact sound.staged other (List.mem_of_getElem? old) uuid ready

theorem Sound.drawn_after :
    ∀ other ∈ after.puts, ∀ uuid, other.stage.uuid = some uuid → uuid ∈ after.drawn := by
  intro other member uuid held
  rcases change.members member with rfl | ⟨j, ne, old⟩
  · rcases change.own uuid held with same | ⟨-, new⟩
    · exact change.drawn (sound.drawn put (List.mem_of_getElem? found) uuid same)
    · exact new
  · exact change.drawn (sound.drawn other (List.mem_of_getElem? old) uuid held)

theorem Sound.apart_after (i j : Nat) (one other : GcsPut) (uuid : String)
    (first : after.puts[i]? = some one) (second : after.puts[j]? = some other)
    (held : one.stage.uuid = some uuid) (held' : other.stage.uuid = some uuid) : i = j := by
  rw [change.puts] at first second
  rcases set_cases first with ⟨rfl, rfl⟩ | ⟨ne, older⟩
  · rcases set_cases second with ⟨rfl, rfl⟩ | ⟨ne', older'⟩
    · rfl
    · exact absurd held (sound.alone found change older' ne' held')
  · rcases set_cases second with ⟨rfl, rfl⟩ | ⟨ne', older'⟩
    · exact absurd held' (sound.alone found change older ne held)
    · exact sound.apart i j one other uuid older older' held held'

theorem Sound.uploads_after (name : ObjectKey) (bytes : Bytes)
    (present : after.objects (keys.upload name) = some bytes) :
    base (keys.upload name) = some bytes ∨ ∃ uuid, name = [uuid] ∧
      (uuid ∈ after.leaked ∨ ∃ put ∈ after.puts, put.stage.uploaded = some uuid) := by
  rcases change.uploads name bytes present with old | ⟨uuid, same, held⟩
  · rcases sound.uploads name bytes old with first | ⟨uuid, same, leaked | ⟨other, member, held⟩⟩
    · exact .inl first
    · exact .inr ⟨uuid, same, .inl (change.leaked leaked)⟩
    · subst same
      rcases change.moved found member held with leaked | still | gone
      · exact .inr ⟨uuid, rfl, .inl leaked⟩
      · exact .inr ⟨uuid, rfl, .inr still⟩
      · cases gone.symm.trans present
  · exact .inr ⟨uuid, same, .inr ⟨_, List.mem_of_getElem? (change.changed found), held⟩⟩

theorem Sound.decided_still {decision : Decision} (earlier : decision ∈ bucket.decided)
    (same : decision.put = index → stage.result = put.stage.result) :
    ∃ put, after.puts[decision.put]? = some put ∧ put.stage.result = some decision.outcome ∧
      decision.name = keys.digestKey put.digest ∧ decision.bytes = put.source := by
  obtain ⟨other, present, result, name, bytes⟩ := sound.decided decision earlier
  by_cases here : decision.put = index
  · obtain rfl : put = other := Option.some.inj (found.symm.trans (here ▸ present))
    exact ⟨{ put with stage }, here ▸ change.changed found, (same here).trans result, name, bytes⟩
  · refine ⟨other, ?_, result, name, bytes⟩
    rw [change.puts]
    exact (List.getElem?_set_ne (Ne.symm here)).trans present

theorem Sound.decided_after : ∀ decision ∈ after.decided,
    ∃ put, after.puts[decision.put]? = some put ∧ put.stage.result = some decision.outcome ∧
      decision.name = keys.digestKey put.digest ∧ decision.bytes = put.source := by
  intro decision member
  rcases change.decides with ⟨same, -, result⟩ | ⟨outcome, undecided, result, added, -⟩
  · exact sound.decided_still found change (same ▸ member) fun _ => result
  · rcases List.mem_append.mp (added ▸ member) with earlier | new
    · refine sound.decided_still found change earlier fun here => ?_
      exact absurd here (sound.undone found undecided earlier)
    · obtain rfl := List.mem_singleton.mp new
      exact ⟨_, change.changed found, result, rfl, rfl⟩

theorem Sound.results_after (i : Nat) (other : GcsPut) (outcome : PutOutcome)
    (present : after.puts[i]? = some other) (result : other.stage.result = some outcome) :
    ⟨i, keys.digestKey other.digest, other.source, outcome⟩ ∈ after.decided := by
  rw [change.puts] at present
  rcases set_cases present with ⟨rfl, rfl⟩ | ⟨ne, older⟩
  · rcases change.decides with ⟨same, -, unchanged⟩ | ⟨decided, -, now, added, -⟩
    · rw [same]
      exact sound.results i put outcome found (unchanged.symm.trans result)
    · rw [added, ← Option.some.inj (now.symm.trans result)]
      exact List.mem_append_right _ (List.mem_singleton.mpr rfl)
  · have earlier := sound.results i other outcome older result
    rcases change.decides with ⟨same, -⟩ | ⟨_, -, -, added, -⟩
    · exact same ▸ earlier
    · exact added ▸ List.mem_append_left _ earlier

theorem Sound.once_after : (after.decided.map Decision.put).Nodup := by
  rcases change.decides with ⟨same, -⟩ | ⟨outcome, undecided, -, added, -⟩
  · exact same ▸ sound.once
  · rw [added, List.map_append, List.nodup_append]
    refine ⟨sound.once, by simp, fun earlier listed new here same => ?_⟩
    obtain ⟨decision, member, rfl⟩ := List.mem_map.mp listed
    exact sound.undone found undecided member (same.trans (List.mem_singleton.mp here))

/-- A step of a put keeps the invariant. -/
theorem Sound.preserved : after.Sound keys base where
  staged := sound.staged_after found change
  drawn := sound.drawn_after found change
  apart := sound.apart_after found change
  uploads := sound.uploads_after found change
  decided := sound.decided_after found change
  results := sound.results_after found change
  once := sound.once_after found change

end Preserved

theorem step_change (sound : bucket.Sound keys base) {index : Nat} {put : GcsPut}
    (found : bucket.puts[index]? = some put) (io : GcsIo) :
    bucket.step keys (.advance index io) = bucket ∨
      ∃ stage, Change keys index put bucket (bucket.step keys (.advance index io)) stage := by
  rw [step_advance found]
  exact (advance_effect index put io).change (sound.staged put (List.mem_of_getElem? found))

theorem step_sound (sound : bucket.Sound keys base) (move : GcsMove) :
    (bucket.step keys move).Sound keys base := by
  cases move with
  | begin digest source => exact begin_sound sound digest source (branchOf digest)
  | beginOn branch digest source => exact begin_sound sound digest source branch
  | advance index io =>
      cases found : bucket.puts[index]? with
      | none =>
          have still : bucket.step keys (.advance index io) = bucket := by simp only [step, found]
          rw [still]
          exact sound
      | some put =>
          rcases step_change sound found io with same | ⟨stage, change⟩
          · rw [same]
            exact sound
          · exact sound.preserved found change

theorem run_sound (sound : bucket.Sound keys base) (moves : List GcsMove) :
    (bucket.run keys moves).Sound keys base := by
  induction moves generalizing bucket with
  | nil => exact sound
  | cons move rest ih => exact ih (step_sound sound move)

/-- The blobs change by create-only writes alone. -/
theorem step_decides (sound : bucket.Sound keys base) (move : GcsMove) :
    ((bucket.step keys move).decided = bucket.decided ∧
        (bucket.step keys move).blobs keys = bucket.blobs keys) ∨
      ∃ decision, Decides keys bucket (bucket.step keys move) decision := by
  cases move with
  | begin digest source | beginOn branch digest source => exact .inl ⟨rfl, rfl⟩
  | advance index io =>
      cases found : bucket.puts[index]? with
      | none =>
          have still : bucket.step keys (.advance index io) = bucket := by simp only [step, found]
          rw [still]
          exact .inl ⟨rfl, rfl⟩
      | some put =>
          rcases step_change sound found io with same | ⟨stage, change⟩
          · rw [same]
            exact .inl ⟨rfl, rfl⟩
          · rcases change.decides with ⟨decided, blobs, -⟩ | ⟨outcome, -, -, decides⟩
            · exact .inl ⟨decided, blobs⟩
            · exact .inr ⟨_, decides⟩

theorem Decides.created {after : Bucket} {decision : Decision}
    (decides : Decides keys bucket after decision) :
    decision.outcome = .created ↔ bucket.blobs keys decision.name = none := by
  rw [← createOnly_outcome decision.bytes, decides.2]

def stored (bucket : Bucket) (keys : GcsKeys) : Objects := fun digest =>
  bucket.blobs keys (keys.digestKey digest)

/-- A decision is the `put` of storage that the handlers rely on. -/
theorem Decides.put {after : Bucket} {decision : Decision} {digest : Digest}
    (decides : Decides keys bucket after decision) (named : decision.name = keys.digestKey digest)
    (injective : Function.Injective keys.digestKey) :
    (bucket.stored keys).put digest decision.bytes = (after.stored keys, decision.outcome) := by
  obtain ⟨-, written⟩ := decides
  rw [named] at written
  obtain ⟨objects, outcome⟩ := createOnly_comp (bucket.blobs keys) decision.bytes injective
    digest
  rw [written] at objects outcome
  rw [← createOnly_put]
  exact Prod.ext objects.symm outcome.symm

theorem run_kept (sound : bucket.Sound keys base) {name : ObjectKey} {bytes : Bytes}
    (present : bucket.blobs keys name = some bytes) (moves : List GcsMove) :
    (bucket.run keys moves).blobs keys name = some bytes := by
  induction moves generalizing bucket with
  | nil => exact present
  | cons move rest ih =>
      refine ih (step_sound sound move) ?_
      rcases step_decides sound move with ⟨-, same⟩ | ⟨decision, -, written⟩
      · exact (congrFun same name).trans present
      · have after := congrFun (congrArg Prod.fst written) name
        exact after.symm.trans (createOnly_kept present)

structure Calm (bucket : Bucket) : Prop where
  leaked : bucket.leaked = []
  stages : ∀ put ∈ bucket.puts, put.stage ≠ .failed ∧ ∀ uuid, put.stage ≠ .deleting uuid none

theorem Calm.beginOn (calm : bucket.Calm) (digest : Digest) (source : Bytes) (branch : Branch) :
    (bucket.beginOn branch digest source).Calm where
  leaked := calm.leaked
  stages put member := by
    rcases List.mem_append.mp member with old | new
    · exact calm.stages put old
    · obtain rfl := List.mem_singleton.mp new
      simp

theorem Calm.setStage (calm : bucket.Calm) {after : Bucket} (puts : after.puts = bucket.puts)
    (leaked : after.leaked = bucket.leaked) (index : Nat) (put : GcsPut) {stage : GcsStage}
    (fine : stage ≠ .failed ∧ ∀ uuid, stage ≠ .deleting uuid none) :
    (after.setStage index put stage).Calm where
  leaked := leaked.trans calm.leaked
  stages other member := by
    rcases List.mem_or_eq_of_mem_set member with old | rfl
    · exact calm.stages other (puts ▸ old)
    · exact fine

theorem Calm.advance (calm : bucket.Calm) (sound : bucket.Sound keys base) {index : Nat}
    {put : GcsPut} (found : bucket.puts[index]? = some put) {io : GcsIo}
    (succeeds : io.fails = false) : (bucket.advance keys index put io).Calm := by
  have mine := List.mem_of_getElem? found
  have own := calm.stages put mine
  have staged := sound.staged put mine
  obtain ⟨digest, source, stage⟩ := put
  cases stage with
  | begun branch =>
      cases branch with
      | single =>
          simp only [Bucket.advance, succeeds, Bool.false_eq_true, if_false]
          exact calm.setStage (by rfl) (by rfl) index _ (by simp)
      | staged =>
          simp only [Bucket.advance]
          split
          · refine calm.setStage (by rfl) (by rfl) index _ ?_
            simp
          · exact calm
  | creating =>
      simp only [Bucket.advance, succeeds, Bool.false_eq_true, if_false]
      refine calm.setStage (by rfl) (by rfl) index _ ?_
      simp
  | opening uuid | copying uuid =>
      simp only [Bucket.advance, succeeds, Bool.false_eq_true, if_false]
      exact calm.setStage (by rfl) (by rfl) index _ (by simp)
  | closing uuid =>
      simp only [Bucket.advance, succeeds, Bool.false_eq_true, if_false]
      refine calm.setStage (by rfl) (by rfl) index _ ?_
      simp
  | publishing uuid =>
      simp only [Bucket.advance, succeeds, Bool.false_eq_true, if_false, staged uuid rfl]
      refine calm.setStage (by rfl) (by rfl) index _ ?_
      simp
  | deleting uuid result =>
      simp only [Bucket.advance, succeeds, Bool.false_eq_true, if_false]
      refine calm.setStage (by rfl) (by rfl) index _ ?_
      cases result with
      | none => exact absurd rfl (own.2 uuid)
      | some outcome => simp [GcsStage.ended]
  | answered outcome => exact calm
  | failed => exact calm

theorem run_calm (calm : bucket.Calm) (sound : bucket.Sound keys base) {moves : List GcsMove}
    (succeed : ∀ index io, GcsMove.advance index io ∈ moves → io.fails = false) :
    (bucket.run keys moves).Calm := by
  induction moves generalizing bucket with
  | nil => exact calm
  | cons move rest ih =>
      refine ih ?_ (step_sound sound move) fun index io member =>
        succeed index io (List.mem_cons_of_mem _ member)
      cases move with
      | begin digest source => exact calm.beginOn digest source (branchOf digest)
      | beginOn branch digest source => exact calm.beginOn digest source branch
      | advance index io =>
          cases found : bucket.puts[index]? with
          | none =>
              have still : bucket.step keys (.advance index io) = bucket := by
                simp only [step, found]
              rw [still]
              exact calm
          | some put =>
              rw [step_advance found]
              exact calm.advance sound found (succeed index io List.mem_cons_self)

/-- Both branches publish as one create-only write, alone and in any interleaving: what a put
answers is what that write did, no object is altered, and an upload stays behind only if its
delete failed. -/
theorem put_branches_agree (keys : GcsKeys) :
    (∀ (bucket : Bucket) digest source uuid branch, bucket.Fresh keys uuid →
      WritesAlone keys bucket (bucket.runAlone keys digest source branch uuid) digest source) ∧
    (∀ (bucket : Bucket) digest source uuid, bucket.Fresh keys uuid →
      WritesAlone keys bucket (bucket.run keys (.begin digest source ::
        List.replicate 6 (.advance bucket.puts.length ⟨false, false, uuid⟩))) digest source) ∧
    ∀ base moves,
      let bucket := (start base).run keys moves
      (∀ move,
        ((bucket.step keys move).decided = bucket.decided ∧
          (bucket.step keys move).blobs keys = bucket.blobs keys) ∨
        ∃ decision, Decides keys bucket (bucket.step keys move) decision ∧
          (decision.outcome = .created ↔ bucket.blobs keys decision.name = none) ∧
          (Function.Injective keys.digestKey → ∀ digest, decision.name = keys.digestKey digest →
            (bucket.stored keys).put digest decision.bytes =
              ((bucket.step keys move).stored keys, decision.outcome))) ∧
      (bucket.decided.map Decision.put).Nodup ∧
      (∀ decision ∈ bucket.decided, ∃ put, bucket.puts[decision.put]? = some put ∧
        put.stage.result = some decision.outcome ∧ decision.name = keys.digestKey put.digest ∧
        decision.bytes = put.source) ∧
      (∀ (index : Nat) put outcome, bucket.puts[index]? = some put →
        put.stage = .answered outcome →
        ⟨index, keys.digestKey put.digest, put.source, outcome⟩ ∈ bucket.decided) ∧
      (∀ more name bytes, bucket.blobs keys name = some bytes →
        (bucket.run keys more).blobs keys name = some bytes) ∧
      (∀ name bytes, bucket.objects (keys.upload name) = some bytes →
        base (keys.upload name) = some bytes ∨ ∃ uuid, name = [uuid] ∧
          (uuid ∈ bucket.leaked ∨ ∃ put ∈ bucket.puts, put.stage.uploaded = some uuid)) ∧
      ((∀ index io, GcsMove.advance index io ∈ moves → io.fails = false) →
        bucket.leaked = [] ∧ ∀ put ∈ bucket.puts,
          put.stage ≠ .failed ∧ ∀ uuid, put.stage ≠ .deleting uuid none) := by
  refine ⟨?_, fun bucket digest source uuid => begin_alone bucket digest source uuid, ?_⟩
  · intro bucket digest source uuid branch fresh
    cases branch with
    | single => exact single_alone bucket digest source uuid
    | staged => exact staged_alone bucket digest source uuid fresh
  · intro base moves bucket
    have sound : bucket.Sound keys base := run_sound start_sound moves
    refine ⟨fun move => ?_, sound.once, sound.decided, ?_, ?_, sound.uploads, ?_⟩
    · rcases step_decides sound move with same | ⟨decision, decides⟩
      · exact .inl same
      · refine .inr ⟨decision, decides, decides.created, fun injective digest named => ?_⟩
        exact decides.put named injective
    · intro index put outcome found answered
      exact sound.results index put outcome found (by rw [answered]; rfl)
    · intro more name bytes present
      exact run_kept sound present more
    · intro succeed
      have calm : bucket.Calm := run_calm ⟨rfl, by simp [start]⟩ start_sound succeed
      exact ⟨calm.leaked, calm.stages⟩

end Bucket
end MbxCache
