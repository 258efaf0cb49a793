import MbxCache.Storage.S3

namespace MbxCache

open Concurrent SerialObject

/-- A put may be told of its own object when its first response was lost. -/
abbrev s3Manners : Manners := ⟨true, false⟩

namespace S3Store

theorem key_injective (store : S3Store) : Function.Injective store.key := by
  intro one other same
  exact store.distinct ((String.append_right_inj _).mp same)

def view (store : S3Store) (objects : String → Option Bytes) : StoredObjects :=
  .whole fun digest => objects (store.key digest)

theorem createOnly_view (store : S3Store) (objects : String → Option Bytes)
    (digest : ValidDigest) (bytes : Bytes) :
    store.view (createOnly objects (store.key digest) bytes).1 =
        (store.view objects).create digest bytes ∧
      (createOnly objects (store.key digest) bytes).2 =
        (createOnly (store.view objects).blobs digest bytes).2 := by
  obtain ⟨same, told⟩ := createOnly_comp objects bytes store.key_injective digest
  exact ⟨StoredObjects.ext same (Set.empty_sdiff _).symm, told⟩

theorem contentSize_toNat {length : Nat} {size : UInt64}
    (sized : contentSize length = some size) : size.toNat = length := by
  unfold contentSize at sized
  split at sized
  next fits =>
    cases sized
    rw [UInt64.toNat_ofNat', Nat.mod_eq_of_lt fits.2, Int.toNat_natCast]
  next => cases sized

theorem got_present {sized : Bool} {bytes : Bytes} {found : Option (UInt64 × Bytes)}
    (answered : got (S3Get.response sized (some bytes)) = .ok found) :
    ∃ size, found = some (size, bytes) ∧ size.toNat = bytes.length := by
  unfold got S3Get.response at answered
  cases sized with
  | false => simp at answered
  | true =>
      simp only [if_true, Option.bind_some] at answered
      cases whole : contentSize bytes.length with
      | none => simp [whole] at answered
      | some size =>
          simp only [whole, Except.ok.injEq] at answered
          exact ⟨size, answered.symm, contentSize_toNat whole⟩

theorem got_missing (sized : Bool) : got (S3Get.response sized none) = .ok none := by
  simp [got, S3Get.response]

end S3Store

namespace S3Put

def stageOf (put : S3Put) : (storage s3Manners).Stage :=
  match put.created with
  | some outcome => .acted (.put put.digest put.source) (.stored outcome)
  | none =>
      match put.stage with
      | .answered outcome => .acted (.put put.digest put.source) (.stored outcome)
      | .opening | .sending | .failed => .waiting (.put put.digest put.source)

def ending : S3PutStage → Option (Option BlobAnswer)
  | .answered outcome => some (some (.stored outcome))
  | .failed => some none
  | .opening | .sending => none

def Fits (put : S3Put) (store : S3Store) (objects : String → Option Bytes) : Prop :=
  match put.stage with
  | .opening => put.created = none
  | .sending => ∀ outcome, put.created = some outcome →
      outcome = .alreadyExists ∧ (objects (store.key put.digest)).isSome
  | .answered outcome => put.created = some outcome ∨ put.created = none
  | .failed => True

variable {put : S3Put} {store : S3Store} {objects : String → Option Bytes}

theorem Fits.told (fits : put.Fits store objects) {answer : BlobAnswer}
    (answered : ending put.stage = some (some answer)) :
    put.stageOf = .acted (.put put.digest put.source) answer := by
  obtain ⟨digest, source, stage, created⟩ := put
  cases stage <;> cases answered
  rcases fits with rfl | rfl <;> rfl

theorem Fits.within (fits : put.Fits store objects) {after : String → Option Bytes}
    (kept : ∀ key bytes, objects key = some bytes → after key = some bytes) :
    put.Fits store after := by
  obtain ⟨digest, source, stage, created⟩ := put
  cases stage with
  | opening => exact fits
  | sending =>
      intro outcome same
      obtain ⟨told, present⟩ := fits outcome same
      obtain ⟨bytes, held⟩ := Option.isSome_iff_exists.mp present
      exact ⟨told, Option.isSome_iff_exists.mpr ⟨bytes, kept _ _ held⟩⟩
  | answered outcome => exact fits
  | failed => trivial

structure Proceeds (put : S3Put) (store : S3Store) (objects : String → Option Bytes)
    (result : (String → Option Bytes) × S3Put) : Prop where
  kept : ∀ key bytes, objects key = some bytes → result.1 key = some bytes
  fits : result.2.Fits store result.1
  advances : Furthers stageOf (store.view objects) (store.view result.1) put result.2

theorem Proceeds.quiet {next : S3Put} (fits : next.Fits store objects)
    (same : next.stageOf = put.stageOf) : put.Proceeds store objects (objects, next) :=
  ⟨fun _ _ held => held, fits, .stays same rfl⟩

theorem does_put (put : S3Put) (store : S3Store) (objects : String → Option Bytes) {outcome : PutOutcome}
    (told : outcome = (createOnly objects (store.key put.digest) put.source).2 ∨
      outcome = .alreadyExists) :
    Stores s3Manners (store.view objects) (.put put.digest put.source)
      (store.view (createOnly objects (store.key put.digest) put.source).1) (.stored outcome) := by
  obtain ⟨same, same'⟩ := store.createOnly_view objects put.digest put.source
  rw [same]
  exact .put (told.imp (fun it => it.trans same') fun it => ⟨rfl, it⟩)

theorem unserved_proceeds (sending : put.stage = .sending) (fits : put.Fits store objects)
    {stage : S3PutStage} (next : stage = .sending ∨ stage = .failed) :
    put.Proceeds store objects (objects, { put with stage }) := by
  obtain ⟨digest, source, _, created⟩ := put
  cases sending
  rcases next with rfl | rfl
  · exact .quiet fits rfl
  · refine .quiet trivial ?_
    cases created <;> rfl

theorem served_proceeds (sending : put.stage = .sending) (fits : put.Fits store objects)
    (sized : Bool) : put.Proceeds store objects (put.send store objects (.served sized)) := by
  obtain ⟨digest, source, stage, created⟩ := put
  cases sending
  have kept (key : String) (bytes : Bytes) (held : objects key = some bytes) :
      (createOnly objects (store.key digest) source).1 key = some bytes := createOnly_kept held
  have does : Stores s3Manners (store.view objects) (.put digest source)
      (store.view (createOnly objects (store.key digest) source).1)
      (.stored (createOnly objects (store.key digest) source).2) :=
    does_put ⟨digest, source, .sending, created⟩ store objects (.inl rfl)
  cases held : objects (store.key digest) with
  | none =>
      have unwritten : created = none := by
        cases created with
        | none => rfl
        | some outcome => simpa [held] using (fits outcome rfl).2
      subst unwritten
      have written : (createOnly objects (store.key digest) source).2 = .created :=
        (createOnly_outcome source).mpr held
      simp only [written] at does
      simp only [send, written, if_true, response, S3Store.stored, ended]
      exact ⟨kept, .inl rfl, .acts _ _ rfl does rfl⟩
  | some bytes =>
      have found : createOnly objects (store.key digest) source = (objects, .alreadyExists) := by
        simp only [createOnly, held]
      simp only [found] at does
      simp only [send, found, reduceCtorEq, if_false, response, S3Store.stored, ended, if_true]
      cases created with
      | none => exact ⟨fun _ _ present => present, .inr rfl, .acts _ _ rfl does rfl⟩
      | some outcome =>
          obtain ⟨rfl, -⟩ := fits outcome rfl
          exact .quiet (.inl rfl) rfl

theorem lost_proceeds (sending : put.stage = .sending) (fits : put.Fits store objects) (served again : Bool) :
    put.Proceeds store objects (put.send store objects (.lost served again)) := by
  have next : (if again then S3PutStage.sending else .failed) = .sending ∨
      (if again then S3PutStage.sending else .failed) = .failed := by
    cases again <;> simp
  cases served with
  | false =>
      simp only [send, Bool.false_eq_true, if_false, reduceCtorEq]
      exact unserved_proceeds sending fits next
  | true =>
      cases held : objects (store.key put.digest) with
      | some bytes =>
          simp only [send, if_true, createOnly, held, reduceCtorEq, if_false]
          exact unserved_proceeds sending fits next
      | none =>
          have does := does_put put store objects (.inr rfl)
          have written : (createOnly objects (store.key put.digest) put.source).2 = .created :=
            (createOnly_outcome put.source).mpr held
          have present : ((createOnly objects (store.key put.digest) put.source).1
              (store.key put.digest)).isSome := by
            simp [createOnly, held]
          obtain ⟨digest, source, stage, created⟩ := put
          cases sending
          have unwritten : created = none := by
            cases created with
            | none => rfl
            | some outcome => simpa [held] using (fits outcome rfl).2
          subst unwritten
          simp only [send, if_true, written]
          refine ⟨fun key bytes => createOnly_kept, ?_, .acts _ _ rfl does rfl⟩
          rcases next with same | same
          · rw [same]
            intro outcome told
            cases told
            exact ⟨rfl, present⟩
          · rw [same]
            trivial

theorem send_proceeds (sending : put.stage = .sending) (fits : put.Fits store objects) (reply : S3Reply) :
    put.Proceeds store objects (put.send store objects reply) := by
  cases reply with
  | served sized => exact served_proceeds sending fits sized
  | lost served again => exact lost_proceeds sending fits served again
  | noBucket =>
      simp only [send, S3Store.stored, Option.some.injEq, Nat.reduceEqDiff, if_false, ended]
      exact unserved_proceeds sending fits (.inr rfl)
  | refused status =>
      simp only [send]
      split
      next => exact .quiet fits rfl
      next other =>
        have error : (some status : Option Nat) ≠ some 412 := fun same =>
          other (.inr (Option.some.inj same))
        simp only [S3Store.stored, error, if_false, ended]
        exact unserved_proceeds sending fits (.inr rfl)

theorem advance_proceeds (fits : put.Fits store objects) (fails : Bool) (reply : S3Reply) :
    put.Proceeds store objects (put.advance store objects fails reply) := by
  cases stage : put.stage with
  | opening =>
      obtain ⟨digest, source, _, created⟩ := put
      cases stage
      obtain rfl : created = none := fits
      cases fails with
      | true => exact .quiet trivial rfl
      | false => exact .quiet (fun outcome same => by cases same) rfl
  | sending =>
      simp only [advance, stage]
      exact send_proceeds stage fits reply
  | answered outcome =>
      simp only [advance, stage]
      exact .quiet fits rfl
  | failed =>
      simp only [advance, stage]
      exact .quiet fits rfl

end S3Put

namespace S3Get

def stageOf (get : S3Get) : (storage s3Manners).Stage :=
  match get.stage with
  | .answered found => .acted (.get get.digest) (.found (found.map Prod.snd))
  | .sending | .failed => .waiting (.get get.digest)

def ending : S3GetStage → Option (Option BlobAnswer)
  | .answered found => some (some (.found (found.map Prod.snd)))
  | .failed => some none
  | .sending => none

def Sized (get : S3Get) : Prop :=
  ∀ size bytes, get.stage = .answered (some (size, bytes)) → size.toNat = bytes.length

variable {get : S3Get} {store : S3Store} {objects : String → Option Bytes}

theorem told {answer : BlobAnswer} (answered : ending get.stage = some (some answer)) :
    get.stageOf = .acted (.get get.digest) answer := by
  obtain ⟨digest, stage⟩ := get
  cases stage <;> cases answered
  rfl

theorem served_advances (sending : get.stage = .sending) (sized : Bool) :
    (get.advance store objects (.served sized)).Sized ∧
      Furthers stageOf (store.view objects) (store.view objects) get
        (get.advance store objects (.served sized)) := by
  obtain ⟨digest, stage⟩ := get
  cases sending
  have does (found : Option (UInt64 × Bytes))
      (same : found.map Prod.snd = objects (store.key digest)) :
      Stores s3Manners (store.view objects) (.get digest) (store.view objects)
        (.found (found.map Prod.snd)) := by
    rw [same]
    exact .get (Set.notMem_empty digest)
  simp only [advance]
  cases held : objects (store.key digest) with
  | none =>
      rw [S3Store.got_missing]
      exact ⟨fun _ _ same => (by cases same), .acts _ _ rfl (does none held.symm) rfl⟩
  | some bytes =>
      cases answered : S3Store.got (response sized (some bytes)) with
      | error failure => exact ⟨fun _ _ same => (by cases same), .stays rfl rfl⟩
      | ok found =>
          obtain ⟨size, rfl, whole⟩ := S3Store.got_present answered
          refine ⟨fun size' bytes' same => ?_, ?_⟩
          · cases same
            exact whole
          · exact .acts _ _ rfl (does (some (size, bytes)) held.symm) rfl

theorem advance_advances (store : S3Store) (objects : String → Option Bytes) (holds : get.Sized)
    (reply : S3Reply) :
    (get.advance store objects reply).Sized ∧
      Furthers stageOf (store.view objects) (store.view objects) get
        (get.advance store objects reply) := by
  cases stage : get.stage with
  | sending =>
      cases reply with
      | served sized => exact served_advances stage sized
      | lost served again =>
          obtain ⟨digest, _⟩ := get
          cases stage
          cases again <;> exact ⟨fun _ _ same => (by cases same), .stays rfl rfl⟩
      | noBucket =>
          obtain ⟨digest, _⟩ := get
          cases stage
          simp only [advance, S3Store.got, if_true, ended]
          exact ⟨fun _ _ same => (by cases same), .stays rfl rfl⟩
      | refused status =>
          obtain ⟨digest, _⟩ := get
          cases stage
          simp only [advance]
          split
          next => exact ⟨holds, .stays rfl rfl⟩
          next other =>
            have error : (some status == some 404) = false := by
              simpa using fun same => other (.inl same)
            simp only [S3Store.got, reduceCtorEq, if_false, Bool.false_or, error,
              Bool.false_eq_true, ended]
            exact ⟨fun _ _ same => (by cases same), .stays rfl rfl⟩
  | answered found =>
      simp only [advance, stage]
      exact ⟨holds, .stays rfl rfl⟩
  | failed =>
      simp only [advance, stage]
      exact ⟨holds, .stays rfl rfl⟩

end S3Get

namespace S3Call

def stageOf : S3Call → (storage s3Manners).Stage
  | .put call => call.stageOf
  | .get call => call.stageOf

def ended : S3Call → Option (Option BlobAnswer)
  | .put call => S3Put.ending call.stage
  | .get call => S3Get.ending call.stage

def Fits (store : S3Store) (objects : String → Option Bytes) : S3Call → Prop
  | .put call => call.Fits store objects
  | .get call => call.Sized

variable {call : S3Call} {store : S3Store} {objects : String → Option Bytes}

theorem Fits.told (fits : call.Fits store objects) {answer : BlobAnswer}
    (answered : call.ended = some (some answer)) :
    ∃ request, call.stageOf = .acted request answer := by
  cases call with
  | put put => exact ⟨_, S3Put.Fits.told fits answered⟩
  | get get => exact ⟨_, S3Get.told answered⟩

theorem Fits.within (fits : call.Fits store objects) {after : String → Option Bytes}
    (kept : ∀ key bytes, objects key = some bytes → after key = some bytes) :
    call.Fits store after := by
  cases call with
  | put put => exact S3Put.Fits.within fits kept
  | get get => exact fits

end S3Call

namespace S3Bucket

def notices (store : S3Store) (bucket : S3Bucket) : S3Move → List (storage s3Manners).Notice
  | .put digest source => [.called bucket.calls.length (.put digest source)]
  | .get digest => [.called bucket.calls.length (.get digest)]
  | .advance id fails reply =>
      match bucket.calls[id]?, (bucket.step store (.advance id fails reply)).calls[id]? with
      | some before, some after => ending S3Call.ended id before after
      | _, _ => []

def service (store : S3Store) : Implementation (storage s3Manners) where
  State := S3Bucket
  Move := S3Move
  step := step store
  notices := notices store

def Sound (store : S3Store) (bucket : S3Bucket) : Prop :=
  ∀ call ∈ bucket.calls, call.Fits store bucket.objects

def atomic (store : S3Store) (bucket : S3Bucket) : (storage s3Manners).Atomic :=
  ⟨store.view bucket.objects, stages S3Call.stageOf bucket.calls⟩

variable {store : S3Store} {bucket : S3Bucket}

structure Progress (store : S3Store) (bucket : S3Bucket) (id : Nat) (call next : S3Call)
    (after : S3Bucket) : Prop where
  calls : after.calls = bucket.calls.set id next
  kept : ∀ key bytes, bucket.objects key = some bytes → after.objects key = some bytes
  fits : next.Fits store after.objects
  advances : Furthers S3Call.stageOf (store.view bucket.objects) (store.view after.objects) call next

theorem advance_progress {call : S3Call}
    (fits : call.Fits store bucket.objects) (id : Nat) (fails : Bool) (reply : S3Reply) :
    ∃ next, Progress store bucket id call next (bucket.advance store id fails reply call) := by
  cases call with
  | put call =>
      obtain ⟨kept, fits, advances⟩ := S3Put.advance_proceeds fits fails reply
      refine ⟨.put (call.advance store bucket.objects fails reply).2, rfl, kept, fits, ?_⟩
      cases advances with
      | stays same unchanged => exact .stays same unchanged
      | begins request waiting begins same => exact .begins request waiting begins same
      | acts request answer waiting does acted => exact .acts request answer waiting does acted
  | get call =>
      obtain ⟨fits, advances⟩ := S3Get.advance_advances store bucket.objects fits reply
      refine ⟨.get (call.advance store bucket.objects reply), rfl, fun _ _ held => held, fits, ?_⟩
      cases advances with
      | stays same unchanged => exact .stays same unchanged
      | begins request waiting begins same => exact .begins request waiting begins same
      | acts request answer waiting does acted => exact .acts request answer waiting does acted

theorem Progress.sound {id : Nat} {call next : S3Call} {after : S3Bucket}
    (progress : Progress store bucket id call next after) (sound : bucket.Sound store) :
    after.Sound store := by
  intro other member
  rw [progress.calls] at member
  rcases List.mem_or_eq_of_mem_set member with old | rfl
  · exact (sound other old).within progress.kept
  · exact progress.fits

theorem concat_sound (sound : bucket.Sound store) (call : S3Call)
    (fits : call.Fits store bucket.objects) :
    Sound store { bucket with calls := bucket.calls ++ [call] } := by
  intro other member
  rcases List.mem_append.mp member with old | new
  · exact sound other old
  · exact List.mem_singleton.mp new ▸ fits

theorem step_sound (sound : bucket.Sound store)
    (move : S3Move) : (bucket.step store move).Sound store := by
  cases move with
  | put digest source => exact concat_sound sound (.put _) rfl
  | get digest => exact concat_sound sound (.get _) fun _ _ same => by cases same
  | advance id fails reply =>
      simp only [step]
      cases found : bucket.calls[id]? with
      | none => exact sound
      | some call =>
          obtain ⟨next, progress⟩ := advance_progress
            (sound call (List.mem_of_getElem? found)) id fails reply
          exact progress.sound sound

/-- A bucket in use is an object that each call acts on at one moment. -/
theorem refines (store : S3Store) :
    (service store).Refines (Sound store) (atomic store) where
  keeps _ move sound := step_sound sound move
  simulates bucket move sound := by
    cases move with
    | put digest source =>
        exact ⟨_, rfl, steps_called S3Call.stageOf (store.view bucket.objects) bucket.calls rfl⟩
    | get digest =>
        exact ⟨_, rfl, steps_called S3Call.stageOf (store.view bucket.objects) bucket.calls rfl⟩
    | advance id fails reply =>
        cases found : bucket.calls[id]? with
        | none =>
            refine ⟨[], ?_, ?_⟩
            · simp only [service, notices, found]
              rfl
            · simp only [service, step, found]
              exact .none
        | some call =>
            obtain ⟨next, progress⟩ := advance_progress
              (sound call (List.mem_of_getElem? found)) id fails reply
            have after : bucket.step store (.advance id fails reply) =
                bucket.advance store id fails reply call := by simp only [step, found]
            have there : (bucket.advance store id fails reply call).calls[id]? = some next := by
              rw [progress.calls]
              exact List.getElem?_set_self (List.getElem?_eq_some_iff.mp found).1
            obtain ⟨acts, seen, steps⟩ := progress.advances.steps S3Call.ended found
              fun answer ended => progress.fits.told ended
            refine ⟨acts, ?_, ?_⟩
            · simp only [service, notices, after, found, there]
              exact seen
            · simp only [service, after, atomic, progress.calls]
              exact steps

end S3Bucket

/-- Puts and gets of an S3 bucket, however their requests interleave, fail, are sent again or
lose their responses, act one after another, and a get tells the size of what it found. -/
theorem S3Store.puts_serialized (store : S3Store) (objects : String → Option Bytes)
    (moves : List S3Move) :
    Serialized (S3Bucket.service store) (fun bucket => store.view bucket.objects) ⟨objects, []⟩
        moves ∧
      ∀ get size bytes,
        .get get ∈ ((S3Bucket.service store).run ⟨objects, []⟩ moves).calls →
        get.stage = .answered (some (size, bytes)) → size.toNat = bytes.length := by
  have refines := S3Bucket.refines store
  have unused : S3Bucket.Sound store ⟨objects, []⟩ := fun call member => by cases member
  refine ⟨.of_refines refines unused (fun _ => rfl) moves, fun get size bytes member => ?_⟩
  exact (refines.run unused moves).1 (.get get) member size bytes

end MbxCache
