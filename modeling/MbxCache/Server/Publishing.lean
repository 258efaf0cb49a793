import MbxCache.Server.Awaits

namespace MbxCache

open Concurrent

variable [Protocol]

omit [Protocol] in
theorem kindAndVersion_declared {label : String} {value : Json} {kind : String}
    {version : UInt64} (read : kindAndVersion label value = .ok (kind, version)) :
    declaredKind value = some kind := by
  unfold kindAndVersion at read
  split at read
  · cases read
  · rename_i fields object
    split at read
    · cases read
    · rename_i found named
      split at read
      · cases read
      · cases read
        rw [declaredKind, object]
        exact named

omit [Protocol] in
theorem decodeValid_decoded {A : Type} {label : String} {decode : Json → Except String A}
    {valid : A → Bool} {value : Json} {record : A}
    (read : decodeValid label decode valid value = .ok record) : decode value = .ok record := by
  unfold decodeValid at read
  split at read
  · cases read
  · rename_i found decoded
    split at read
    · cases read
      exact decoded
    · cases read

section
variable {value : Json} {version : UInt64} {kind : ActionKind}

theorem validateBuildScriptAction_kind
    (checked : validateBuildScriptAction value version = .ok kind) : kind = .buildScript := by
  simp only [validateBuildScriptAction, bind, Except.bind] at checked
  split at checked
  · cases checked
  · split at checked <;> cases checked
    rfl

theorem validateCcAction_kind (checked : validateCcAction value version = .ok kind) :
    kind = .cc := by
  simp only [validateCcAction, bind, Except.bind] at checked
  split at checked
  · cases checked
  · split at checked <;> cases checked
    rfl

theorem validateTaskAction_kind (checked : validateTaskAction value version = .ok kind) :
    kind = .task := by
  simp only [validateTaskAction, bind, Except.bind] at checked
  split at checked
  · cases checked
  · split at checked
    · cases checked
    · split at checked <;> cases checked
      rfl

theorem validateRustcAction_kind (checked : validateRustcAction value version = .ok kind) :
    kind = .rustc := by
  simp only [validateRustcAction, bind, Except.bind] at checked
  split at checked
  · cases checked
  · split at checked <;> cases checked
    rfl

/-- The kind a descriptor is accepted as is the one it declares. -/
theorem descriptorKind_declared (checked : descriptorKind value = .ok kind) :
    declaredKind value = some kind.name := by
  simp only [descriptorKind, bind, Except.bind] at checked
  split at checked
  · cases checked
  · rename_i pair read
    obtain ⟨found, version⟩ := pair
    have declared := kindAndVersion_declared read
    simp only at checked
    split at checked
    · rename_i same
      rw [validateBuildScriptAction_kind checked, declared, same]
      rfl
    · split at checked
      · rename_i same
        rw [validateCcAction_kind checked, declared, same]
        rfl
      · split at checked
        · rename_i same
          rw [validateTaskAction_kind checked, declared, same]
          rfl
        · split at checked
          · rename_i same
            rw [validateRustcAction_kind checked, declared, same]
            rfl
          · cases checked

omit [Protocol] in
theorem metadataVersion_declared (checked : metadataVersion kind value = .ok version) :
    declaredKind value = some kind.name := by
  simp only [metadataVersion, bind, Except.bind] at checked
  split at checked
  · cases checked
  · rename_i pair read
    have declared := kindAndVersion_declared read
    split at checked
    · cases checked
    · rename_i same
      rw [declared, not_not.mp same]

theorem parseCanonicalObject_parsed {label : String} {bytes : Bytes}
    (parsed : parseCanonicalObject label bytes = .ok value) :
    Protocol.parseValue bytes = some value := by
  unfold parseCanonicalObject at parsed
  split at parsed
  · cases parsed
  · rename_i found read
    split at parsed
    · cases parsed
    · cases parsed
      exact read

theorem parseDirectory_parsed {bytes : Bytes} {directory : Directory}
    (parsed : parseDirectory bytes = .ok directory) :
    Protocol.parseDirectory bytes = some directory := by
  simp only [parseDirectory, bind, Except.bind] at parsed
  split at parsed
  · cases parsed
  · rename_i found read
    split at parsed
    · cases parsed
    · split at parsed
      · cases parsed
      · split at parsed
        · cases parsed
        · split at parsed <;> cases parsed
          exact read

end

section Reading
variable {M : Type} [MetadataStore M] {ns : String} {state : Shared M}

theorem readVisible_ensures (digest : Digest) (missing : ApiError) :
    (readVisible ns digest missing).Ensures ns
      (fun bytes after => after.Sees ns digest ∧ after.blobs digest = some bytes) state := by
  apply Handler.Ensures.bind (isVisible_ensures digest)
  intro visible after _ seen
  cases visible with
  | false => exact .refuse
  | true =>
      apply Handler.Ensures.bind (fetch_ensures (seen rfl))
      rintro found last grows ⟨bytes, cuts, broken, stored, rfl⟩
      apply Handler.Ensures.check
      intro content final more read
      simp only [readStream] at read
      cases given : (ByteStream.opened bytes cuts broken).read with
      | error error =>
          rw [given] at read
          cases read
      | ok whole =>
          rw [given] at read
          cases read
          rw [ByteStream.opened_read given]
          exact ⟨more.rows ns digest (grows.rows ns digest (seen rfl)),
            more.blobs digest bytes stored⟩

theorem readCanonicalObject_ensures (digest : Digest) (label : String) :
    (readCanonicalObject ns digest label).Ensures ns
      (fun value after => after.Sees ns digest ∧ objectAt after.blobs digest = some value)
      state := by
  apply Handler.Ensures.bind Handler.Ensures.pureStep
  intro _ _ _ _
  split
  · exact .refuse
  · apply Handler.Ensures.bind (readVisible_ensures digest _)
    rintro bytes after _ ⟨seen, stored⟩
    apply Handler.Ensures.check
    intro value last grows parsed
    refine ⟨grows.rows ns digest seen, Option.bind_eq_some_iff.mpr ⟨bytes, ?_, ?_⟩⟩
    · exact grows.blobs digest bytes stored
    · exact parseCanonicalObject_parsed parsed

theorem validateActionDescriptor_ensures (action : Digest) :
    (validateActionDescriptor ns action).Ensures ns
      (fun kind after => after.SeesDescriptor ns kind action) state := by
  apply Handler.Ensures.bind (readCanonicalObject_ensures action _)
  rintro value after _ ⟨seen, stored⟩
  apply Handler.Ensures.check
  intro kind last grows checked
  exact ⟨grows.rows ns action seen, value, ServerState.objectAt_grows grows stored,
    descriptorKind_declared checked⟩

theorem requireBlob_ensures (digest : Digest) (label : String) :
    (requireBlob ns digest label).Ensures ns (fun _ after => after.Sees ns digest) state := by
  apply Handler.Ensures.bind Handler.Ensures.pureStep
  intro _ _ _ _
  apply Handler.Ensures.bind (isVisible_ensures digest)
  intro visible after _ seen
  cases visible with
  | false => exact .refuse
  | true => exact .pure fun last grows => grows.rows ns digest (seen rfl)

theorem requireOutputBlobs_ensures (stdout stderr : Digest) (kind : String) :
    (requireOutputBlobs ns stdout stderr kind).Ensures ns
      (fun _ after => after.Sees ns stdout ∧ after.Sees ns stderr) state := by
  apply Handler.Ensures.bind (requireBlob_ensures stdout _)
  intro _ after _ first
  apply Handler.Ensures.mono ((requireBlob_ensures stderr _).remember)
  rintro _ last ⟨grows, second⟩
  exact ⟨grows.rows ns stdout first, second⟩

theorem validateOutputs_ensures {A : Type} (kind : String) (decode : Json → Except String A)
    (valid : A → Bool) (stdout stderr : A → Digest) (value : Json) (version : UInt64) :
    (validateOutputs ns kind decode valid stdout stderr value version).Ensures ns
      (fun _ after => ∃ record, decode value = .ok record ∧ after.Sees ns (stdout record) ∧
        after.Sees ns (stderr record)) state := by
  unfold validateOutputs
  split
  · exact .refuse
  · apply Handler.Ensures.bind Handler.Ensures.pureStep
    intro record _ _ decoded
    apply Handler.Ensures.mono (requireOutputBlobs_ensures (stdout record) (stderr record) kind)
    intro _ after seen
    exact ⟨record, decodeValid_decoded decoded, seen⟩

theorem seesMetadata {digest : Digest} {value : Json} {kind : ActionKind} {version : UInt64}
    {read after : ServerState M} (grows : ServerState.Grows read after)
    (seen : read.Sees ns digest) (stored : objectAt read.blobs digest = some value)
    (checked : metadataVersion kind value = .ok version)
    (outputs : kind ≠ .task → ∃ stdout stderr, outputBlobs kind value = some (stdout, stderr) ∧
      after.Sees ns stdout ∧ after.Sees ns stderr) : after.SeesMetadata ns kind digest :=
  ⟨grows.rows ns digest seen, value, ServerState.objectAt_grows grows stored,
    metadataVersion_declared checked, outputs⟩

theorem validateClientMetadata_ensures (digest : Digest) (kind : ActionKind) :
    (validateClientMetadata ns digest kind).Ensures ns
      (fun _ after => after.SeesMetadata ns kind digest) state := by
  apply Handler.Ensures.bind (readCanonicalObject_ensures digest _)
  rintro value read _ ⟨seen, stored⟩
  apply Handler.Ensures.bind Handler.Ensures.pureStep
  intro version checkedState grows checked
  cases kind with
  | task =>
      apply Handler.Ensures.check
      intro _ after more _
      exact seesMetadata (grows.trans more) seen stored checked fun compiler => absurd rfl compiler
  | buildScript =>
      apply Handler.Ensures.mono (validateOutputs_ensures "build-script" _ _ _ _ value version).remember
      rintro _ after ⟨more, record, decoded, outputs⟩
      exact seesMetadata (grows.trans more) seen stored checked fun _ =>
        ⟨_, _, by simp [outputBlobs, decoded, Except.toOption], outputs⟩
  | cc =>
      apply Handler.Ensures.mono (validateOutputs_ensures "cc" _ _ _ _ value version).remember
      rintro _ after ⟨more, record, decoded, outputs⟩
      exact seesMetadata (grows.trans more) seen stored checked fun _ =>
        ⟨_, _, by simp [outputBlobs, decoded, Except.toOption], outputs⟩
  | rustc =>
      apply Handler.Ensures.mono (validateOutputs_ensures "rustc" _ _ _ _ value version).remember
      rintro _ after ⟨more, record, decoded, outputs⟩
      exact seesMetadata (grows.trans more) seen stored checked fun _ =>
        ⟨_, _, by simp [outputBlobs, decoded, Except.toOption], outputs⟩

end Reading
end MbxCache
