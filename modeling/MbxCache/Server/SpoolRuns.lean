import MbxCache.Server.PackSpool

namespace MbxCache

open Concurrent Pack

inductive UploadRequest
  | blob (headers : Headers) (parts : String × String × UInt64) (body : Body)
  | pack (headers : Headers) (body : Body)

def Lease.length (lease : Lease) : Nat := (lease.file.map List.length).getD 0

theorem Lease.Covered.length {lease : Lease} (covered : lease.Covered true) :
    lease.length ≤ 1024 * lease.permits := by
  have permits : lease.bytes.toNat ≤ 1024 * lease.permits := covered.permits
  unfold Lease.length
  cases file : lease.file with
  | none => exact Nat.zero_le _
  | some bytes =>
      have within := covered.file bytes file
      simp only [Option.map_some, Option.getD_some]
      omega

section
variable [Protocol]

def UploadRequest.program (config : ServerConfig) : UploadRequest → Spooler Response
  | .blob headers parts body => Spool.putBlob config headers parts body
  | .pack headers body => Spool.putBlobPack config headers body

end

structure SpoolRun (M : Type) [Protocol] [MetadataStore M] where
  config : ServerConfig
  maxSpoolBytes : UInt64
  server : ServerState M
  events : List (Event UploadRequest SpoolChoice)

namespace SpoolRun

abbrev Uploads (M : Type) [Protocol] [MetadataStore M] : Type :=
  (spoolEstate M).Pool (Except ApiError Response)

variable {M : Type} [Protocol] [MetadataStore M]

variable (run : SpoolRun M)

def after (events : List (Event UploadRequest SpoolChoice)) : Uploads M :=
  Estate.Pool.run (UploadRequest.program run.config)
    ⟨⟨run.server, spoolBudget run.maxSpoolBytes⟩, []⟩ events

def uploads : Uploads M := run.after run.events

def leases : List Lease := (run.uploads.owners.map Owner.holdings).flatten

def spooled : Nat := (run.leases.map Lease.length).sum

def bounded : Bool := 0 < run.maxSpoolBytes

def accounts : Ledger (spoolEstate M) := spoolLedger run.bounded fun _ _ => True

variable {run : SpoolRun M}

theorem request_safe (run : SpoolRun M) (request : UploadRequest) :
    run.accounts.Safe (request.program run.config) (fun _ after => after.hand = [])
      ⟨[], [], []⟩ := by
  cases request with
  | blob headers parts body =>
      exact Spool.putBlob_safe run.config headers parts body rfl fun _ _ _ => trivial
  | pack headers body =>
      exact Intake.putBlobPack_safe run.config headers body fun _ _ _ _ {_ _ _ _} _ _ _ => trivial

theorem budget_isSome (run : SpoolRun M) :
    (spoolBudget run.maxSpoolBytes).isSome = run.bounded := by
  unfold spoolBudget bounded
  split <;> simp_all

/-- Whatever happens, every permit is left or held by somebody, under the rules. -/
theorem accounted (run : SpoolRun M) (events : List (Event UploadRequest SpoolChoice)) :
    run.accounts.Sound (fun _ after => after.hand = []) (run.after events) ∧
      run.accounts.wealth (run.after events) = (spoolBudget run.maxSpoolBytes).getD 0 := by
  have start : run.accounts.Sound (fun (_ : Except ApiError Response) after => after.hand = [])
      ⟨⟨run.server, spoolBudget run.maxSpoolBytes⟩, []⟩ :=
    ⟨run.budget_isSome, nofun⟩
  exact start.run run.request_safe events

/-- What is spooled is covered by the permits that are held. -/
theorem spooled_le (limited : run.bounded = true) (sound : run.accounts.Sound
    (fun (_ : Except ApiError Response) after => after.hand = []) run.uploads) :
    run.spooled ≤ 1024 * run.accounts.wealth run.uploads := by
  have covered : ∀ lease ∈ run.leases, lease.length ≤ 1024 * lease.permits := by
    intro lease member
    obtain ⟨_, among, held⟩ := List.mem_flatten.mp member
    obtain ⟨owner, present, rfl⟩ := List.mem_map.mp among
    have good := (sound.owners owner present).good lease held
    apply Lease.Covered.length
    rw [← limited]
    exact good
  calc run.spooled
      ≤ (run.leases.map fun lease => 1024 * lease.permits).sum := List.sum_le_sum covered
    _ = 1024 * (run.leases.map Lease.permits).sum := List.sum_map_mul_left _ _ _
    _ = 1024 * (run.uploads.owners.map fun owner => run.accounts.total owner.holdings).sum := by
        have parts := Ledger.total_flatten (D := run.accounts)
          (run.uploads.owners.map Owner.holdings)
        rw [List.map_map] at parts
        exact congrArg (1024 * ·) parts
    _ ≤ 1024 * run.accounts.wealth run.uploads :=
        Nat.mul_le_mul_left _ (Nat.le_add_left _ _)

/-- The spool is accounted for at every moment, whatever uploads come, however they are read and
stored, and however they end: the files that exist fit the budget, each of them its reservation;
an upload that is refused room changes nothing for others; and when all have ended, the budget is
whole again. -/
theorem spool_accounted (run : {run : SpoolRun M // 0 < run.maxSpoolBytes}) :
    run.1.spooled ≤ 1024 * ((run.1.maxSpoolBytes.toNat + 1023) / 1024) ∧
    (∀ lease ∈ run.1.leases, ∀ file, lease.file = some file →
      file.length ≤ lease.bytes.toNat) ∧
    (∀ id owner bytes next error choice, run.1.uploads.owners[id]? = some owner →
      owner.process.dropped = false → owner.process.main = .call (.reserve bytes) next →
      Spool.reserved run.1.uploads.shared.available bytes = .error error →
        run.1.after (run.1.events ++ [.turn id (.move (.main choice))]) =
          ⟨run.1.uploads.shared, run.1.uploads.owners.set id
            { owner with process := { owner.process with main := next (.error error) } }⟩) ∧
    ((∀ owner ∈ run.1.uploads.owners, owner.Ended) →
      run.1.uploads.shared.available = spoolBudget run.1.maxSpoolBytes) := by
  obtain ⟨run, positive⟩ := run
  simp only
  obtain ⟨sound, whole⟩ := run.accounted run.events
  have limited : run.bounded = true := by simpa [bounded] using positive
  refine ⟨?_, ?_, ?_, ?_⟩
  · have most : (spoolBudget run.maxSpoolBytes).getD 0 ≤ permitsFor run.maxSpoolBytes := by
      simp only [spoolBudget, if_pos positive, Option.getD_some]
      exact Nat.min_le_left _ _
    calc run.spooled
        ≤ 1024 * run.accounts.wealth run.uploads := spooled_le limited sound
      _ = 1024 * (spoolBudget run.maxSpoolBytes).getD 0 := congrArg (1024 * ·) whole
      _ ≤ 1024 * permitsFor run.maxSpoolBytes := Nat.mul_le_mul_left _ most
  · intro lease member
    obtain ⟨_, among, held⟩ := List.mem_flatten.mp member
    obtain ⟨owner, present, rfl⟩ := List.mem_map.mp among
    exact ((sound.owners owner present).good lease held).file
  · intro id owner bytes next error choice present live head refused
    have stepped : run.after (run.events ++ [.turn id (.move (.main choice))]) =
        run.uploads.step (UploadRequest.program run.config) (.turn id (.move (.main choice))) := by
      unfold uploads after Estate.Pool.run
      rw [List.foldl_append]
      rfl
    rw [stepped]
    simp only [Estate.Pool.step, present, Estate.step, live, Estate.stepMain, head, Spool.exec,
      refused]
    rfl
  · intro ended
    have idle : ∀ owner ∈ run.uploads.owners, run.accounts.total owner.holdings = 0 := by
      intro owner among
      rw [(sound.owners owner among).settled (ended owner among) fun _ _ empty => empty]
      rfl
    have none : (run.uploads.owners.map fun owner => run.accounts.total owner.holdings).sum = 0 := by
      apply List.sum_eq_zero
      intro held member
      obtain ⟨owner, among, rfl⟩ := List.mem_map.mp member
      exact idle owner among
    have left : run.uploads.shared.available.getD 0 = (spoolBudget run.maxSpoolBytes).getD 0 := by
      rw [← whole, Ledger.wealth]
      exact (congrArg (run.uploads.shared.available.getD 0 + ·) none).symm
    have some : run.uploads.shared.available.isSome = (spoolBudget run.maxSpoolBytes).isSome :=
      sound.ready.trans run.budget_isSome.symm
    generalize run.uploads.shared.available = available at left some
    generalize spoolBudget run.maxSpoolBytes = budget at left some
    cases available <;> cases budget <;> simp_all

end SpoolRun
end MbxCache
