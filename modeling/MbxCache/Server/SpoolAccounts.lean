import MbxCache.Pack.Received
import MbxCache.Server.Spool

namespace MbxCache

open Concurrent Pack

/-- A reservation whose permits cover its bytes, or that has none where the spool has no bounds,
and whose file stays within its bytes. -/
structure Lease.Covered (bounded : Bool) (lease : Lease) : Prop where
  permits : if bounded then lease.bytes.toNat ≤ 1024 * lease.permits else lease.permits = 0
  file : ∀ file, lease.file = some file → file.length ≤ lease.bytes.toNat

namespace Spool

variable {bounded : Bool} {hand : List Lease}

theorem permitsFor_covers (bytes : UInt64) : bytes.toNat ≤ 1024 * permitsFor bytes := by
  unfold permitsFor
  omega

theorem reserved_accounted {available left : Option Nat} {bytes : UInt64} {lease : Lease}
    (ready : available.isSome = bounded) (granted : reserved available bytes = .ok (left, lease)) :
    left.isSome = bounded ∧ lease.Covered bounded ∧
      (lease.bytes = bytes ∧ lease.permits ≤ permitsFor bytes ∧ lease.file = none) ∧
      left.getD 0 + lease.permits = available.getD 0 := by
  unfold reserved at granted
  cases available with
  | none =>
      cases granted
      refine ⟨ready, ⟨?_, nofun⟩, ⟨rfl, Nat.zero_le _, rfl⟩, rfl⟩
      rw [← ready]
      rfl
  | some room =>
      simp only at granted
      split at granted
      · cases granted
      · split at granted
        · cases granted
        · rename_i enough
          cases granted
          refine ⟨ready, ⟨?_, nofun⟩, ⟨rfl, Nat.le_refl _, rfl⟩, ?_⟩
          · rw [← ready]
            exact permitsFor_covers bytes
          · simp only [Option.getD_some]
            omega

theorem edit_permits (change : Option Bytes → Option Bytes) (hand : List Lease) :
    (edit change hand).map Lease.permits = hand.map Lease.permits := by
  cases hand <;> rfl

theorem edit_covered {change : Option Bytes → Option Bytes}
    (covered : ∀ lease ∈ hand, lease.Covered bounded)
    (within : ∀ lease ∈ hand.head?, ∀ file, change lease.file = some file →
      file.length ≤ lease.bytes.toNat) : ∀ lease ∈ edit change hand, lease.Covered bounded := by
  cases hand with
  | nil => exact covered
  | cons first rest =>
      intro lease member
      rcases List.mem_cons.mp member with rfl | old
      · exact ⟨(covered first List.mem_cons_self).permits, within first rfl⟩
      · exact covered lease (List.mem_cons_of_mem _ old)

theorem remove_permits (hand : List Lease) (place : Nat) :
    (hand.modify place fun lease => { lease with file := none }).map Lease.permits =
      hand.map Lease.permits := by
  induction hand generalizing place with
  | nil => cases place <;> rfl
  | cons first rest ih =>
      cases place with
      | zero => rfl
      | succ place => exact congrArg (first.permits :: ·) (ih place)

theorem remove_covered (covered : ∀ lease ∈ hand, lease.Covered bounded) (place : Nat) :
    ∀ lease ∈ hand.modify place fun lease => { lease with file := none },
      lease.Covered bounded := by
  induction hand generalizing place with
  | nil =>
      cases place <;> exact nofun
  | cons first rest ih =>
      have others := fun lease member => covered lease (List.mem_cons_of_mem first member)
      have head := covered first List.mem_cons_self
      cases place with
      | zero =>
          intro lease member
          rcases List.mem_cons.mp member with rfl | old
          · exact ⟨head.permits, nofun⟩
          · exact others lease old
      | succ place =>
          intro lease member
          rcases List.mem_cons.mp member with rfl | old
          · exact head
          · exact ih others place lease old

/-- Permits are given back as they were taken, where the file has been removed before. -/
theorem released_accounted {available : Option Nat} {place : Nat}
    (ready : available.isSome = bounded) (covered : ∀ lease ∈ hand, lease.Covered bounded)
    (removed : ∀ lease, hand[place]? = some lease → lease.file = none) :
    (released available hand place).1.isSome = bounded ∧
      (∀ lease ∈ (released available hand place).2, lease.Covered bounded) ∧
      (released available hand place).1.getD 0 +
          ((released available hand place).2.map Lease.permits).sum =
        available.getD 0 + (hand.map Lease.permits).sum := by
  unfold released
  cases found : hand[place]? with
  | none => exact ⟨ready, covered, rfl⟩
  | some lease =>
      obtain ⟨bound, here⟩ := List.getElem?_eq_some_iff.mp found
      have total : (hand.map Lease.permits).sum =
          lease.permits + ((hand.eraseIdx place).map Lease.permits).sum := by
        have parts := (List.getElem_cons_eraseIdx_perm bound).map Lease.permits
        rw [← parts.sum_eq, List.map_cons, List.sum_cons, here]
      simp only [removed lease found, Option.isSome_map]
      refine ⟨ready, fun other member => covered other (List.mem_of_mem_eraseIdx member), ?_⟩
      cases available with
      | none =>
          have none := (covered lease (List.mem_of_getElem? found)).permits
          rw [← ready] at none
          have free : lease.permits = 0 := by simpa using none
          rw [total, free, Nat.zero_add]
          rfl
      | some left =>
          simp only [Option.map_some, Option.getD_some]
          omega

end Spool

section Accounts
variable {M : Type} [Protocol] [MetadataStore M]

/-- What an upload may ask: room where there is room, writes within its reservation, and the
permits of a file that is gone. -/
def SpoolOp.Allowed (Room : UInt64 → Trail (spoolEstate M) → Prop) :
    SpoolOp → Trail (spoolEstate M) → Prop
  | .reserve bytes, trail => Room bytes trail
  | .write bytes, trail => ∀ lease ∈ trail.hand.head?, ∀ file, lease.file = some file →
      file.length + bytes.length ≤ lease.bytes.toNat
  | .release place, trail => ∀ lease, trail.hand[place]? = some lease → lease.file = none
  | _, _ => True

def SpoolOp.Stores : SpoolOp → Trail (spoolEstate M) → Prop
  | .base _, _ => True
  | .remove _, _ => True
  | .release place, trail => ∀ lease, trail.hand[place]? = some lease → lease.file = none
  | _, _ => False

def Job.permits : Job → Nat
  | .store _ digest _ => permitsFor digest.size
  | .read _ _ => 0

def Spool.Balanced (bounded : Bool) (before after : SpoolState M × List Lease) : Prop :=
  after.1.available.isSome = bounded ∧ (∀ lease ∈ after.2, lease.Covered bounded) ∧
    after.1.available.getD 0 + (after.2.map Lease.permits).sum =
      before.1.available.getD 0 + (before.2.map Lease.permits).sum

section Steps
variable {bounded : Bool} {state : SpoolState M} {hand : List Lease}

omit [Protocol] [MetadataStore M] in
theorem Spool.disk_balanced (fault : Fault) {done partly : List Lease}
    (ready : state.available.isSome = bounded) (covered : ∀ lease ∈ hand, lease.Covered bounded)
    (finished : ∀ lease ∈ done, lease.Covered bounded)
    (begun : ∀ lease ∈ partly, lease.Covered bounded)
    (same : done.map Lease.permits = hand.map Lease.permits)
    (same' : partly.map Lease.permits = hand.map Lease.permits) :
    Spool.Balanced bounded (state, hand)
      (state, (Spool.attempted fault hand done partly).1) := by
  cases fault with
  | none => exact ⟨ready, finished, by simp only [attempted, same]⟩
  | before failure => exact ⟨ready, covered, rfl⟩
  | after failure => exact ⟨ready, begun, by simp only [attempted, same']⟩

/-- A step of an upload takes permits and gives them back, and neither makes nor loses any. -/
theorem Spool.exec_balanced {Room : UInt64 → Trail (spoolEstate M) → Prop}
    {trail : Trail (spoolEstate M)} (choice : SpoolChoice) {op : SpoolOp}
    (ready : state.available.isSome = bounded)
    (covered : ∀ lease ∈ trail.hand, lease.Covered bounded) (allowed : op.Allowed Room trail) :
    Spool.Balanced bounded (state, trail.hand) (Spool.exec choice op (state, trail.hand)).1 := by
  cases op with
  | reserve bytes =>
      simp only [Spool.exec]
      cases granted : reserved state.available bytes with
      | error error => exact ⟨ready, covered, rfl⟩
      | ok pair =>
          obtain ⟨ready', fits, _, total⟩ := reserved_accounted ready granted
          refine ⟨ready', ?_, ?_⟩
          · intro lease member
            rcases List.mem_cons.mp member with rfl | old
            · exact fits
            · exact covered lease old
          · simp only [List.map_cons, List.sum_cons]
            omega
  | create =>
      have fresh : ∀ lease ∈ edit (fun _ => some []) trail.hand, lease.Covered bounded := by
        apply edit_covered covered
        intro lease _ file created
        cases created
        exact Nat.zero_le _
      exact disk_balanced _ ready covered fresh fresh (edit_permits _ _) (edit_permits _ _)
  | write bytes =>
      have grown : ∀ more : Bytes, more.length ≤ bytes.length →
          ∀ lease ∈ edit (Option.map (· ++ more)) trail.hand, lease.Covered bounded := by
        intro more short
        apply edit_covered covered
        intro lease last file written
        obtain ⟨old, held, rfl⟩ := Option.map_eq_some_iff.mp written
        have room := allowed lease last old held
        rw [List.length_append]
        omega
      exact disk_balanced _ ready covered (grown _ (Nat.le_refl _))
        (grown _ (List.length_take_le' _ _)) (edit_permits _ _) (edit_permits _ _)
  | flush => exact disk_balanced _ ready covered covered covered rfl rfl
  | remove place =>
      refine ⟨ready, remove_covered covered place, ?_⟩
      simp only [Spool.exec, remove_permits]
  | release place => exact released_accounted ready covered allowed
  | base op => exact ⟨ready, covered, rfl⟩

omit [Protocol] [MetadataStore M] in
theorem Spool.letGo_balanced {lease : Lease} (ready : state.available.isSome = bounded)
    (covered : lease.Covered bounded) :
    Spool.Balanced bounded (state, [lease])
      ((Spool.letGo lease state).1, (Spool.letGo lease state).2.toList) := by
  unfold Spool.letGo
  cases file : lease.file with
  | some bytes =>
      refine ⟨ready, ?_, rfl⟩
      intro left member
      rw [List.mem_singleton.mp member]
      exact ⟨covered.permits, nofun⟩
  | none =>
      have gone : released state.available [lease] 0 =
          (state.available.map (· + lease.permits), []) := by
        simp [released, file]
      have removed : ∀ other, [lease][0]? = some other → other.file = none := by
        rintro other found
        cases found
        exact file
      have balanced := released_accounted ready
        (fun _ member => by rw [List.mem_singleton.mp member]; exact covered) removed
      rw [gone] at balanced
      exact balanced

end Steps

def spoolLedger (bounded : Bool) (Room : UInt64 → Trail (spoolEstate M) → Prop) :
    Ledger (spoolEstate M) where
  worth := Lease.permits
  stock state := state.available.getD 0
  Ready state := state.available.isSome = bounded
  Good := Lease.Covered bounded
  Calls := SpoolOp.Allowed Room
  Aside := SpoolOp.Stores
  allowance := Job.permits
  exec choice _ _ _ ready covered allowed := Spool.exec_balanced choice ready covered allowed
  aside choice state op trail stores := by
    cases op with
    | base op => exact ⟨trivial, Nat.le_refl _⟩
    | remove place => exact ⟨trivial, le_of_eq (congrArg List.sum (Spool.remove_permits _ _))⟩
    | release place =>
        refine ⟨stores, ?_⟩
        change ((Spool.released state.available trail.hand place).2.map Lease.permits).sum ≤ _
        unfold Spool.released
        cases found : trail.hand[place]? with
        | none => exact Nat.le_refl _
        | some lease =>
            simp only [stores lease found]
            exact ((List.eraseIdx_sublist _ _).map Lease.permits).sum_le_sum fun _ _ => Nat.zero_le _
    | reserve bytes => exact stores.elim
    | create => exact stores.elim
    | write bytes => exact stores.elim
    | flush => exact stores.elim
  letGo {state lease} ready covered := by
    obtain ⟨ready', left, total⟩ := Spool.letGo_balanced ready covered
    refine ⟨ready', fun held remains => ⟨left held (Option.mem_toList.mpr remains), ?_⟩, ?_⟩
    · change (Spool.letGo lease state).2 = some held at remains
      unfold Spool.letGo at remains
      split at remains <;> cases remains
      exact Nat.le_refl _
    · simpa using total

namespace Spool
section Steps
variable {bounded : Bool} {Room : UInt64 → Trail (spoolEstate M) → Prop}
  {trail : Trail (spoolEstate M)} {A B : Type}

theorem both_safe {first : Spooler A} {next : A → Spooler B}
    {aim : Trail (spoolEstate M) → Prop}
    (safe : (spoolLedger bounded Room).Safe first (fun _ after => aim after) trail)
    (rest : ∀ value after, aim after →
      (spoolLedger bounded Room).Safe (next value) (fun _ after => aim after) after) :
    (spoolLedger bounded Room).Safe (first >>= next : Spooler B) (fun _ after => aim after)
      trail := by
  apply Logic.Safe.seq safe
  rintro (error | value) after met
  · exact Ledger.done met
  · exact rest value after met

theorem pure_safe {result : Except ApiError A} {aim : Trail (spoolEstate M) → Prop}
    (met : aim trail) :
    (spoolLedger bounded Room).Safe (Spooler.pureStep result) (fun _ after => aim after) trail :=
  Ledger.done met

theorem base_safe (op : Op) :
    (spoolLedger bounded Room).Safe (base op) (fun _ after => after = trail) trail :=
  Ledger.call trivial fun _ _ _ => Ledger.done rfl

theorem flush_safe :
    (spoolLedger bounded Room).Safe flush (fun _ after => after = trail) trail := by
  apply Ledger.call trivial
  rintro ⟨choice, kept⟩ state _
  simp only [exec]
  cases choice.fault <;> exact Ledger.done rfl

theorem reserve_safe {size : UInt64} (room : Room size trail) :
    (spoolLedger bounded Room).Safe (reserve size) (fun result after =>
      match result with
      | .error _ => after = trail
      | .ok () => ∃ permits ≤ permitsFor size,
          after = { trail with hand := ⟨size, permits, none⟩ :: trail.hand }) trail := by
  apply Ledger.call room
  intro choice state ready
  simp only [exec]
  cases granted : reserved state.available size with
  | error error => exact Ledger.done rfl
  | ok pair =>
      obtain ⟨left, lease⟩ := pair
      obtain ⟨_, _, ⟨bytes, most, file⟩, _⟩ := reserved_accounted ready granted
      apply Ledger.done
      refine ⟨lease.permits, most, ?_⟩
      rw [← bytes, ← file]

theorem create_safe {lease : Lease} (held : trail.hand = [lease]) :
    (spoolLedger bounded Room).Safe create (fun result after => ∃ file,
      after = { trail with hand := [{ lease with file := file }] } ∧
        (result = .ok () → file = some [])) trail := by
  apply Ledger.call trivial
  rintro ⟨choice, kept⟩ state _
  simp only [exec, held]
  cases choice.fault with
  | none => exact Ledger.done ⟨some [], rfl, fun _ => rfl⟩
  | before failure => exact Ledger.done ⟨lease.file, rfl, nofun⟩
  | after failure => exact Ledger.done ⟨some [], rfl, nofun⟩

theorem writeAll_safe {size : UInt64} {permits : Nat} {file bytes : Bytes}
    (held : trail.hand = [⟨size, permits, some file⟩])
    (room : file.length + bytes.length ≤ size.toNat) :
    (spoolLedger bounded Room).Safe (writeAll bytes) (fun result after => ∃ written,
      after = { trail with hand := [⟨size, permits, written⟩] } ∧
        (result = .ok () → written = some (file ++ bytes))) trail := by
  apply Ledger.call
  · intro lease last old same
    rw [held] at last
    cases last
    cases same
    exact room
  · rintro ⟨choice, kept⟩ state _
    simp only [exec, held]
    cases choice.fault with
    | none => exact Ledger.done ⟨_, rfl, fun _ => rfl⟩
    | before failure => exact Ledger.done ⟨_, rfl, nofun⟩
    | after failure => exact Ledger.done ⟨_, rfl, nofun⟩

theorem dropping_safe {rest : Program Spooling A}
    {post : A → Trail (spoolEstate M) → Prop} (held : trail.hand.length = 1)
    (safe : (spoolLedger bounded Room).Safe rest post { trail with hand := [] }) :
    (spoolLedger bounded Room).Safe (dropping 0 rest) post trail := by
  obtain ⟨lease, alone⟩ := List.length_eq_one_iff.mp held
  apply Ledger.call trivial
  intro choice state _
  simp only [exec, alone]
  apply Ledger.call
  · intro other found
    cases found
    rfl
  · exact fun _ _ _ => safe

/-- What a scope does under its reservation, it does before it lets go of it. -/
theorem holding_safe {scope : Spooler A} {post : Except ApiError A → Trail (spoolEstate M) → Prop}
    (safe : (spoolLedger bounded Room).Safe scope (fun result after =>
      after.hand.length = 1 ∧ post result { after with hand := [] }) trail) :
    (spoolLedger bounded Room).Safe (holding scope) post trail := by
  apply Logic.Safe.seq safe
  rintro result after ⟨held, met⟩
  exact dropping_safe held (Ledger.done met)

theorem receive_safe {config : ServerConfig} {digest : Digest} {permits : Nat}
    (chunks : List Bytes) {upload : Upload}
    (held : trail.hand = [⟨digest.size, permits, some upload.file⟩])
    (size : upload.size = upload.file.length) :
    (spoolLedger bounded Room).Safe (receive config digest chunks upload)
      (fun _ after => after.hand.length = 1) trail := by
  have single : trail.hand.length = 1 := by rw [held]; rfl
  induction chunks generalizing upload trail with
  | nil => exact Ledger.done single
  | cons chunk rest ih =>
      unfold receive
      simp only
      split
      · exact Ledger.done single
      · split
        · exact Ledger.done single
        · rename_i within
          have room : upload.file.length + chunk.length ≤ digest.size.toNat := by
            simp only [Bool.or_eq_true, decide_eq_true_eq, not_or, Nat.not_lt] at within
            omega
          cases found : algorithmOf digest with
          | error error => exact Ledger.done single
          | ok algorithm =>
              apply Logic.Safe.seq (writeAll_safe held room)
              rintro (error | _) after ⟨written, rfl, whole⟩
              · exact Ledger.done rfl
              · rw [whole rfl]
                apply ih
                · rfl
                · simp only [List.length_append, size]
                · rfl

theorem received_safe {config : ServerConfig} {ns : String} {digest : Digest} {body : Body}
    {permits : Nat} (held : trail.hand = [⟨digest.size, permits, none⟩]) :
    (spoolLedger bounded Room).Safe (do
      create
      let upload ← receive config digest body.chunks ⟨0, Hashing.new, []⟩
      Spooler.pureStep (transport body)
      flush
      Spooler.pureStep (checkUpload digest upload)
      let outcome ← base (.put digest upload.file)
      base (.registerBlob ns digest outcome)
      return ⟨putStatus outcome, [], .empty⟩ : Spooler Response)
      (fun _ after => after.hand.length = 1) trail := by
  have asks : ∀ (op : Op) (after : Trail (spoolEstate M)), after.hand.length = 1 →
      (spoolLedger bounded Room).Safe (base op) (fun _ after => after.hand.length = 1) after := by
    intro op after single
    apply Logic.Safe.mono (base_safe op)
    rintro _ _ rfl
    exact single
  apply Logic.Safe.seq (create_safe held)
  rintro (error | _) after ⟨file, rfl, created⟩
  · exact Ledger.done rfl
  · rw [created rfl]
    apply both_safe (receive_safe body.chunks rfl rfl)
    intro upload after single
    apply both_safe (pure_safe single)
    intro _ after single
    apply both_safe (flush_safe.mono fun _ _ same => same ▸ single)
    intro _ after single
    apply both_safe (pure_safe single)
    intro _ after single
    apply both_safe (asks _ after single)
    intro outcome after single
    apply both_safe (asks _ after single)
    intro _ after single
    exact Ledger.done single

/-- A single upload writes within its reservation and leaves nothing behind. -/
theorem putBlob_safe (config : ServerConfig) (headers : Headers)
    (parts : String × String × UInt64) (body : Body) (empty : trail.hand = [])
    (room : ∀ digest, parseDigest parts = .ok digest → digest.size ≤ config.maxBlobBytes →
      Room digest.size trail) :
    (spoolLedger bounded Room).Safe (putBlob config headers parts body)
      (fun _ after => after.hand = []) trail := by
  unfold putBlob
  cases headers.authorize .write with
  | error error => exact Ledger.done empty
  | ok ns =>
      cases requireImmutablePrecondition headers with
      | error error => exact Ledger.done empty
      | ok _ =>
          cases named : parseDigest parts with
          | error error => exact Ledger.done empty
          | ok digest =>
              change (spoolLedger bounded Room).Safe
                (if config.maxBlobBytes < digest.size then _ else _ : Spooler Response) _ trail
              split
              · exact Ledger.done empty
              · rename_i large
                apply Logic.Safe.seq (reserve_safe (room digest named (UInt64.not_lt.mp large)))
                rintro (error | _) after taken
                · rw [show after = trail from taken]
                  exact Ledger.done empty
                · obtain ⟨permits, _, rfl⟩ := taken
                  rw [empty]
                  apply holding_safe
                  exact (received_safe rfl).mono fun _ _ single => ⟨single, rfl⟩

end Steps
end Spool

end Accounts
end MbxCache
