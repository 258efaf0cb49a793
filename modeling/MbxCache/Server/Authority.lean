import MbxCache.Auth.Authorizer
import MbxCache.Server.Effects
import MbxCache.Server.Footprints

namespace MbxCache

open Concurrent

structure Untouched (ns : String) (before after : Objects × View) : Prop where
  results : ∀ action, after.2.result ns action = before.2.result ns action
  manifests : ∀ key, after.2.manifest ns key = before.2.manifest ns key
  rows : ∀ digest, after.2.visible ns digest = true → before.2.visible ns digest = true
  blobs : Objects.Within before.1 after.1

namespace Untouched

variable {ns : String} {first second third : Objects × View}

theorem refl (shown : Objects × View) : Untouched ns shown shown :=
  ⟨fun _ => rfl, fun _ => rfl, fun _ seen => seen, .refl _⟩

theorem trans (one : Untouched ns first second) (other : Untouched ns second third) :
    Untouched ns first third where
  results action := (other.results action).trans (one.results action)
  manifests key := (other.manifests key).trans (one.manifests key)
  rows digest seen := one.rows digest (other.rows digest seen)
  blobs := one.blobs.trans other.blobs

end Untouched

theorem View.assign_elsewhere {α : Type} (table : String → Digest → α) {other ns : String}
    (different : other ≠ ns) (digest : Digest) (value : α) :
    View.assign table other digest value ns = table ns := by
  funext key
  exact View.assign_other table value fun same => different same.1.symm

theorem Op.effect_untouched {access : Access} {authorized ns : String} {past : List (Asked Api)}
    {op : Op} (allowed : (MbxCache.footprint access authorized).Calls past op)
    (bystands : ¬ (access = .write ∧ authorized = ns)) (blobs : Objects) (view : View) :
    Untouched ns (blobs, view) (op.effect blobs view) := by
  have elsewhere : ∀ {other : String}, access = .write ∧ other = authorized → other ≠ ns := by
    rintro other ⟨writes, rfl⟩ same
    exact bystands ⟨writes, same⟩
  cases op with
  | put digest bytes =>
      exact ⟨fun _ => rfl, fun _ => rfl, fun _ seen => seen, Objects.put_within _ _ _⟩
  | registerBlob other digest stored =>
      refine ⟨fun _ => rfl, fun _ => rfl, ?_, .refl _⟩
      intro key seen
      simp only [effect, View.register, View.assign_elsewhere _ (elsewhere allowed)] at seen
      exact seen
  | forgetBlob other digest =>
      refine ⟨fun _ => rfl, fun _ => rfl, ?_, .refl _⟩
      intro key seen
      simp only [effect, View.forget, View.assign] at seen
      split at seen
      · cases seen
      · exact seen
  | commit other action result =>
      refine ⟨?_, ?_, ?_, .refl _⟩ <;> simp only [effect, View.commit] <;> split
      · intro key
        simp only [View.setResult, View.assign_elsewhere _ (elsewhere allowed)]
      · exact fun _ => rfl
      · exact fun _ => rfl
      · exact fun _ => rfl
      · exact fun _ seen => seen
      · exact fun _ seen => seen
  | commitManifest other key expected record =>
      refine ⟨?_, ?_, ?_, .refl _⟩ <;> simp only [effect, View.commitManifest] <;> split
      · exact fun _ => rfl
      · exact fun _ => rfl
      · intro found
        simp only [View.setManifest, View.assign_elsewhere _ (elsewhere allowed)]
      · exact fun _ => rfl
      · exact fun _ seen => seen
      · exact fun _ seen => seen
  | localIo => exact .refl _
  | acquire permits => exact .refl _
  | get digest => exact .refl _
  | visibleBlobs other digests => exact .refl _
  | getResult other action => exact .refl _
  | getBatch other actions => exact .refl _
  | resolve other action result => exact .refl _
  | getManifest other key => exact .refl _

theorem Op.effect_dropped {op : Op} {blobs : Objects} {view : View} {ns : String}
    {digest : Digest} (seen : view.visible ns digest = true)
    (gone : (op.effect blobs view).2.visible ns digest = false) : op = .forgetBlob ns digest := by
  cases op with
  | registerBlob other key stored =>
      simp only [effect, View.register, View.assign] at gone
      split at gone
      · cases gone
      · rw [seen] at gone
        cases gone
  | forgetBlob other key =>
      simp only [effect, View.forget, View.assign] at gone
      split at gone
      · rename_i same
        rw [same.1, same.2]
      · rw [seen] at gone
        cases gone
  | commit other action result =>
      simp only [effect, View.commit] at gone
      split at gone <;> exact absurd (seen.symm.trans gone) Bool.noConfusion
  | commitManifest other key expected record =>
      simp only [effect, View.commitManifest] at gone
      split at gone <;> exact absurd (seen.symm.trans gone) Bool.noConfusion
  | put other bytes => exact absurd (seen.symm.trans gone) Bool.noConfusion
  | localIo => exact absurd (seen.symm.trans gone) Bool.noConfusion
  | acquire permits => exact absurd (seen.symm.trans gone) Bool.noConfusion
  | get other => exact absurd (seen.symm.trans gone) Bool.noConfusion
  | visibleBlobs other digests => exact absurd (seen.symm.trans gone) Bool.noConfusion
  | getResult other action => exact absurd (seen.symm.trans gone) Bool.noConfusion
  | getBatch other actions => exact absurd (seen.symm.trans gone) Bool.noConfusion
  | resolve other action result => exact absurd (seen.symm.trans gone) Bool.noConfusion
  | getManifest other key => exact absurd (seen.symm.trans gone) Bool.noConfusion

def Request.Writes (request : Request) (ns : String) : Prop :=
  request.access = .write ∧ request.authorized = .ok ns

/-- A request as an authorizer meets it: the credentials it comes with, and what there is
to say of its token at that moment. -/
structure Attempt (authorizer : Authorizer) [Protocol] where
  reader : TokenReader
  credentials : AuthHeaders
  request : Request
  authorized : request.headers.authorize = authorizer.authorize reader credentials

variable [Protocol]

abbrev Bystander (authorizer : Authorizer) (ns : String) :=
  {attempt : Attempt authorizer // ¬ attempt.request.Writes ns}

/-- Without a token nothing is written, unless the service asks nobody for one. -/
theorem Attempt.no_token_no_write {authorizer : Authorizer} (attempt : Attempt authorizer)
    (closed : ¬ authorizer.Open) (anonymous : attempt.credentials.authorization = none)
    (ns : String) : ¬ attempt.request.Writes ns := by
  rintro ⟨writes, granted⟩
  rw [Request.authorized, attempt.authorized, writes] at granted
  have guarded : (authorizer.allowAnonymous && authorizer.grants.isEmpty &&
      authorizer.oidc.isEmpty) = false := by
    apply Bool.eq_false_iff.mpr
    intro opened
    simp only [Bool.and_eq_true, List.isEmpty_iff] at opened
    exact closed ⟨opened.1.1, opened.1.2, opened.2⟩
  unfold Authorizer.authorize at granted
  split at granted
  · cases granted
  · split at granted
    · cases granted
    · rw [guarded] at granted
      unfold Authorizer.authorizeBearer at granted
      rw [anonymous] at granted
      cases granted

variable {M : Type} [MetadataStore M] {authorizer : Authorizer} {ns : String}

def bystanding (config : ServerConfig) (start : ServerState M)
    (actions : List (Action (Bystander authorizer ns) Choice)) :
    Config (server M) (Except ApiError Response) :=
  (Config.initial (server M) (Except ApiError Response) start).run
    (fun bystander => bystander.1.request.handler config) actions

/-- In the course of a run, a request that may read the namespace asked the storage for an
object, and there was none. -/
def FoundAbsent (config : ServerConfig) (start : ServerState M)
    (actions : List (Action (Bystander authorizer ns) Choice)) (digest : Digest) : Prop :=
  ∃ front action back pid choice bystander, actions = front ++ action :: back ∧
    served front pid = some bystander ∧ bystander.1.request.access = .read ∧
    bystander.1.request.authorized = .ok ns ∧
    (bystanding config start front).carries action = some ⟨pid, choice, .get digest⟩ ∧
    (bystanding config start front).state.blobs digest = none

theorem FoundAbsent.later {config : ServerConfig} {start : ServerState M} {digest : Digest}
    {actions : List (Action (Bystander authorizer ns) Choice)}
    (absent : FoundAbsent config start actions digest)
    (more : List (Action (Bystander authorizer ns) Choice)) :
    FoundAbsent config start (actions ++ more) digest := by
  obtain ⟨front, action, back, pid, choice, bystander, rfl, rest⟩ := absent
  exact ⟨front, action, back ++ more, pid, choice, bystander, by simp, rest⟩

theorem get_none {choice : Choice} {state : ServerState M} {digest : Digest}
    (answered : (.ok none : Except Failure (Option Blob)) = (exec choice (.get digest) state).2) :
    state.blobs digest = none := by
  have performed := exec_value answered.symm
  have found : state.blobs.get digest choice.cuts choice.broken = none :=
    congrArg Prod.snd (Except.ok.inj performed)
  exact Option.map_eq_none_iff.mp found

/-- One step among bystanders: they leave the namespace alone, except that a row may go
whose object was found absent. -/
theorem bystanding_step (config : ServerConfig) (start : Working M)
    (actions : List (Action (Bystander authorizer ns) Choice))
    (action : Action (Bystander authorizer ns) Choice)
    (valid : MetadataStore.valid (bystanding config start.1 actions).state.metadata) :
    MetadataStore.valid (bystanding config start.1 (actions ++ [action])).state.metadata ∧
      Untouched ns (bystanding config start.1 actions).state.shown
        (bystanding config start.1 (actions ++ [action])).state.shown ∧
      ∀ digest, (bystanding config start.1 actions).state.Sees ns digest →
        ¬ (bystanding config start.1 (actions ++ [action])).state.Sees ns digest →
        FoundAbsent config start.1 actions digest := by
  cases carried : (bystanding config start.1 actions).carries action with
  | none =>
      have silent : (bystanding config start.1 (actions ++ [action])).state =
          (bystanding config start.1 actions).state := Config.run_silent carried
      rw [silent]
      exact ⟨valid, .refl _, fun digest seen gone => absurd seen gone⟩
  | some call =>
      have called : (bystanding config start.1 (actions ++ [action])).state =
          (exec call.choice call.op (bystanding config start.1 actions).state).1 :=
        Config.run_calls carried
      rw [called]
      obtain ⟨bystander, past, answers, allowed, known⟩ :=
        Config.carries_obeys (F := fun bystander => bystander.1.request.footprint)
          (fun bystander => Request.handler_stays config bystander.1.request)
          (fun bystander => Request.footprint_jobs bystander.1.request) carried
      unfold Request.footprint at allowed
      split at allowed
      · rename_i other authorized
        obtain ⟨valid', effect⟩ := exec_effect call.choice call.op valid
        refine ⟨valid', ?_, ?_⟩
        · rcases effect with same | changed
          · rw [same]
            exact .refl _
          · rw [changed]
            apply Op.effect_untouched allowed
            rintro ⟨writes, rfl⟩
            exact bystander.2 ⟨writes, authorized⟩
        · intro digest seen gone
          rcases effect with same | changed
          · have kept := congrArg (fun shown : Objects × View => shown.2.visible ns digest) same
            exact absurd (kept.trans seen) gone
          · have dropped : call.op = .forgetBlob ns digest := by
              apply Op.effect_dropped seen
              rw [← changed]
              exact Bool.eq_false_iff.mpr gone
            rw [dropped] at allowed
            obtain ⟨rfl, absent⟩ := allowed
            obtain ⟨front, earlier, back, choice, rfl, first, asked, answered⟩ :=
              (known _ absent).asked answers
            refine ⟨front, earlier, back, call.pid, choice, bystander, rfl, first, ?_, authorized,
              asked, get_none answered⟩
            cases access : bystander.1.request.access with
            | read => rfl
            | write => exact absurd ⟨access, authorized⟩ bystander.2
      · exact allowed.elim

/-- Among requests none of which may write to a namespace, in any run and any order: its
results and manifests stay, it gets no row, and it loses one only after a request that may
read it found the object absent. No stored object changes. Requests without a token are
such requests, unless the service is open. -/
theorem unwritten_without_authority (config : ServerConfig) (start : Working M)
    (front back : List (Action (Bystander authorizer ns) Choice)) :
    let before := (bystanding config start.1 front).state
    let after := (bystanding config start.1 (front ++ back)).state
    (∀ action, after.view.result ns action = before.view.result ns action) ∧
    (∀ key, after.view.manifest ns key = before.view.manifest ns key) ∧
    (∀ digest, after.Sees ns digest → before.Sees ns digest) ∧
    Objects.Within before.blobs after.blobs ∧
    (∀ digest, before.Sees ns digest → ¬ after.Sees ns digest →
      FoundAbsent config start.1 (front ++ back) digest) ∧
    (∀ attempt : Attempt authorizer, ¬ authorizer.Open →
      attempt.credentials.authorization = none → ∀ other, ¬ attempt.request.Writes other) := by
  have always : ∀ actions : List (Action (Bystander authorizer ns) Choice),
      MetadataStore.valid (bystanding config start.1 actions).state.metadata := by
    intro actions
    induction actions using List.reverseRecOn with
    | nil => exact start.2
    | append_singleton actions action ih => exact (bystanding_step config start actions action ih).1
  have between : Untouched ns (bystanding config start.1 front).state.shown
      (bystanding config start.1 (front ++ back)).state.shown ∧
      ∀ digest, (bystanding config start.1 front).state.Sees ns digest →
        ¬ (bystanding config start.1 (front ++ back)).state.Sees ns digest →
        FoundAbsent config start.1 (front ++ back) digest := by
    induction back using List.reverseRecOn with
    | nil =>
        rw [List.append_nil]
        exact ⟨.refl _, fun digest seen gone => absurd seen gone⟩
    | append_singleton back action ih =>
        rw [← List.append_assoc]
        obtain ⟨_, untouched, dropped⟩ :=
          bystanding_step config start (front ++ back) action (always _)
        refine ⟨ih.1.trans untouched, fun digest seen gone => ?_⟩
        by_cases still : (bystanding config start.1 (front ++ back)).state.Sees ns digest
        · exact (dropped digest still gone).later _
        · exact (ih.2 digest seen still).later _
  exact ⟨between.1.results, between.1.manifests, between.1.rows, between.1.blobs, between.2,
    fun attempt closed anonymous => attempt.no_token_no_write closed anonymous⟩

end MbxCache
