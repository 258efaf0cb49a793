import MbxCache.Concurrent.Gradual
import MbxCache.Server.Workflow
import MbxCache.Storage.FilesystemReads

namespace MbxCache

open Concurrent

inductive Ticket
  | put (index : Nat)
  | get (index : Nat)
  deriving DecidableEq, Repr

/-- The server over a filesystem store: at most one call of the store is under way for each
caller. -/
structure DiskServer (M : Type) where
  files : FileStore
  metadata : M
  calls : Caller → Option Ticket

structure DiskChoice where
  other : Choice
  io : Io
  deriving DecidableEq, Repr

/-- What happens besides the steps of callers: names become durable, and puts whose callers are
gone go on. -/
inductive DiskAside
  | settle (path : StorePath)
  | linger (index : Nat) (io : Io)

def PutStage.result : PutStage → Option (Except Failure PutOutcome)
  | .answered outcome => some (.ok outcome)
  | .failed => some (.error .fault)
  | .checking | .makingDirs | .creating | .opening _ _ | .copying _ _ _ _ | .syncing _ _
  | .publishing _ _ => none

/-- How a get ends, with the pieces its stream comes in. It answers before it reads the file, so
a read that fails breaks the stream. -/
def GetStage.result (cuts : List Nat) (before : GetStage) :
    GetStage → Option (Except Failure (Option Blob))
  | .served size content =>
      some (.ok (some ⟨UInt64.ofNat size, ⟨ByteStream.split cuts content, false⟩⟩))
  | .absent => some (.ok none)
  | .failed =>
      match before with
      | .reading _ size collected =>
          some (.ok (some ⟨UInt64.ofNat size, ⟨ByteStream.split cuts collected, true⟩⟩))
      | _ => some (.error .fault)
  | .opening | .sizing _ | .reading _ _ _ => none

namespace DiskServer

variable {M : Type}

def hold (server : DiskServer M) (caller : Caller) (ticket : Option Ticket) (files : FileStore) :
    DiskServer M :=
  { server with files, calls := Function.update server.calls caller ticket }

def putUnder (server : DiskServer M) (caller : Caller) (digest : Digest) (source : Bytes) :
    Option (Nat × PutCall) :=
  match server.calls caller with
  | some (.put index) =>
      (server.files.puts[index]?.filter fun call =>
        call.digest = digest && call.source = source).map fun call => (index, call)
  | _ => none

def getUnder (server : DiskServer M) (caller : Caller) (digest : Digest) :
    Option (Nat × GetCall) :=
  match server.calls caller with
  | some (.get index) =>
      (server.files.gets[index]?.filter fun call => call.digest = digest).map fun call =>
        (index, call)
  | _ => none

def turnPut (server : DiskServer M) (caller : Caller) (io : Io) (digest : Digest)
    (source : Bytes) : DiskServer M × Option (Except Failure PutOutcome) :=
  match server.putUnder caller digest source with
  | none =>
      (server.hold caller (some (.put server.files.puts.length))
        (server.files.step (.beginPut digest source)), none)
  | some (index, call) =>
      let files := server.files.putStep index call io
      let answer := files.puts[index]?.bind fun call => call.stage.result
      (server.hold caller (if answer.isSome then none else some (.put index)) files, answer)

def turnGet (server : DiskServer M) (caller : Caller) (choice : DiskChoice) (digest : Digest) :
    DiskServer M × Option (Except Failure (Option Blob)) :=
  match server.getUnder caller digest with
  | none =>
      (server.hold caller (some (.get server.files.gets.length))
        (server.files.step (.beginGet digest)), none)
  | some (index, call) =>
      let files := server.files.getStep index call choice.io
      let answer := files.gets[index]?.bind fun next =>
        call.stage.result choice.other.cuts next.stage
      (server.hold caller (if answer.isSome then none else some (.get index)) files, answer)

section
variable [Protocol] [MetadataStore M]

/-- A step of a call, and its answer if it is the last one. What does not touch the store takes
one step. -/
def turn (server : DiskServer M) (caller : Caller) (choice : DiskChoice) :
    (op : Op) → DiskServer M × Option (Except Failure op.Value)
  | .put digest source => server.turnPut caller choice.io digest source
  | .get digest => server.turnGet caller choice digest
  | op =>
      let (state, value) := exec choice.other op ⟨fun _ => none, server.metadata⟩
      ({ server with metadata := state.metadata }, some value)

end

/-- A put whose caller is gone goes on with what it has begun. It is never polled again, so it
neither publishes nor answers. -/
def linger (server : DiskServer M) (index : Nat) (io : Io) : DiskServer M :=
  match server.files.puts[index]? with
  | none => server
  | some call =>
      let files := server.files.putStep index call io
      if call.stage.renames io then server
      else
        match files.puts[index]?.bind fun call => call.stage.result with
        | some (.ok _) => server
        | _ => { server with files }

def aside (server : DiskServer M) : DiskAside → DiskServer M
  | .settle path => { server with files := server.files.step (.settle path) }
  | .linger index io => server.linger index io

def shown (server : DiskServer M) : ServerState M := ⟨server.files.tree.objects, server.metadata⟩

end DiskServer

def diskServer (M : Type) [Protocol] [MetadataStore M] : Gradual Api where
  State := DiskServer M
  Choice := DiskChoice
  Aside := DiskAside
  goes caller choice op server :=
    if (server.turn caller choice op).2.isNone then some (server.turn caller choice op).1 else none
  exec caller choice op server :=
    ((server.turn caller choice op).1, (server.turn caller choice op).2.getD (.error .fault))
  aside event server := server.aside event
  pick choice := choice.other.pick
  body := Job.body
  detached := Job.detached

theorem ByteStream.split_lengths (pieces : List Bytes) (rest : Bytes) :
    split (pieces.map List.length) (pieces.flatten ++ rest) = pieces ++ [rest] := by
  induction pieces with
  | nil => rfl
  | cons piece pieces ih => simp [split, ih]

theorem ByteStream.opened_broken {bytes collected : Bytes} (front : collected <+: bytes)
    (cuts : List Nat) : ∃ others, opened bytes others true = ⟨split cuts collected, true⟩ := by
  obtain ⟨rest, rfl⟩ := front
  refine ⟨(split cuts collected).map List.length, ?_⟩
  have whole := split_lengths (split cuts collected) rest
  rw [split_flatten] at whole
  simp only [opened, if_true, whole, List.dropLast_concat]

namespace GetStage

variable {cuts : List Nat} {before next : GetStage}

theorem result_none (going : before.result cuts next = none) : next.open? = true := by
  cases next with
  | served size content => cases going
  | absent => cases going
  | _ => rfl

theorem result_get {objects : Objects} {digest : Digest}
    {answer : Except Failure (Option Blob)} (told : before.Tells (objects digest))
    (tells : next.Tells (objects digest)) (ended : before.result cuts next = some answer) :
    (∃ others broken, answer = .ok (objects.get digest others broken)) ∨
      answer = .error .fault := by
  cases next with
  | served size content =>
      obtain ⟨stored, rfl⟩ := tells
      cases ended
      exact .inl ⟨cuts, false, by simp [Objects.get, stored, ByteStream.opened]⟩
  | absent =>
      have stored : objects digest = none := tells
      cases ended
      exact .inl ⟨cuts, false, by simp [Objects.get, stored]⟩
  | failed =>
      cases before with
      | reading inode size collected =>
          obtain ⟨bytes, stored, rfl, front⟩ := told
          obtain ⟨others, broken⟩ := ByteStream.opened_broken front cuts
          cases ended
          exact .inl ⟨others, true, by simp [Objects.get, stored, broken]⟩
      | _ =>
          cases ended
          exact .inr rfl
  | _ => cases ended

end GetStage

def FileStore.Waits (files : FileStore) : Ticket → Prop
  | .put index => ∃ call, files.puts[index]? = some call ∧
      ∀ outcome, call.stage ≠ .answered outcome
  | .get index => ∃ call, files.gets[index]? = some call ∧ call.stage.open? = true

namespace DiskServer

variable {M : Type} {server : DiskServer M} {caller : Caller}

structure Sound (server : DiskServer M) : Prop where
  files : server.files.Sound
  waits : ∀ caller ticket, server.calls caller = some ticket → server.files.Waits ticket
  apart : ∀ one other ticket, server.calls one = some ticket → server.calls other = some ticket →
    one = other

theorem Sound.hold {files : FileStore} {next : Option Ticket} (sound : server.Sound)
    (kept : files.Sound)
    (others : ∀ other ticket, other ≠ caller → server.calls other = some ticket →
      files.Waits ticket)
    (mine : ∀ ticket, next = some ticket → files.Waits ticket ∧
      ∀ other, other ≠ caller → server.calls other ≠ some ticket) :
    (server.hold caller next files).Sound where
  files := kept
  waits other ticket held := by
    simp only [DiskServer.hold, Function.update_apply] at held
    split at held
    next => exact (mine ticket held).1
    next apart => exact others other ticket apart held
  apart one other ticket first second := by
    simp only [DiskServer.hold, Function.update_apply] at first second
    split at first
    next same =>
      split at second
      next same' => rw [same, same']
      next apart => exact absurd second ((mine ticket first).2 other apart)
    next apart =>
      split at second
      next => exact absurd first ((mine ticket second).2 one apart)
      next => exact sound.apart one other ticket first second

end DiskServer

namespace FileStore

variable {files : FileStore} {ticket : Ticket}

theorem Waits.beginPut (waits : files.Waits ticket) (digest : Digest) (source : Bytes) :
    (files.step (.beginPut digest source)).Waits ticket := by
  cases ticket with
  | put index =>
      obtain ⟨call, found, going⟩ := waits
      have within := (List.getElem?_eq_some_iff.mp found).1
      exact ⟨call, (List.getElem?_append_left within).trans found, going⟩
  | get index => exact waits

theorem Waits.beginGet (waits : files.Waits ticket) (digest : Digest) :
    (files.step (.beginGet digest)).Waits ticket := by
  cases ticket with
  | put index => exact waits
  | get index =>
      obtain ⟨call, found, going⟩ := waits
      have within := (List.getElem?_eq_some_iff.mp found).1
      exact ⟨call, (List.getElem?_append_left within).trans found, going⟩

theorem Waits.putStep (waits : files.Waits ticket) {index : Nat} (apart : ticket ≠ .put index)
    (call : PutCall) (io : Io) : (files.putStep index call io).Waits ticket := by
  have gets : (files.putStep index call io).gets = files.gets := by
    unfold FileStore.putStep
    split <;> rfl
  have puts (other : Nat) (ne : other ≠ index) :
      (files.putStep index call io).puts[other]? = files.puts[other]? := by
    unfold FileStore.putStep
    split <;> exact List.getElem?_set_ne ne.symm
  cases ticket with
  | put other =>
      obtain ⟨held, found, going⟩ := waits
      exact ⟨held, (puts other fun same => apart (congrArg Ticket.put same)).trans found, going⟩
  | get other =>
      obtain ⟨held, found, going⟩ := waits
      exact ⟨held, by rw [gets, found], going⟩

theorem Waits.getStep (waits : files.Waits ticket) {index : Nat} (apart : ticket ≠ .get index)
    (call : GetCall) (io : Io) : (files.getStep index call io).Waits ticket := by
  cases ticket with
  | put other => exact waits
  | get other =>
      obtain ⟨held, found, going⟩ := waits
      have different : index ≠ other := fun same => apart (congrArg Ticket.get same.symm)
      exact ⟨held, (List.getElem?_set_ne different).trans found, going⟩

end FileStore

namespace DiskServer

variable {M : Type} {server : DiskServer M} {caller : Caller} {digest : Digest}

theorem putUnder_some {source : Bytes} {index : Nat} {call : PutCall}
    (under : server.putUnder caller digest source = some (index, call)) :
    server.calls caller = some (.put index) ∧ server.files.puts[index]? = some call ∧
      call.digest = digest ∧ call.source = source := by
  unfold putUnder at under
  split at under
  next index' held =>
    obtain ⟨found, filtered, same⟩ := Option.map_eq_some_iff.mp under
    obtain ⟨present, matching⟩ := Option.filter_eq_some_iff.mp filtered
    cases same
    simp only [Bool.and_eq_true, decide_eq_true_eq] at matching
    exact ⟨held, present, matching⟩
  next => cases under

theorem getUnder_some {index : Nat} {call : GetCall}
    (under : server.getUnder caller digest = some (index, call)) :
    server.calls caller = some (.get index) ∧ server.files.gets[index]? = some call ∧
      call.digest = digest := by
  unfold getUnder at under
  split at under
  next index' held =>
    obtain ⟨found, filtered, same⟩ := Option.map_eq_some_iff.mp under
    obtain ⟨present, matching⟩ := Option.filter_eq_some_iff.mp filtered
    cases same
    exact ⟨held, present, of_decide_eq_true matching⟩
  next => cases under

theorem Sound.fresh_put (sound : server.Sound) (other : Caller) :
    server.calls other ≠ some (.put server.files.puts.length) := by
  intro held
  obtain ⟨call, found, -⟩ := sound.waits other _ held
  exact absurd (List.getElem?_eq_some_iff.mp found).1 (lt_irrefl _)

theorem Sound.fresh_get (sound : server.Sound) (other : Caller) :
    server.calls other ≠ some (.get server.files.gets.length) := by
  intro held
  obtain ⟨call, found, -⟩ := sound.waits other _ held
  exact absurd (List.getElem?_eq_some_iff.mp found).1 (lt_irrefl _)

theorem Sound.took {ticket : Ticket} {files : FileStore} {ended : Bool} (sound : server.Sound)
    (held : server.calls caller = some ticket) (kept : files.Sound)
    (others : ∀ other, other ≠ ticket → server.files.Waits other → files.Waits other)
    (going : ended = false → files.Waits ticket) :
    (server.hold caller (if ended then none else some ticket) files).Sound := by
  have mine (other : Caller) (apart : other ≠ caller) : server.calls other ≠ some ticket :=
    fun same => apart (sound.apart other caller ticket same held)
  refine sound.hold kept (fun other waiting apart present => ?_) fun other same => ?_
  · refine others waiting (fun same => mine other apart (same ▸ present)) ?_
    exact sound.waits other waiting present
  · cases ended with
    | true => cases same
    | false =>
        cases same
        exact ⟨going rfl, mine⟩

section Serves
variable [Protocol] [MetadataStore M]

def Serves (server : DiskServer M) (op : Op)
    (turn : DiskServer M × Option (Except Failure op.Value)) : Prop :=
  turn.1.Sound ∧
    match turn.2 with
    | none => turn.1.shown = server.shown
    | some answer => ∃ other, exec other op server.shown = (turn.1.shown, answer)

theorem turnPut_serves (sound : server.Sound) (io : Io) (source : Bytes) :
    server.Serves (.put digest source) (server.turnPut caller io digest source) := by
  unfold turnPut
  cases under : server.putUnder caller digest source with
  | none =>
      refine ⟨sound.hold (FileStore.beginPut_sound sound.files digest source) ?_ ?_, rfl⟩
      · exact fun other ticket _ held => (sound.waits other ticket held).beginPut digest source
      · intro ticket same
        cases same
        refine ⟨⟨⟨digest, source, .checking⟩, ?_, fun outcome ended => by cases ended⟩,
          fun other _ => sound.fresh_put other⟩
        exact List.getElem?_concat_length
  | some under' =>
      obtain ⟨index, call⟩ := under'
      obtain ⟨held, found, rfl, rfl⟩ := putUnder_some under
      obtain ⟨_, found', going⟩ := sound.waits caller _ held
      obtain rfl := Option.some.inj (found.symm.trans found')
      obtain ⟨next, present, turns⟩ := sound.files.putStep_turns found io
      have answer : ((server.files.putStep index call io).puts[index]?.bind fun call =>
          call.stage.result) = next.result := by
        rw [present, Option.bind_some]
      simp only [answer]
      refine ⟨sound.took held (FileStore.putStep_sound sound.files found io)
        (fun other apart waits => waits.putStep apart call io) fun ended => ?_, ?_⟩
      · refine ⟨_, present, fun outcome answered => ?_⟩
        simp only at answered
        rw [answered] at ended
        cases ended
      · cases turns with
        | still same told =>
            have shown (ticket : Option Ticket) :
                (server.hold caller ticket (server.files.putStep index call io)).shown =
                  server.shown := by
              simp only [DiskServer.shown, hold, same]
            cases next with
            | answered outcome =>
                obtain ⟨rfl, there⟩ := (told outcome rfl).resolve_left (going outcome)
                obtain ⟨bytes, stored⟩ := Option.isSome_iff_exists.mp there
                have put : server.shown.blobs.put call.digest call.source =
                    (server.shown.blobs, .alreadyExists) := by
                  simp only [Objects.put, DiskServer.shown, stored]
                refine ⟨calm 0, ?_⟩
                rw [shown]
                simp only [exec, attempt, perform, calm, Op.fallible, put, if_true]
                rfl
            | failed =>
                refine ⟨{ calm 0 with fault := .before .fault }, ?_⟩
                rw [shown]
                rfl
            | _ => exact shown _
        | filled absent fills renames ends =>
            have put : server.shown.blobs.put call.digest call.source =
                ((server.files.putStep index call io).tree.objects, .created) := by
              simp only [Objects.put, DiskServer.shown, absent, fills]
            rcases ends with rfl | rfl
            · refine ⟨calm 0, ?_⟩
              simp only [exec, attempt, perform, calm, Op.fallible, put, if_true]
              rfl
            · refine ⟨{ calm 0 with fault := .after .fault }, ?_⟩
              simp only [exec, attempt, perform, Op.fallible, put, if_true]
              rfl

theorem turnGet_serves (sound : server.Sound) (choice : DiskChoice) :
    server.Serves (.get digest) (server.turnGet caller choice digest) := by
  unfold turnGet
  cases under : server.getUnder caller digest with
  | none =>
      refine ⟨sound.hold (FileStore.beginGet_sound sound.files digest) ?_ ?_, rfl⟩
      · exact fun other ticket _ held => (sound.waits other ticket held).beginGet digest
      · intro ticket same
        cases same
        exact ⟨⟨⟨digest, .opening⟩, List.getElem?_concat_length, rfl⟩,
          fun other _ => sound.fresh_get other⟩
  | some under' =>
      obtain ⟨index, call⟩ := under'
      obtain ⟨held, found, rfl⟩ := getUnder_some under
      obtain ⟨_, found', going⟩ := sound.waits caller _ held
      obtain rfl := Option.some.inj (found.symm.trans found')
      obtain ⟨next, present, tells, told⟩ := sound.files.getStep_tells found going choice.io
      have answer : ((server.files.getStep index call choice.io).gets[index]?.bind fun next =>
          call.stage.result choice.other.cuts next.stage) =
            call.stage.result choice.other.cuts next := by
        rw [present, Option.bind_some]
      simp only [answer]
      refine ⟨sound.took held (FileStore.getStep_sound sound.files found choice.io)
        (fun other apart waits => waits.getStep apart call choice.io) fun ended => ?_, ?_⟩
      · refine ⟨_, present, ?_⟩
        have unended := Option.isNone_iff_eq_none.mp (Option.isSome_eq_false_iff.mp ended)
        exact GetStage.result_none unended
      · cases ended : call.stage.result choice.other.cuts next with
        | none => rfl
        | some result =>
            rcases GetStage.result_get told tells ended with ⟨others, broken, rfl⟩ | rfl
            · refine ⟨{ calm 0 with cuts := others, broken }, ?_⟩
              rfl
            · refine ⟨{ calm 0 with fault := .before .fault }, ?_⟩
              rfl

omit [Protocol] [MetadataStore M] in
theorem attempt_write {α : Type} (fault : Fault) (objects others : Objects) (metadata : M)
    (result : Except Failure (M × α)) :
    attempt fault ⟨objects, metadata⟩ (ServerState.write ⟨objects, metadata⟩ result) =
      (⟨objects, (attempt fault ⟨others, metadata⟩
        (ServerState.write ⟨others, metadata⟩ result)).1.metadata⟩,
      (attempt fault ⟨others, metadata⟩ (ServerState.write ⟨others, metadata⟩ result)).2) := by
  cases fault <;> cases result <;> rfl

omit [Protocol] [MetadataStore M] in
theorem attempt_look {α : Type} (fault : Fault) (objects others : Objects) (metadata : M)
    (result : Except Failure α) :
    attempt fault ⟨objects, metadata⟩ (ServerState.look ⟨objects, metadata⟩ result) =
      (⟨objects, (attempt fault ⟨others, metadata⟩
        (ServerState.look ⟨others, metadata⟩ result)).1.metadata⟩,
      (attempt fault ⟨others, metadata⟩ (ServerState.look ⟨others, metadata⟩ result)).2) := by
  cases fault <;> cases result <;> rfl

theorem turn_serves (sound : server.Sound) (caller : Caller) (choice : DiskChoice) (op : Op) :
    server.Serves op (server.turn caller choice op) := by
  have kept (metadata : M) : ({ server with metadata } : DiskServer M).Sound :=
    ⟨sound.files, sound.waits, sound.apart⟩
  cases op with
  | put digest source => exact turnPut_serves sound choice.io source
  | get digest => exact turnGet_serves sound choice
  | localIo =>
      refine ⟨kept _, choice.other, ?_⟩
      exact attempt_look choice.other.fault server.shown.blobs (fun _ => none) server.metadata
        (.ok ())
  | acquire permits => exact ⟨kept _, choice.other, rfl⟩
  | visibleBlobs ns digests => exact ⟨kept _, choice.other, attempt_look ..⟩
  | registerBlob ns digest stored => exact ⟨kept _, choice.other, attempt_write ..⟩
  | forgetBlob ns digest => exact ⟨kept _, choice.other, attempt_write ..⟩
  | getResult ns action => exact ⟨kept _, choice.other, attempt_look ..⟩
  | getBatch ns actions => exact ⟨kept _, choice.other, attempt_look ..⟩
  | commit ns action result => exact ⟨kept _, choice.other, attempt_write ..⟩
  | resolve ns action result => exact ⟨kept _, choice.other, attempt_look ..⟩
  | getManifest ns key => exact ⟨kept _, choice.other, attempt_look ..⟩
  | commitManifest ns key expected record => exact ⟨kept _, choice.other, attempt_write ..⟩

omit [Protocol] [MetadataStore M] in
theorem aside_shows (sound : server.Sound) (event : DiskAside) :
    (server.aside event).Sound ∧ (server.aside event).shown = server.shown := by
  cases event with
  | settle path =>
      refine ⟨⟨FileStore.settle_sound sound.files path, fun caller ticket held => ?_,
        sound.apart⟩, rfl⟩
      have waits := sound.waits caller ticket held
      cases ticket <;> exact waits
  | linger index io =>
      simp only [aside, linger]
      cases found : server.files.puts[index]? with
      | none => exact ⟨sound, rfl⟩
      | some call =>
          obtain ⟨next, present, turns⟩ := sound.files.putStep_turns found io
          have waits (unanswered : ∀ outcome, next ≠ .answered outcome) (caller : Caller)
              (ticket : Ticket) (held : server.calls caller = some ticket) :
              (server.files.putStep index call io).Waits ticket := by
            by_cases same : ticket = .put index
            · exact same ▸ ⟨_, present, unanswered⟩
            · exact (sound.waits caller ticket held).putStep same call io
          have kept (unanswered : ∀ outcome, next ≠ .answered outcome) :
              ({ server with files := server.files.putStep index call io } : DiskServer M).Sound :=
            ⟨FileStore.putStep_sound sound.files found io, waits unanswered, sound.apart⟩
          simp only [present, Option.bind_some]
          cases turns with
          | filled absent fills renames ends =>
              simp only [renames, if_true]
              exact ⟨sound, trivial⟩
          | still same told =>
              have shown : ({ server with files := server.files.putStep index call io } :
                  DiskServer M).shown = server.shown := by
                simp only [DiskServer.shown, same]
              split
              · exact ⟨sound, rfl⟩
              · cases next with
                | answered outcome => exact ⟨sound, rfl⟩
                | _ => exact ⟨kept (fun outcome ended => by cases ended), shown⟩

/-- What a server over a filesystem store shows. -/
def Shows (server : DiskServer M) (state : ServerState M) : Prop :=
  server.Sound ∧ state = server.shown

end Serves
end DiskServer

/-- The steps of the store come to the calls of an object store. -/
theorem diskServer_implements (M : Type) [Protocol] [MetadataStore M] :
    Implements (diskServer M) (server M) DiskServer.Shows where
  goes := by
    rintro state after seen caller choice op ⟨sound, rfl⟩ goes
    obtain ⟨kept, same⟩ := DiskServer.turn_serves sound caller choice op
    cases ended : (state.turn caller choice op).2 with
    | none =>
        rw [ended] at same
        simp only [diskServer, ended, Option.isNone_none, if_true] at goes
        cases goes
        exact ⟨kept, same.symm⟩
    | some answer =>
        simp only [diskServer, ended, Option.isNone_some] at goes
        cases goes
  exec := by
    rintro state seen caller choice op ⟨sound, rfl⟩ goes
    obtain ⟨kept, made⟩ := DiskServer.turn_serves sound caller choice op
    cases ended : (state.turn caller choice op).2 with
    | none =>
        simp only [diskServer, ended, Option.isNone_none, if_true] at goes
        cases goes
    | some answer =>
        rw [ended] at made
        obtain ⟨other, made⟩ := made
        refine ⟨other, ?_⟩
        simp only [made, diskServer, ended, Option.getD_some]
        exact ⟨trivial, kept, rfl⟩
  aside := by
    rintro state seen event ⟨sound, rfl⟩
    obtain ⟨kept, same⟩ := DiskServer.aside_shows sound event
    exact ⟨kept, same.symm⟩
  pick index := ⟨calm index, rfl⟩
  body := rfl
  detached := rfl

section Runs
variable [Protocol] {M : Type} [MetadataStore M]

variable (M) in
def DiskServer.start : DiskServer M := ⟨FileStore.start, freshStore M, fun _ => none⟩

theorem DiskServer.start_sound : (DiskServer.start M).Sound where
  files := FileStore.start_sound
  waits caller ticket held := by cases held
  apart one other ticket held _ := by cases held

theorem DiskServer.start_shows : DiskServer.Shows (DiskServer.start M) (ServerState.initial M) := by
  have absent : (fun _ => none) = FileStore.start.tree.objects := by
    funext digest
    cases blob : blobPath digest with
    | none => simp only [FileTree.objects, blob, Option.bind_none]
    | some path =>
        simp only [FileTree.objects, blob, FileStore.start, Option.bind_some, Durable.Disk.read,
          Durable.Disk.empty, Option.map_none]
  refine ⟨DiskServer.start_sound, ?_⟩
  rw [ServerState.initial, absent]
  rfl

abbrev DiskEvent := Happening Request DiskChoice DiskAside

variable (M) in
def reachedOnDisk (config : ServerConfig) (events : List DiskEvent) :
    Config (diskServer M).machine (Except ApiError Response) :=
  (diskServer M).run (Request.handler config)
    (Config.initial (diskServer M).machine _ (DiskServer.start M)) events

theorem start_matches : Matches DiskServer.Shows
    (Config.initial (diskServer M).machine (Except ApiError Response) (DiskServer.start M))
    (Config.initial (server M) (Except ApiError Response) (ServerState.initial M)) :=
  ⟨DiskServer.start_shows, rfl⟩

/-- Whatever happens to a server over a filesystem store, step by step, happens to one over an
object store, call by call: the same requests arrive, all of them and their jobs are where they
would be, with the same answers, and the files that are read are the objects. -/
theorem disk_runs_match (config : ServerConfig) (events : List DiskEvent) :
    ∃ actions : List (Action Request Choice),
      started actions = started (events.filterMap Happening.action?) ∧
        (reached M config actions).procs = (reachedOnDisk M config events).procs ∧
        (reached M config actions).state = (reachedOnDisk M config events).state.shown := by
  obtain ⟨actions, same, matched⟩ :=
    (diskServer_implements M).run (Request.handler config) start_matches events
  exact ⟨actions, same, matched.procs, matched.state.2⟩

/-- In every state that is reached on a disk, under the name of a digest is what the digest names
and nothing of what a put has only begun, every row has its file, and a result is stored with all
that it refers to. -/
theorem disk_files_named (config : ServerConfig) (events : List DiskEvent) :
    (∀ digest path bytes, blobPath digest = some path →
        (reachedOnDisk M config events).state.files.read path = some bytes →
        digest.Names bytes) ∧
      (∀ ns digest, (reachedOnDisk M config events).state.shown.Sees ns digest →
        ∃ path bytes, blobPath digest = some path ∧
          (reachedOnDisk M config events).state.files.read path = some bytes) ∧
      ∀ ns action result,
        (reachedOnDisk M config events).state.shown.view.result ns action = some result →
        ∃ kind, (reachedOnDisk M config events).state.shown.Published ns action kind result := by
  obtain ⟨actions, -, -, same⟩ := disk_runs_match (M := M) config events
  have sound : (reachedOnDisk M config events).state.shown.Sound :=
    same ▸ (reachedState M config actions).2
  refine ⟨fun digest path bytes blob found => ?_, fun ns digest seen => ?_, sound.closed⟩
  · refine sound.named digest bytes ?_
    exact ((reachedOnDisk M config events).state.files.tree.objects_read blob).trans found
  · obtain ⟨bytes, stored⟩ := Option.isSome_iff_exists.mp (sound.present ns digest seen)
    obtain ⟨path, blob, found⟩ := Option.bind_eq_some_iff.mp stored
    exact ⟨path, bytes, blob, found⟩

end Runs
section Zero
attribute [local instance] Specimen.protocol

end Zero
end MbxCache
