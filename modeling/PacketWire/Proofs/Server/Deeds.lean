import Mathlib.Data.List.Nodup
import PacketWire.Server.Roster

/-!
# What the steps of a server do

Most steps change something that the sessions share: the map, a counter, or what the observer was
told. What they do is a deed, and the deeds of a run make its log.

* `Deed.write`: what a deed does to the books, which are all that the sessions share.
* `Roster.deeds`: the log of a run.
* `Roster.Takes`: what a step does, one case for each thing that may be due.
-/

namespace PacketWire

/-- What is next for a session whose task has ended. -/
def Outcome.stage : Outcome → Stage
  | .aborted => .reporting
  | outcome => .leaving outcome

/-! ## Deeds -/

/-- What a step does. -/
inductive Deed where
  /-- A socket has come in. -/
  | arrived (peer : SocketAddress)
  | rejected
  | issued (id : SessionId)
  | entered (id : SessionId) (peer : SocketAddress)
  | counted (id : SessionId)
  | activated (id : SessionId)
  | opened (id : SessionId) (peer : SocketAddress)
  | started (id : SessionId)
  | ended (id : SessionId) (outcome : Outcome)
  /-- A task that broke off is counted as a fault. -/
  | reported (id : SessionId)
  | removed (id : SessionId)
  | deactivated (id : SessionId)
  | closed (id : SessionId) (peer : SocketAddress) (fault : Option ProtocolError)
  deriving DecidableEq

/-- What the sessions of a server share. -/
structure Books where
  live : List (SessionId × SocketAddress) := []
  metrics : Metrics := {}
  notices : List Notice := []

namespace Deed

/-- The session that is concerned. -/
def session? : Deed → Option SessionId
  | arrived _ | rejected => none
  | issued id | entered id _ | counted id | activated id | opened id _ | started id | ended id _
  | reported id | removed id | deactivated id | closed id _ _ => some id

/-- The number that is given. -/
def issued? : Deed → Option SessionId
  | issued id => some id
  | _ => none

/-- Whether it is done about a socket that comes in. -/
def isIntake : Deed → Bool
  | arrived _ | rejected | issued _ | entered _ _ | counted _ | activated _ | opened _ _
  | started _ => true
  | ended _ _ | reported _ | removed _ | deactivated _ | closed _ _ _ => false

/-- What it does to what the sessions share. -/
def write (books : Books) : Deed → Books
  | arrived _ | issued _ | started _ | ended _ _ => books
  | rejected => { books with metrics := books.metrics.connectionRejected }
  | entered id peer => { books with live := books.live.filter (·.1 ≠ id) ++ [(id, peer)] }
  | counted _ => { books with metrics := books.metrics.countConnection }
  | activated _ => { books with metrics := books.metrics.countActive }
  | opened id peer => { books with notices := books.notices ++ [.opened id peer] }
  | reported _ => { books with metrics := books.metrics.protocolError }
  | removed id => { books with live := books.live.filter (·.1 ≠ id) }
  | deactivated _ => { books with metrics := books.metrics.connectionClosed }
  | closed id peer fault => { books with notices := books.notices ++ [.closed id peer fault] }

theorem session?_of_issued? {deed : Deed} {id : SessionId} (h : deed.issued? = some id) :
    deed.session? = some id := by
  cases deed <;> cases h
  rfl

end Deed

/-- What the next step about a socket does, if it does more than to look. -/
def Intake.deed? (nextId : Nat) : Intake → Option Deed
  | waiting | judging _ => none
  | rejecting => some .rejected
  | numbering _ => some (.issued ⟨nextId⟩)
  | entering id peer => some (.entered id peer)
  | counting id _ => some (.counted id)
  | activating id _ => some (.activated id)
  | announcing id peer => some (.opened id peer)
  | spawning id _ => some (.started id)

/-- What the next step of a release does. -/
def Task.deed? (task : Task) : Option Deed :=
  match task.stage with
  | .running | .released => none
  | .reporting => some (.reported task.id)
  | .leaving _ => some (.removed task.id)
  | .deactivating _ => some (.deactivated task.id)
  | .announcing outcome => some (.closed task.id task.peer outcome.fault?)

namespace Roster

/-! ## Steps -/

/-- What a step does. -/
def deed? (roster : Roster) : Step → Option Deed
  | .socket peer => some (.arrived peer)
  | .intake => roster.intake.deed? roster.nextId
  | .ending id outcome => some (.ended id outcome)
  | .release id => (roster.task? id).bind Task.deed?

/-- The log of a run. -/
def deeds (roster : Roster) : List Step → List Deed
  | [] => []
  | step :: rest =>
    match roster.step? step with
    | none => []
    | some next => (roster.deed? step).toList ++ next.deeds rest

def books (roster : Roster) : Books := ⟨roster.live, roster.metrics, roster.notices⟩

/-- What a step does. Those about a session that was let in move its task on, and no other. -/
inductive Takes (roster : Roster) : Step → Option Deed → Roster → Prop
  | socket {peer : SocketAddress} : roster.intake = .waiting →
      Takes roster (.socket peer) (some (.arrived peer)) { roster with intake := .judging peer }
  | full {peer : SocketAddress} : roster.intake = .judging peer →
      roster.limit ≤ roster.live.length →
      Takes roster .intake none { roster with intake := .rejecting }
  | room {peer : SocketAddress} : roster.intake = .judging peer →
      roster.live.length < roster.limit →
      Takes roster .intake none { roster with intake := .numbering peer }
  | reject : roster.intake = .rejecting →
      Takes roster .intake (some .rejected)
        { roster with metrics := roster.metrics.connectionRejected, intake := .waiting }
  | issue {peer : SocketAddress} : roster.intake = .numbering peer →
      Takes roster .intake (some (.issued ⟨roster.nextId⟩))
        { roster with nextId := roster.nextId + 1, intake := .entering ⟨roster.nextId⟩ peer }
  | enter {id : SessionId} {peer : SocketAddress} : roster.intake = .entering id peer →
      Takes roster .intake (some (.entered id peer))
        { roster with
          live := roster.live.filter (·.1 ≠ id) ++ [(id, peer)]
          intake := .counting id peer }
  | count {id : SessionId} {peer : SocketAddress} : roster.intake = .counting id peer →
      Takes roster .intake (some (.counted id))
        { roster with metrics := roster.metrics.countConnection, intake := .activating id peer }
  | activate {id : SessionId} {peer : SocketAddress} : roster.intake = .activating id peer →
      Takes roster .intake (some (.activated id))
        { roster with metrics := roster.metrics.countActive, intake := .announcing id peer }
  | announce {id : SessionId} {peer : SocketAddress} : roster.intake = .announcing id peer →
      Takes roster .intake (some (.opened id peer))
        { roster with
          notices := roster.notices ++ [.opened id peer]
          intake := .spawning id peer }
  | spawn {id : SessionId} {peer : SocketAddress} : roster.intake = .spawning id peer →
      Takes roster .intake (some (.started id))
        { roster with tasks := roster.tasks ++ [⟨id, peer, .running⟩], intake := .waiting }
  | ending {front back : List Task} {id : SessionId} {peer : SocketAddress} (outcome : Outcome) :
      roster.tasks = front ++ ⟨id, peer, .running⟩ :: back →
      Takes roster (.ending id outcome) (some (.ended id outcome))
        { roster with tasks := front ++ ⟨id, peer, outcome.stage⟩ :: back }
  | report {front back : List Task} {id : SessionId} {peer : SocketAddress} :
      roster.tasks = front ++ ⟨id, peer, .reporting⟩ :: back →
      Takes roster (.release id) (some (.reported id))
        { roster with
          metrics := roster.metrics.protocolError
          tasks := front ++ ⟨id, peer, .leaving .aborted⟩ :: back }
  | leave {front back : List Task} {id : SessionId} {peer : SocketAddress} {outcome : Outcome} :
      roster.tasks = front ++ ⟨id, peer, .leaving outcome⟩ :: back →
      Takes roster (.release id) (some (.removed id))
        { roster with
          live := roster.live.filter (·.1 ≠ id)
          tasks := front ++ ⟨id, peer, .deactivating outcome⟩ :: back }
  | deactivate {front back : List Task} {id : SessionId} {peer : SocketAddress}
      {outcome : Outcome} :
      roster.tasks = front ++ ⟨id, peer, .deactivating outcome⟩ :: back →
      Takes roster (.release id) (some (.deactivated id))
        { roster with
          metrics := roster.metrics.connectionClosed
          tasks := front ++ ⟨id, peer, .announcing outcome⟩ :: back }
  | close {front back : List Task} {id : SessionId} {peer : SocketAddress} {outcome : Outcome} :
      roster.tasks = front ++ ⟨id, peer, .announcing outcome⟩ :: back →
      Takes roster (.release id) (some (.closed id peer outcome.fault?))
        { roster with
          notices := roster.notices ++ [.closed id peer outcome.fault?]
          tasks := front ++ ⟨id, peer, .released⟩ :: back }

variable {roster next : Roster}

theorem setStage_of_not_mem {tasks : List Task} {id : SessionId} (h : id ∉ tasks.map (·.id))
    (stage : Stage) :
    (tasks.map fun task => if task.id = id then { task with stage } else task) = tasks := by
  conv_rhs => rw [← List.map_id tasks]
  refine List.map_congr_left fun task htask => if_neg fun hid => ?_
  exact h (List.mem_map.mpr ⟨task, htask, hid⟩)

/-- The task of a session stands in one place, and it alone is moved on. -/
theorem split_of_task? (hnodup : (roster.tasks.map (·.id)).Nodup) {id : SessionId} {task : Task}
    (h : roster.task? id = some task) :
    task.id = id ∧ ∃ front back, roster.tasks = front ++ task :: back ∧ ∀ stage,
      (roster.tasks.map fun other => if other.id = id then { other with stage } else other) =
        front ++ { task with stage } :: back := by
  obtain ⟨hid, front, back, htasks, -⟩ := List.find?_eq_some_iff_append.mp h
  have hid : task.id = id := of_decide_eq_true hid
  rw [htasks, List.map_append, List.map_cons, List.nodup_append, hid] at hnodup
  obtain ⟨-, hback, hfront⟩ := hnodup
  have hfront : id ∉ front.map (·.id) := fun hmem => hfront id hmem id List.mem_cons_self rfl
  refine ⟨hid, front, back, htasks, fun stage => ?_⟩
  rw [htasks, List.map_append, List.map_cons, if_pos hid, setStage_of_not_mem hfront,
    setStage_of_not_mem (List.nodup_cons.mp hback).1]

theorem task?_of_mem (hnodup : (roster.tasks.map (·.id)).Nodup) {task : Task}
    (htask : task ∈ roster.tasks) : roster.task? task.id = some task := by
  cases hfound : roster.task? task.id with
  | none => simpa using List.find?_eq_none.mp hfound task htask
  | some other =>
    obtain ⟨hid, front, back, htasks, -⟩ := split_of_task? hnodup hfound
    have hother : other ∈ roster.tasks := htasks ▸ List.mem_append_cons_self
    rw [List.inj_on_of_nodup_map hnodup hother htask hid]

theorem takes_of_intake? (h : roster.intake? = some next) :
    roster.Takes .intake (roster.deed? .intake) next := by
  unfold intake? at h
  rw [deed?]
  cases hintake : roster.intake with
  | waiting =>
    rw [hintake] at h
    cases h
  | judging peer =>
    rw [hintake] at h
    dsimp only at h
    split at h
    · next hfull =>
      cases h
      exact .full hintake hfull
    · next hroom =>
      cases h
      exact .room hintake (Nat.lt_of_not_le hroom)
  | rejecting =>
    rw [hintake] at h
    cases h
    exact .reject hintake
  | numbering peer =>
    rw [hintake] at h
    cases h
    exact .issue hintake
  | entering id peer =>
    rw [hintake] at h
    cases h
    exact .enter hintake
  | counting id peer =>
    rw [hintake] at h
    cases h
    exact .count hintake
  | activating id peer =>
    rw [hintake] at h
    cases h
    exact .activate hintake
  | announcing id peer =>
    rw [hintake] at h
    cases h
    exact .announce hintake
  | spawning id peer =>
    rw [hintake] at h
    cases h
    exact .spawn hintake

section

variable (hnodup : (roster.tasks.map (·.id)).Nodup)
include hnodup

theorem takes_of_end? {id : SessionId} {outcome : Outcome}
    (h : roster.end? id outcome = some next) :
    roster.Takes (.ending id outcome) (some (.ended id outcome)) next := by
  unfold end? at h
  split at h
  · next other peer htask =>
    obtain ⟨hid, front, back, htasks, hmoved⟩ := split_of_task? hnodup htask
    have hid : other = id := hid
    subst hid
    cases h
    have htakes := Takes.ending outcome htasks
    rw [← hmoved] at htakes
    cases outcome <;> exact htakes
  · cases h

theorem takes_of_release? {id : SessionId} (h : roster.release? id = some next) :
    roster.Takes (.release id) (roster.deed? (.release id)) next := by
  unfold release? at h
  rw [deed?]
  split at h
  · cases h
  · next other peer stage htask =>
    obtain ⟨hid, front, back, htasks, hmoved⟩ := split_of_task? hnodup htask
    have hid : other = id := hid
    subst hid
    rw [htask, Option.bind_some]
    cases stage with
    | running | released => cases h
    | reporting =>
      cases h
      have htakes := Takes.report htasks
      rwa [← hmoved] at htakes
    | leaving outcome =>
      cases h
      have htakes := Takes.leave htasks
      rwa [← hmoved] at htakes
    | deactivating outcome =>
      cases h
      have htakes := Takes.deactivate htasks
      rwa [← hmoved] at htakes
    | announcing outcome =>
      cases h
      have htakes := Takes.close htasks
      rwa [← hmoved] at htakes

/-- Every step that is due is one of these. -/
theorem takes_of_step? {step : Step} (h : roster.step? step = some next) :
    roster.Takes step (roster.deed? step) next := by
  cases step with
  | socket peer =>
    simp only [step?, socket?] at h
    split at h
    · next hintake =>
      cases h
      exact .socket hintake
    · cases h
  | intake => exact takes_of_intake? h
  | ending id outcome => exact takes_of_end? hnodup h
  | release id => exact takes_of_release? hnodup h

end

end Roster

end PacketWire
