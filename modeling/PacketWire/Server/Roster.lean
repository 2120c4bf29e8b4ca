import PacketWire.Connection

/-!
# Sessions coming and going

A server takes sockets in one after another, and every session ends on its own. Letting a socket in
and letting a session go each take several steps: the map of live sessions, the counters and the
observer are told one at a time. Between any two steps of one session, another may take one of its
own. The roster holds what these steps act on, and for each of them what it does next.

* `step?` takes one step, where it is due; `run?` takes a list of them.
* `takeIn` and `letGo` take all steps for one socket or session without another in between.
* `length_live_judge`: a socket is only let in below the limit.
-/

namespace PacketWire

/-- The fault that a session ended by. A task that broke off is one. -/
def Outcome.fault? : Outcome → Option ProtocolError
  | finished => none
  | failed fault => some fault
  | aborted => some (.sessionAborted "the task panicked")

/-- What the observer of a server is told (`SessionObserver`). -/
inductive Notice where
  | opened (id : SessionId) (peer : SocketAddress)
  | closed (id : SessionId) (peer : SocketAddress) (fault : Option ProtocolError)
  deriving DecidableEq, Repr

/-- What is to be done next about a socket that came in. -/
inductive Intake where
  /-- Nothing: no socket is waiting. -/
  | waiting
  /-- Compare the live sessions with the limit. -/
  | judging (peer : SocketAddress)
  /-- Count a rejected connection. -/
  | rejecting
  /-- Give the session a number. -/
  | numbering (peer : SocketAddress)
  /-- Enter it into the map. -/
  | entering (id : SessionId) (peer : SocketAddress)
  /-- Count a connection. -/
  | counting (id : SessionId) (peer : SocketAddress)
  /-- Count an active connection. -/
  | activating (id : SessionId) (peer : SocketAddress)
  /-- Tell the observer. -/
  | announcing (id : SessionId) (peer : SocketAddress)
  /-- Start the task. -/
  | spawning (id : SessionId) (peer : SocketAddress)
  deriving DecidableEq, Repr

/-- What is to be done next about a session that was let in. -/
inductive Stage where
  /-- Nothing: its task is running. -/
  | running
  /-- Count a task that broke off as a fault. -/
  | reporting
  /-- Remove it from the map. -/
  | leaving (outcome : Outcome)
  /-- Count one active connection less. -/
  | deactivating (outcome : Outcome)
  /-- Tell the observer. -/
  | announcing (outcome : Outcome)
  /-- Nothing: it is gone. -/
  | released
  deriving DecidableEq, Repr

/-- A session that was let in. -/
structure Task where
  id : SessionId
  peer : SocketAddress
  stage : Stage
  deriving DecidableEq, Repr

/-- The sessions of a server. -/
structure Roster where
  /-- The sessions that may be live at once. -/
  limit : Nat
  metrics : Metrics := {}
  /-- The number of the next session. -/
  nextId : Nat := 1
  /-- The map of live sessions. -/
  live : List (SessionId × SocketAddress) := []
  intake : Intake := .waiting
  /-- Every session that was let in, oldest first. -/
  tasks : List Task := []
  /-- What the observer was told, oldest first. -/
  notices : List Notice := []
  deriving DecidableEq, Repr

namespace Roster

/-! ## Letting a socket in -/

/-- A socket comes in. The next one waits until this one is dealt with. -/
def socket? (peer : SocketAddress) (roster : Roster) : Option Roster :=
  match roster.intake with
  | .waiting => some { roster with intake := .judging peer }
  | _ => none

/-- Takes the next step about the socket that came in (`admit`). -/
def intake? (roster : Roster) : Option Roster :=
  match roster.intake with
  | .waiting => none
  | .judging peer =>
    if roster.limit ≤ roster.live.length then some { roster with intake := .rejecting }
    else some { roster with intake := .numbering peer }
  | .rejecting =>
    some { roster with metrics := roster.metrics.connectionRejected, intake := .waiting }
  | .numbering peer =>
    some { roster with nextId := roster.nextId + 1, intake := .entering ⟨roster.nextId⟩ peer }
  | .entering id peer =>
    some { roster with
      live := roster.live.filter (·.1 ≠ id) ++ [(id, peer)]
      intake := .counting id peer }
  | .counting id peer =>
    some { roster with metrics := roster.metrics.countConnection, intake := .activating id peer }
  | .activating id peer =>
    some { roster with metrics := roster.metrics.countActive, intake := .announcing id peer }
  | .announcing id peer =>
    some { roster with
      notices := roster.notices ++ [.opened id peer]
      intake := .spawning id peer }
  | .spawning id peer =>
    some { roster with tasks := roster.tasks ++ [⟨id, peer, .running⟩], intake := .waiting }

/-! ## Letting a session go -/

/-- The session of a number. -/
def task? (roster : Roster) (id : SessionId) : Option Task := roster.tasks.find? (·.id = id)

/-- Moves a session on to another stage. -/
def setStage (id : SessionId) (stage : Stage) (roster : Roster) : Roster :=
  { roster with
    tasks := roster.tasks.map fun task => if task.id = id then { task with stage } else task }

/-- The task of a session ends. -/
def end? (id : SessionId) (outcome : Outcome) (roster : Roster) : Option Roster :=
  match roster.task? id with
  | some ⟨_, _, .running⟩ =>
    let stage := match outcome with
      | .aborted => .reporting
      | .finished | .failed _ => .leaving outcome
    some (roster.setStage id stage)
  | _ => none

/-- Takes the next step about a session whose task has ended (`admit`). -/
def release? (id : SessionId) (roster : Roster) : Option Roster :=
  match roster.task? id with
  | none => none
  | some ⟨_, peer, stage⟩ =>
    match stage with
    | .running | .released => none
    | .reporting =>
      let next := { roster with metrics := roster.metrics.protocolError }
      some (next.setStage id (.leaving .aborted))
    | .leaving outcome =>
      let next := { roster with live := roster.live.filter (·.1 ≠ id) }
      some (next.setStage id (.deactivating outcome))
    | .deactivating outcome =>
      let next := { roster with metrics := roster.metrics.connectionClosed }
      some (next.setStage id (.announcing outcome))
    | .announcing outcome =>
      let told := roster.notices ++ [Notice.closed id peer outcome.fault?]
      let next := { roster with notices := told }
      some (next.setStage id .released)

/-! ## Steps in any order -/

/-- A step of the server. -/
inductive Step where
  | socket (peer : SocketAddress)
  | intake
  | ending (id : SessionId) (outcome : Outcome)
  | release (id : SessionId)
  deriving DecidableEq, Repr

/-- Takes a step, where it is due. -/
def step? (roster : Roster) : Step → Option Roster
  | .socket peer => roster.socket? peer
  | .intake => roster.intake?
  | .ending id outcome => roster.end? id outcome
  | .release id => roster.release? id

/-- Takes steps one after another, each where it is due. -/
def run? (roster : Roster) (steps : List Step) : Option Roster := steps.foldlM step? roster

/-- A socket is given a number only while fewer sessions than the limit are live. -/
theorem length_live_judge {roster next : Roster} {peer : SocketAddress}
    (h : roster.intake = .judging peer) (hnext : roster.intake? = some next) :
    next.intake = .numbering peer ↔ roster.live.length < roster.limit := by
  unfold intake? at hnext
  simp only [h] at hnext
  split at hnext
  · cases hnext
    simp only [reduceCtorEq, false_iff]
    omega
  · cases hnext
    simp only [true_iff]
    omega

/-! ## All steps at once -/

/-- The longest way from a socket to a running task. -/
def intakeSteps : Nat := 7

/-- The longest way from an ended task to a session that is gone. -/
def releaseSteps : Nat := 4

/-- Takes a step over and over, as long as it is due. -/
def repeatedly (step : Roster → Option Roster) : Nat → Roster → Roster
  | 0, roster => roster
  | n + 1, roster =>
    match step roster with
    | some next => repeatedly step n next
    | none => roster

/-- A socket comes in and is dealt with: the session it is let in as, if it is. -/
def takeIn (peer : SocketAddress) (roster : Roster) : Option SessionId × Roster :=
  match roster.socket? peer with
  | none => (none, roster)
  | some judged =>
    let after := repeatedly intake? intakeSteps judged
    let id := if roster.nextId < after.nextId then some ⟨roster.nextId⟩ else none
    (id, after)

/-- The task of a session ends and the session is let go. -/
def letGo (id : SessionId) (outcome : Outcome) (roster : Roster) : Roster :=
  match roster.end? id outcome with
  | none => roster
  | some ended => repeatedly (release? id) releaseSteps ended

/-- The numbers of live sessions, lowest first (`session_ids`). -/
def liveIds (roster : Roster) : List SessionId :=
  (roster.live.map (·.1)).mergeSort fun a b => a.number ≤ b.number

end Roster

end PacketWire
